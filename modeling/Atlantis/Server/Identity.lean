import Atlantis.Lib.Fold

/-!
# `Server.Identity` — who a request is from

`cmd/server/auth.go`, `proxyauth.go` and `interceptors/cert_binding.go`. Under mTLS every connection has a verified
client certificate. The first interceptor makes a caller name of it: the common name of the live certificate, or, if that
is a trusted proxy, of the certificate the proxy forwards. The second one compares the fingerprint of the same certificate
with the one on record for that name.

The first falls back to the header `x-caller` where no name comes from TLS. That is meant for development without TLS, but
a verified certificate with an empty common name takes the same way: the header then names any caller, and the second
interceptor lets the names it exempts pass. `identityVerified_iff` says that this is the only way around.
-/

namespace Atlantis.Server

open Lib

/-! ## Resolving the caller -/

/-- An `x509.Certificate`, with the bytes it was parsed from. -/
structure Certificate where
  commonName : String
  raw : List UInt8
  nonempty : raw ≠ []
  deriving DecidableEq

/-- The context of a call: the leaf certificate of its TLS connection, if any, and its metadata. -/
structure CallContext where
  peer : Option Certificate
  metadata : String → List String

/-- `forwardedAuth`, with the parser of the header and the verification against the client CAs. -/
structure ForwardedAuth where
  proxies : List String
  header : String
  parseForwardedCert : String → Except String Certificate
  verify : Certificate → Except String Unit

/-- The certificate that a trusted proxy forwards. -/
def ForwardedAuth.forwarded (fa : ForwardedAuth) (proxyCN : String) (vals : List String) : Except String Certificate :=
  let msg := fun text => "trusted proxy \"" ++ proxyCN ++ "\" forwarded " ++ text
  if (vals.headD "").toList.all Char.isWhitespace then .error (msg "no client certificate")
  else if vals.length > 1 then .error (msg "multiple client certificates")
  else do
    let cert ← (fa.parseForwardedCert (vals.headD "")).mapError (msg "an unparseable client certificate: " ++ ·)
    (fa.verify cert).mapError (msg "an invalid client certificate: " ++ ·)
    if cert.commonName = "" then throw "forwarded client certificate has empty CN"
    else if cert.commonName ∈ fa.proxies then
      throw ("forwarded client certificate CN \"" ++ cert.commonName ++ "\" is a trusted-proxy CN")
    else pure cert

/-- `forwardedAuth.resolve`: the forwarded certificate, if the trusted-proxy path applies. -/
def resolve (fa : Option ForwardedAuth) (ctx : CallContext) : Except String (Option Certificate) :=
  match fa, ctx.peer with
  | some fa, some proxy =>
    if proxy.commonName ∈ fa.proxies then (fa.forwarded proxy.commonName (ctx.metadata fa.header)).map some
    else .ok none
  | _, _ => .ok none

/-- `resolveCaller`. -/
def resolveCaller (ctx : CallContext) : String :=
  let cn := (ctx.peer.map Certificate.commonName).getD ""
  let header := (ctx.metadata "x-caller").headD ""
  if cn ≠ "" then cn else if header ≠ "" then header else "anonymous"

/-- The context that the later interceptors and the handler see. -/
structure Resolved where
  caller : String
  forwardedCert : List UInt8 := []
  peer : Option Certificate
  deriving DecidableEq

/-- `applyResolvedCaller`. -/
def applyResolvedCaller (fa : Option ForwardedAuth) (ctx : CallContext) : Except String Resolved := do
  match ← resolve fa ctx with
  | some cert => pure { caller := cert.commonName, forwardedCert := cert.raw, peer := ctx.peer }
  | none => pure { caller := resolveCaller ctx, peer := ctx.peer }

/-! ## Binding it to the certificate -/

/-- `CertBindingConfig`. A lookup answers whether the caller has a row, and its fingerprint if one is recorded. -/
structure CertBinding where
  enforce : Bool
  exemptCallers : List String
  lookup : String → Except String (Option (Option (List UInt8)))
  sha256 : List UInt8 → List UInt8

/-- `leafCertFromContext`: the bytes that are fingerprinted. -/
def leafCertFromContext (r : Resolved) : Option (List UInt8) :=
  if r.forwardedCert ≠ [] then some r.forwardedCert else r.peer.map Certificate.raw

/-- `buildCertBindingCheck`. -/
def certBindingCheck (b : CertBinding) (r : Resolved) : Except String Unit :=
  if !b.enforce then .ok ()
  else if r.caller = "" ∨ r.caller = "anonymous" then .ok ()
  else if r.caller ∈ b.exemptCallers then .ok ()
  else
    match leafCertFromContext r with
    | none => .error "no peer certificate"
    | some raw =>
      match b.lookup r.caller with
      | .error _ => .error "caller binding unavailable"
      | .ok none => .error ("caller \"" ++ r.caller ++ "\" is not registered")
      | .ok (some none) => .ok ()
      | .ok (some (some stored)) =>
        if stored = b.sha256 raw then .ok () else .error ("cert superseded for caller \"" ++ r.caller ++ "\"")

/-- **What both interceptors let through**, with the caller name used afterwards. -/
def authenticate (fa : Option ForwardedAuth) (b : CertBinding) (ctx : CallContext) : Except String Resolved := do
  let r ← applyResolvedCaller fa ctx
  certBindingCheck b r
  pure r

/-! ## Identity -/

/-- The certificates that may speak for a call: the live one, or what a trusted proxy forwards and the CAs verify. -/
inductive SpeaksFor (fa : Option ForwardedAuth) (ctx : CallContext) (cert : Certificate) : Prop where
  | live (hpeer : ctx.peer = some cert)
  | forwarded {f : ForwardedAuth} {proxy : Certificate} (hfa : fa = some f) (hpeer : ctx.peer = some proxy)
      (hproxy : proxy.commonName ∈ f.proxies)
      (hparse : f.parseForwardedCert ((ctx.metadata f.header).headD "") = .ok cert) (hverify : f.verify cert = .ok ())

/-- Calls over one live certificate are from the common name of the certificate that is fingerprinted, and only the
    header of forwarded certificates matters. -/
structure IdentityVerified (fa : Option ForwardedAuth) (b : CertBinding) (peer : Certificate) : Prop where
  caller : ∀ metadata r, authenticate fa b ⟨some peer, metadata⟩ = .ok r →
    ∃ cert, SpeaksFor fa ⟨some peer, metadata⟩ cert ∧ r.caller = cert.commonName ∧ leafCertFromContext r = some cert.raw
  metadata : ∀ metadata metadata', (∀ f ∈ fa, metadata f.header = metadata' f.header) →
    authenticate fa b ⟨some peer, metadata⟩ = authenticate fa b ⟨some peer, metadata'⟩

variable {fa : Option ForwardedAuth} {f : ForwardedAuth} {peer cert : Certificate} {metadata : String → List String}

/-- A live certificate that is no proxy's stands for itself. -/
theorem applyResolvedCaller_direct (h : ∀ f ∈ fa, peer.commonName ∉ f.proxies) :
    applyResolvedCaller fa ⟨some peer, metadata⟩ =
      .ok { caller := resolveCaller ⟨some peer, metadata⟩, peer := some peer } := by
  have hnone : resolve fa ⟨some peer, metadata⟩ = .ok none := by
    cases fa with
    | none => rfl
    | some f => exact if_neg (h f rfl)
  unfold applyResolvedCaller
  rw [hnone]
  rfl

/-- A proxy stands for what it forwards. -/
theorem applyResolvedCaller_proxy (h : peer.commonName ∈ f.proxies) :
    applyResolvedCaller (some f) ⟨some peer, metadata⟩ =
      (f.forwarded peer.commonName (metadata f.header)).map fun cert => ⟨cert.commonName, cert.raw, some peer⟩ := by
  have hsome : resolve (some f) ⟨some peer, metadata⟩ =
      (f.forwarded peer.commonName (metadata f.header)).map some := if_pos h
  unfold applyResolvedCaller
  rw [hsome]
  cases f.forwarded peer.commonName (metadata f.header) <;> rfl

theorem authenticate_ok {b : CertBinding} {ctx : CallContext} {r : Resolved} (h : authenticate fa b ctx = .ok r) :
    applyResolvedCaller fa ctx = .ok r := by
  obtain ⟨r', happly, h⟩ := bind_ok h
  obtain ⟨_, _, h⟩ := bind_ok h
  rwa [← Except.ok.inj h]

/-- **The caller is a verified certificate's common name, whatever the metadata, exactly if the live certificate has a
    common name** (or the empty one is a trusted proxy's). -/
theorem identityVerified_iff (fa : Option ForwardedAuth) (b : CertBinding) (peer : Certificate) :
    IdentityVerified fa b peer ↔ peer.commonName ≠ "" ∨ ∃ f ∈ fa, "" ∈ f.proxies := by
  constructor
  · intro h
    by_contra hno
    obtain ⟨hempty, hproxies⟩ := not_or.mp hno
    rw [not_not] at hempty
    have hdirect : ∀ f ∈ fa, peer.commonName ∉ f.proxies := by
      intro f hf hmem
      exact hproxies ⟨f, hf, hempty ▸ hmem⟩
    -- without `x-caller` the call is anonymous, and passes
    have hauth : authenticate fa b ⟨some peer, fun _ => []⟩ = .ok { caller := "anonymous", peer := some peer } := by
      have hanonymous : resolveCaller ⟨some peer, fun _ => []⟩ = "anonymous" := by simp [resolveCaller, hempty]
      unfold authenticate
      rw [applyResolvedCaller_direct hdirect, hanonymous]
      cases henforce : b.enforce <;> simp [certBindingCheck, henforce] <;> rfl
    obtain ⟨cert, hspeaks, hcaller, _⟩ := h.caller _ _ hauth
    cases hspeaks with
    | live hpeer =>
      cases hpeer
      have hname : "anonymous" = "" := hcaller.trans hempty
      exact absurd hname (by decide)
    | forwarded hfa hpeer hproxy _ _ =>
      cases hpeer
      exact hdirect _ hfa hproxy
  · intro h
    by_cases hproxied : ∃ f ∈ fa, peer.commonName ∈ f.proxies
    · obtain ⟨f, rfl, hproxy⟩ := hproxied
      constructor
      · intro metadata r hauth
        have happly := authenticate_ok hauth
        rw [applyResolvedCaller_proxy hproxy] at happly
        cases hcert : f.forwarded peer.commonName (metadata f.header) with
        | error msg =>
          rw [hcert] at happly
          cases happly
        | ok cert =>
          rw [hcert] at happly
          cases happly
          -- what was forwarded has been verified
          unfold ForwardedAuth.forwarded at hcert
          simp only at hcert
          split at hcert
          · cases hcert
          split at hcert
          · cases hcert
          obtain ⟨cert', hparse, hcert⟩ := bind_ok hcert
          obtain ⟨_, hverify, hcert⟩ := bind_ok hcert
          split at hcert
          · cases hcert
          split at hcert
          · cases hcert
          cases hcert
          exact ⟨cert, .forwarded rfl rfl hproxy (mapError_ok hparse) (mapError_ok hverify), rfl, if_pos cert.nonempty⟩
      · intro metadata metadata' hsame
        unfold authenticate
        rw [applyResolvedCaller_proxy hproxy, applyResolvedCaller_proxy hproxy, hsame f rfl]
    · have hdirect : ∀ f ∈ fa, peer.commonName ∉ f.proxies := fun f hf hmem => hproxied ⟨f, hf, hmem⟩
      have hnamed : peer.commonName ≠ "" := by
        rcases h with hnamed | ⟨f, hf, hmem⟩
        · exact hnamed
        · intro hempty
          exact hdirect f hf (hempty ▸ hmem)
      have hcaller : ∀ metadata, resolveCaller ⟨some peer, metadata⟩ = peer.commonName := fun _ => if_pos hnamed
      constructor
      · intro metadata r hauth
        have happly := authenticate_ok hauth
        rw [applyResolvedCaller_direct hdirect, hcaller] at happly
        cases happly
        exact ⟨peer, .live rfl, rfl, rfl⟩
      · intro metadata metadata' _
        unfold authenticate
        rw [applyResolvedCaller_direct hdirect, applyResolvedCaller_direct hdirect, hcaller, hcaller]

/-- **A nameless certificate passes as the console**: by the header, without a fingerprint. -/
theorem nameless_certificate_impersonates :
    authenticate none ⟨true, ["atlantis-console"], fun _ => .ok none, id⟩
      ⟨some ⟨"", [48], by decide⟩, fun key => if key = "x-caller" then ["atlantis-console"] else []⟩
    = .ok { caller := "atlantis-console", peer := some ⟨"", [48], by decide⟩ } := by
  rfl

end Atlantis.Server
