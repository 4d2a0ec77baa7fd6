import Atlantis.Jobs.Row
import Atlantis.Lib.Machine

/-!
# `Jobs.System` — one row and everybody who works on it

Direct workers (`clients/go/jobs/runner.go`), dispatcher pods and their worker sessions
(`internal/server/jobsdispatcher`) side by side on one row of `atlantis.jobs`. A step is one statement against the
database together with what its process does in memory around it; where a process reads first and writes later
(`handleFail`, `sweepExpiredLeases`) the read is a step of its own. Who is chosen, what a handler returns, which
reads fail and when is part of the action, so a run is any interleaving.

What a process remembers of the row is its `Hold`. The in-flight map of a session is not told when the lease runs
out in the database, and `unregister`, `EvictSession` and `forceReleaseAll` release rows without clearing it: a hold
may outlive what it stands for. `Hold.lease` records what the process could know, the deadline that its own last
write put into `claimed_until`, until it gives the row back itself.
-/

namespace Atlantis.Jobs

open Lib

/-- The processes: direct workers, the drain loops of dispatcher pods, worker sessions. -/
inductive Proc where
  | worker (w : Nat)
  | pod (p : Nat)
  | session (s : Nat)
  deriving DecidableEq, Repr

/-- The identifiers the processes run under. Nothing says that they differ. -/
structure Config where
  workerPodID : Nat → String
  podID : Nat → String
  sessionID : Nat → String

/-- `session.claimedBy`. -/
def Config.claimedBy (cfg : Config) (s : Nat) : String := "dispatcher/" ++ cfg.sessionID s

/-- What `drainOnce` claims under before it has chosen a session. -/
def Config.placeholder (cfg : Config) (p : Nat) : String := "dispatcher/" ++ cfg.podID p

/-- Where a process stands with the row. -/
inductive Phase where
  /-- A direct worker: the handler waits or runs. -/
  | handling
  /-- A pod: claimed, no session yet. -/
  | claimed
  /-- A pod: bound to the session, not yet sent to it. -/
  | bound (s : Nat)
  /-- A session: in its in-flight map. -/
  | inflight
  /-- A session: taken out of the map, `lookupAttempts` done, the failure not yet written. -/
  | reporting (attempts : Nat) (maxRetries : Int) (retry : Bool)
  deriving DecidableEq, Repr

/-- What a process remembers of the row. -/
structure Hold where
  /-- `ClaimedRow.Attempts`, counted up by the claim. -/
  attempts : Nat
  maxRetries : Int
  phase : Phase
  /-- The deadline this process last wrote into `claimed_until` and has not given back. -/
  lease : Option Int
  deriving DecidableEq, Repr

/-- The database, the processes, and how often the row was sent to a session. -/
structure Sys where
  now : Int
  store : Store
  /-- One for each process: a dispatch to a session overwrites the one before it. -/
  holds : Proc → Option Hold := fun _ => none
  sent : Nat := 0

/-- What the processes do. -/
inductive Act where
  | tick (d : Nat)
  /-- `Worker.drainOnce`. -/
  | workerClaim (w : Nat) (budget : Nat)
  /-- The heartbeat of `handleOne`. -/
  | workerExtend (w : Nat) (budget : Nat)
  /-- The handler returned no error. -/
  | workerComplete (w : Nat)
  /-- `Worker.reportFailure`. -/
  | workerFail (w : Nat) (msg : String)
  /-- `Worker.reportTransientFailure`. -/
  | workerMissing (w : Nat) (msg : String)
  /-- The claim of `Dispatcher.drainOnce`. -/
  | podClaim (p : Nat) (jobNames : List String) (budget : Nat)
  /-- `no_session_post_claim`, `bind_failed`. -/
  | podRelease (p : Nat) (reason : String)
  /-- `authz_rejected`, for the session that was picked. -/
  | podReject (p s : Nat)
  | podBind (p s : Nat)
  /-- The per-job lease of `drainOnce`. -/
  | podExtend (p s : Nat) (perJob : Nat)
  /-- `recordDispatch` with room in the outbox. -/
  | podDispatch (p s : Nat)
  /-- `recordDispatch` without. -/
  | podOutboxFull (p s : Nat)
  /-- A flush of `runLeaseProcessor`. -/
  | sessionExtend (s : Nat) (dur : Nat)
  /-- `handleComplete`. -/
  | sessionComplete (s : Nat)
  /-- `handleFail` up to `lookupAttempts`, which may fail. -/
  | sessionFail (s : Nat) (retry read : Bool)
  /-- `sweepExpiredLeases` up to `lookupAttempts`; if that fails the row is released. -/
  | sessionRevoke (s : Nat) (reason : String) (read : Bool)
  /-- The write of `handleFail` and `sweepExpiredLeases`. -/
  | sessionReport (s : Nat) (msg : String)
  /-- `sweepAckTimeouts`. -/
  | sessionAckTimeout (s : Nat)
  /-- `unregister`, `EvictSession`, `forceReleaseAll`: the in-flight map keeps the row. -/
  | sessionRelease (s : Nat) (reason : String)
  /-- A process forgets the row: it crashes, or its stream ends. -/
  | crash (p : Proc)
  /-- `SweepExhaustedToDLQ` on the row's queue. -/
  | sweep
  deriving DecidableEq, Repr

namespace Sys

/-- A statement, and what the process remembers after it. -/
def put (σ : Sys) (p : Proc) (h : Option Hold) (store : Store) : Sys :=
  { σ with store := store, holds := Function.update σ.holds p h }

@[simp] theorem put_holds (σ : Sys) (p : Proc) (h : Option Hold) (store : Store) :
    (σ.put p h store).holds = Function.update σ.holds p h := rfl

@[simp] theorem put_store (σ : Sys) (p : Proc) (h : Option Hold) (store : Store) : (σ.put p h store).store = store := rfl

/-- `ClaimRows`, for a process that does not have the row in its hands. -/
def claimBy (σ : Sys) (p : Proc) (jobNames : List String) (claimedBy : String) (budget : Nat) (kind : WorkerKind)
    (sessionID : String) (phase : Phase) : Option Sys :=
  match σ.store.live with
  | some r =>
    if σ.holds p = none ∧ r.Claimable σ.now r.queue jobNames then
      some (σ.put p
        (some { attempts := r.attempts + 1, maxRetries := r.maxRetries, phase, lease := some (σ.now + budget) })
        (σ.store.update (Row.claim σ.now claimedBy (σ.now + budget) kind sessionID)))
    else none
  | none => none

/-- `ExtendLease` by a process with hold `h`. -/
def extendBy (σ : Sys) (p : Proc) (h : Hold) (name : String) (dur : Nat) : Sys :=
  σ.put p
    (some { h with
      lease := if σ.store.live.any (·.claimedBy = some name) then some (σ.now + dur) else h.lease })
    (σ.store.update (Row.extendLease σ.now name dur))

/-- `ReleaseRow`. -/
def releaseBy (σ : Sys) (p : Proc) (after : Option Hold) (name reason : String) : Sys :=
  σ.put p after (σ.store.update (Row.releaseRow σ.now name reason))

/-- One step. -/
def step (cfg : Config) (σ : Sys) : Act → Option Sys
  | .tick d => some { σ with now := σ.now + d }
  | .workerClaim w budget =>
    σ.claimBy (.worker w) [] (cfg.workerPodID w) budget .directPG "" .handling
  | .workerExtend w budget =>
    (σ.holds (.worker w)).map fun h => σ.extendBy (.worker w) h (cfg.workerPodID w) budget
  | .workerComplete w =>
    (σ.holds (.worker w)).map fun _ => σ.put (.worker w) none (σ.store.update (Row.markComplete σ.now))
  | .workerFail w msg =>
    (σ.holds (.worker w)).map fun h =>
      σ.put (.worker w) none (σ.store.reportFailure σ.now h.attempts h.maxRetries msg)
  | .workerMissing w msg =>
    (σ.holds (.worker w)).map fun h =>
      σ.put (.worker w) none
        (if h.maxRetries ≤ h.attempts then σ.store.moveToDLQ σ.now msg else σ.store.update (Row.noteError σ.now msg))
  | .podClaim p jobNames budget =>
    σ.claimBy (.pod p) jobNames (cfg.placeholder p) budget .dispatched (cfg.podID p) .claimed
  | .podRelease p reason =>
    (σ.holds (.pod p)).bind fun h =>
      if h.phase = .claimed then some (σ.releaseBy (.pod p) none (cfg.placeholder p) reason) else none
  | .podReject p s =>
    (σ.holds (.pod p)).bind fun h =>
      if h.phase = .claimed then some (σ.releaseBy (.pod p) none (cfg.claimedBy s) "authz_rejected") else none
  | .podBind p s =>
    (σ.holds (.pod p)).bind fun h =>
      if h.phase = .claimed then
        some (σ.put (.pod p) (some { h with phase := .bound s })
          (σ.store.update (Row.bindClaimToSession (cfg.claimedBy s) (cfg.sessionID s))))
      else none
  | .podExtend p s perJob =>
    (σ.holds (.pod p)).bind fun h =>
      if h.phase = .bound s then some (σ.extendBy (.pod p) h (cfg.claimedBy s) perJob) else none
  | .podDispatch p s =>
    (σ.holds (.pod p)).bind fun h =>
      if h.phase = .bound s then
        some { (σ.put (.pod p) none σ.store).put (.session s) (some { h with phase := .inflight }) σ.store with
          sent := σ.sent + 1 }
      else none
  | .podOutboxFull p s =>
    (σ.holds (.pod p)).bind fun h =>
      if h.phase = .bound s then some (σ.releaseBy (.pod p) none (cfg.claimedBy s) "outbox_full") else none
  | .sessionExtend s dur =>
    (σ.holds (.session s)).bind fun h =>
      if h.phase = .inflight then some (σ.extendBy (.session s) h (cfg.claimedBy s) dur) else none
  | .sessionComplete s =>
    (σ.holds (.session s)).bind fun h =>
      if h.phase = .inflight then
        some (σ.put (.session s) none (σ.store.update (Row.markComplete σ.now)))
      else none
  | .sessionFail s retry read =>
    (σ.holds (.session s)).bind fun h =>
      if h.phase = .inflight then
        let found := ((if read then σ.store.lookupAttempts else none).getD (1, 0))
        some (σ.put (.session s) (some { h with phase := .reporting found.1 found.2 retry }) σ.store)
      else none
  | .sessionRevoke s reason read =>
    (σ.holds (.session s)).bind fun h =>
      if h.phase = .inflight then
        match (if read then σ.store.lookupAttempts else none) with
        | some found => some (σ.put (.session s) (some { h with phase := .reporting found.1 found.2 true }) σ.store)
        | none => some (σ.releaseBy (.session s) none (cfg.claimedBy s) reason)
      else none
  | .sessionReport s msg =>
    (σ.holds (.session s)).bind fun h =>
      match h.phase with
      | .reporting attempts maxRetries retry =>
        some (σ.put (.session s) none
          (if retry then σ.store.reportFailure σ.now attempts maxRetries msg else σ.store.moveToDLQ σ.now msg))
      | _ => none
  | .sessionAckTimeout s =>
    (σ.holds (.session s)).bind fun h =>
      if h.phase = .inflight then some (σ.releaseBy (.session s) none (cfg.claimedBy s) "ack_timeout") else none
  | .sessionRelease s reason =>
    (σ.holds (.session s)).bind fun h =>
      if h.phase = .inflight then
        some (σ.releaseBy (.session s) (some { h with lease := none }) (cfg.claimedBy s) reason)
      else none
  | .crash p => (σ.holds p).map fun _ => σ.put p none σ.store
  | .sweep => σ.store.live.map fun r => { σ with store := σ.store.sweepExhausted σ.now r.queue }

/-- A row as `SubmitJob` and the other enqueuers insert it, and nobody who has seen it. -/
def Enqueued (σ : Sys) : Prop :=
  (∃ r, σ.store = { live := some r } ∧ r.status = .pending ∧ r.attempts = 0 ∧ r.claimedBy = none ∧
    r.claimedUntil = none) ∧ (∀ p, σ.holds p = none) ∧ σ.sent = 0

end Sys

/-- The system, from the moment the row is enqueued. -/
def jobMachine (cfg : Config) : Machine Sys Act := ⟨Sys.Enqueued, Sys.step cfg⟩

/-! ## What a step can do to the row -/

/-- The steps that claim. -/
def Act.claims : Act → Bool
  | .workerClaim .. | .podClaim .. => true
  | _ => false

/-- What one statement can make of the row, apart from removing it. -/
inductive Written (now : Int) (claims : Bool) (r : Row) : Row → Prop where
  | same : Written now claims r r
  | claim (hclaims : claims = true) (jobNames : List String) (claimedBy : String) (leaseUntil : Int)
      (kind : WorkerKind) (sessionID : String) (h : r.Claimable now r.queue jobNames) :
      Written now claims r (r.claim now claimedBy leaseUntil kind sessionID)
  | extend (claimedBy : String) (ext : Int) : Written now claims r (r.extendLease now claimedBy ext)
  | complete : Written now claims r (r.markComplete now)
  | pending (lastError : String) : Written now claims r (r.backToPending now lastError)
  | note (lastError : String) : Written now claims r (r.noteError now lastError)
  | bind (claimedBy sessionID : String) : Written now claims r (r.bindClaimToSession claimedBy sessionID)

/-- Only a claim counts up. -/
theorem Written.attempts {now : Int} {r r' : Row} (h : Written now false r r') :
    r'.attempts = r.attempts ∧ r'.maxRetries = r.maxRetries := by
  cases h with
  | claim hclaims => cases hclaims
  | extend claimedBy ext =>
    unfold Row.extendLease
    split <;> exact ⟨rfl, rfl⟩
  | same | complete | pending | note | bind => exact ⟨rfl, rfl⟩

theorem Written.release (now : Int) (claims : Bool) (r : Row) (claimedBy reason : String) :
    Written now claims r (r.releaseRow now claimedBy reason) := by
  unfold Row.releaseRow
  split
  · exact .pending _
  · exact .same

/-- What is in `atlantis.jobs` after a step was there before, and was written by one statement. -/
def Store.Leads (now : Int) (claims : Bool) (s t : Store) : Prop :=
  ∀ r', t.live = some r' → ∃ r, s.live = some r ∧ Written now claims r r'

namespace Store

variable {now : Int} {claims : Bool} {s : Store}

theorem leads_self (s : Store) : s.Leads now claims s := fun r' h => ⟨r', h, .same⟩

theorem leads_update {f : Row → Row} (hf : ∀ r, s.live = some r → Written now claims r (f r)) : s.Leads now claims (s.update f) := by
  intro r' h
  obtain ⟨r, hr, rfl⟩ := Option.map_eq_some_iff.mp h
  exact ⟨r, hr, hf r hr⟩

theorem live_update {f : Row → Row} {r : Row} (hr : s.live = some r) : (s.update f).live = some (f r) := by
  show s.live.map f = _
  rw [hr]
  rfl

/-- A statement that leaves the row alone. -/
theorem live_update_same {f : Row → Row} (hf : ∀ r, s.live = some r → f r = r) : (s.update f).live = s.live := by
  show s.live.map f = s.live
  cases hr : s.live with
  | none => rfl
  | some r => rw [Option.map_some, hf r hr]

theorem live_moveToDLQ (msg : String) : (s.moveToDLQ now msg).live = none := by
  unfold moveToDLQ
  cases h : s.live with
  | none => exact h
  | some r => rfl

theorem leads_moveToDLQ (msg : String) : s.Leads now claims (s.moveToDLQ now msg) := by
  intro r' h
  rw [live_moveToDLQ] at h
  cases h

theorem leads_reportFailure (attempts : Nat) (maxRetries : Int) (msg : String) :
    s.Leads now claims (s.reportFailure now attempts maxRetries msg) := by
  unfold reportFailure
  split
  · exact leads_moveToDLQ msg
  · exact leads_update fun r _ => .pending msg

theorem leads_sweepExhausted (queue : String) : s.Leads now claims (s.sweepExhausted now queue) := by
  unfold sweepExhausted
  split
  · split
    · exact leads_moveToDLQ _
    · exact leads_self s
  · exact leads_self s

end Store

namespace Sys

variable {cfg : Config} {σ τ : Sys}

variable {p : Proc} {jobNames : List String} {claimedBy sessionID : String} {budget s : Nat} {kind : WorkerKind}
  {phase : Phase} {f : Hold → Sys}

theorem claimBy_eq_some (h : σ.claimBy p jobNames claimedBy budget kind sessionID phase = some τ) :
    ∃ r, σ.store.live = some r ∧ σ.holds p = none ∧ r.Claimable σ.now r.queue jobNames ∧
      τ = σ.put p
        (some { attempts := r.attempts + 1, maxRetries := r.maxRetries, phase, lease := some (σ.now + budget) })
        (σ.store.update (Row.claim σ.now claimedBy (σ.now + budget) kind sessionID)) := by
  unfold claimBy at h
  cases hr : σ.store.live with
  | none =>
    rw [hr] at h
    cases h
  | some r =>
    simp only [hr] at h
    split at h
    · rename_i hguard
      exact ⟨r, rfl, hguard.1, hguard.2, (Option.some.inj h).symm⟩
    · cases h

/-- A step guarded by the phase of a hold. -/
theorem bind_phase (h : ((σ.holds p).bind fun x => if x.phase = phase then some (f x) else none) = some τ) :
    ∃ x, σ.holds p = some x ∧ x.phase = phase ∧ τ = f x := by
  obtain ⟨x, hx, h⟩ := Option.bind_eq_some_iff.mp h
  split at h
  · rename_i hphase
    exact ⟨x, hx, hphase, (Option.some.inj h).symm⟩
  · cases h

theorem map_hold (h : (σ.holds p).map f = some τ) : ∃ x, σ.holds p = some x ∧ τ = f x := by
  obtain ⟨x, hx, rfl⟩ := Option.map_eq_some_iff.mp h
  exact ⟨x, hx, rfl⟩

theorem step_sessionRevoke {reason : String} {read : Bool} (h : σ.step cfg (.sessionRevoke s reason read) = some τ) :
    ∃ x, σ.holds (.session s) = some x ∧ x.phase = .inflight ∧
      ((∃ found, (if read then σ.store.lookupAttempts else none) = some found ∧
          τ = σ.put (.session s) (some { x with phase := .reporting found.1 found.2 true }) σ.store) ∨
        ((if read then σ.store.lookupAttempts else none) = none ∧
          τ = σ.releaseBy (.session s) none (cfg.claimedBy s) reason)) := by
  obtain ⟨x, hx, h⟩ := Option.bind_eq_some_iff.mp h
  split at h
  case isFalse => cases h
  case isTrue hphase =>
    refine ⟨x, hx, hphase, ?_⟩
    cases hread : (if read then σ.store.lookupAttempts else none) with
    | some found =>
      simp only [hread] at h
      exact .inl ⟨found, rfl, (Option.some.inj h).symm⟩
    | none =>
      simp only [hread] at h
      exact .inr ⟨rfl, (Option.some.inj h).symm⟩

theorem step_sessionReport {msg : String} (h : σ.step cfg (.sessionReport s msg) = some τ) :
    ∃ x attempts maxRetries retry, σ.holds (.session s) = some x ∧ x.phase = .reporting attempts maxRetries retry ∧
      τ = σ.put (.session s) none
        (if retry then σ.store.reportFailure σ.now attempts maxRetries msg else σ.store.moveToDLQ σ.now msg) := by
  obtain ⟨x, hx, h⟩ := Option.bind_eq_some_iff.mp h
  cases hphase : x.phase with
  | reporting attempts maxRetries retry =>
    simp only [hphase] at h
    exact ⟨x, attempts, maxRetries, retry, hx, hphase, (Option.some.inj h).symm⟩
  | handling => simp [hphase] at h
  | claimed => simp [hphase] at h
  | bound s => simp [hphase] at h
  | inflight => simp [hphase] at h

theorem leads_releaseBy (claims : Bool) (p : Proc) (after : Option Hold) (name reason : String) :
    σ.store.Leads σ.now claims (σ.releaseBy p after name reason).store :=
  Store.leads_update fun r _ => .release σ.now claims r name reason

/-- **A step removes the row, or writes it by one statement.** -/
theorem step_leads {a : Act} (h : σ.step cfg a = some τ) :
    σ.store.Leads σ.now a.claims τ.store := by
  cases a with
  | tick d =>
    cases h
    exact Store.leads_self σ.store
  | workerClaim | podClaim =>
    obtain ⟨r, hr, -, hclaim, rfl⟩ := claimBy_eq_some h
    refine Store.leads_update fun r' hr' => ?_
    obtain rfl : r = r' := Option.some.inj (hr.symm.trans hr')
    exact .claim rfl _ _ _ _ _ hclaim
  | workerExtend w budget =>
    obtain ⟨x, -, rfl⟩ := map_hold h
    exact Store.leads_update fun r _ => .extend _ _
  | workerComplete w =>
    obtain ⟨x, -, rfl⟩ := map_hold h
    exact Store.leads_update fun r _ => .complete
  | workerFail w msg =>
    obtain ⟨x, -, rfl⟩ := map_hold h
    exact Store.leads_reportFailure _ _ msg
  | workerMissing w msg =>
    obtain ⟨x, -, rfl⟩ := map_hold h
    show σ.store.Leads σ.now _ (if _ then _ else _)
    split
    · exact Store.leads_moveToDLQ msg
    · exact Store.leads_update fun r _ => .note msg
  | podRelease | podReject | podOutboxFull | sessionAckTimeout | sessionRelease =>
    obtain ⟨x, -, -, rfl⟩ := bind_phase h
    exact leads_releaseBy _ _ _ _ _
  | podBind p s =>
    obtain ⟨x, -, -, rfl⟩ := bind_phase h
    exact Store.leads_update fun r _ => .bind _ _
  | podExtend | sessionExtend =>
    obtain ⟨x, -, -, rfl⟩ := bind_phase h
    exact Store.leads_update fun r _ => .extend _ _
  | podDispatch | sessionFail =>
    obtain ⟨x, -, -, rfl⟩ := bind_phase h
    exact Store.leads_self σ.store
  | sessionComplete s =>
    obtain ⟨x, -, -, rfl⟩ := bind_phase h
    exact Store.leads_update fun r _ => .complete
  | sessionRevoke s reason read =>
    obtain ⟨x, -, -, h⟩ := step_sessionRevoke h
    rcases h with ⟨found, -, rfl⟩ | ⟨-, rfl⟩
    · exact Store.leads_self σ.store
    · exact leads_releaseBy _ _ _ _ _
  | sessionReport s msg =>
    obtain ⟨x, attempts, maxRetries, retry, -, -, rfl⟩ := step_sessionReport h
    show σ.store.Leads σ.now _ (if _ then _ else _)
    split
    · exact Store.leads_reportFailure _ _ msg
    · exact Store.leads_moveToDLQ msg
  | crash p =>
    obtain ⟨x, -, rfl⟩ := map_hold h
    exact Store.leads_self σ.store
  | sweep =>
    obtain ⟨r', -, rfl⟩ := Option.map_eq_some_iff.mp h
    exact Store.leads_sweepExhausted _

end Sys

end Atlantis.Jobs
