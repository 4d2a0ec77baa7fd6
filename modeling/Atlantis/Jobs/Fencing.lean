import Mathlib.Algebra.Ring.Nat
import Atlantis.Jobs.System

/-!
# `Jobs.Fencing` — whose run a write ends

A write of a claimant is *fenced* if it changes the row only while the row is running and claimed by that claimant.
`extendLease` and `releaseRow` look at `claimed_by`; completing, failing, moving to the dead-letter table, noting an
error and binding to a session do not. So a claimant whose lease ran out and was taken over ends the run of the one
who took over (`late_complete_ends_other_run`).

What the lease does guarantee is the converse reading: **as long as nobody writes on a lease of its own that has run
out, every write is fenced** (`fenced_of_clear`). The argument is the usual one for leases. Call a process *live*
while the deadline it last wrote has not passed. A live process finds the row running, under its name and leased for
at least as long (`Leased.owns`), because a claim only takes rows whose lease is over; hence at most one process is
live (`Leased.single`), and a row with a claimant is running (`Leased.running`).
-/

namespace Atlantis.Jobs

open Lib

/-- The name a process holds the row under. -/
def Config.holderName (cfg : Config) : Proc → Phase → String
  | .worker w, _ => cfg.workerPodID w
  | .pod _, .bound s => cfg.claimedBy s
  | .pod p, _ => cfg.placeholder p
  | .session s, _ => cfg.claimedBy s

/-- The claimant a step writes for. -/
def Act.writer (cfg : Config) : Act → Option String
  | .workerExtend w _ | .workerComplete w | .workerFail w _ | .workerMissing w _ => some (cfg.workerPodID w)
  | .podRelease p _ | .podBind p _ => some (cfg.placeholder p)
  | .podReject _ s | .podExtend _ s _ | .podOutboxFull _ s => some (cfg.claimedBy s)
  | .sessionExtend s _ | .sessionComplete s | .sessionRevoke s _ _ | .sessionReport s _ | .sessionAckTimeout s
  | .sessionRelease s _ => some (cfg.claimedBy s)
  | _ => none

/-- The process that takes the step. -/
def Act.actor : Act → Option Proc
  | .workerClaim w _ | .workerExtend w _ | .workerComplete w | .workerFail w _ | .workerMissing w _ => some (.worker w)
  | .podClaim p _ _ | .podRelease p _ | .podReject p _ | .podBind p _ | .podExtend p _ _ | .podDispatch p _
  | .podOutboxFull p _ => some (.pod p)
  | .sessionExtend s _ | .sessionComplete s | .sessionFail s _ _ | .sessionRevoke s _ _ | .sessionReport s _
  | .sessionAckTimeout s | .sessionRelease s _ => some (.session s)
  | .crash p => some p
  | .tick _ | .sweep => none

/-- Steps whose statement looks at `claimed_by`. -/
def Act.guarded : Act → Bool
  | .workerExtend .. | .podRelease .. | .podReject .. | .podExtend .. | .podOutboxFull .. | .sessionExtend ..
  | .sessionRevoke .. | .sessionAckTimeout .. | .sessionRelease .. => true
  | _ => false

namespace Sys

variable (cfg : Config) (σ : Sys)

/-- `p` holds the row under `name` on a lease that runs until `u`. -/
def HoldsAs (p : Proc) (name : String) (u : Int) : Prop :=
  ∃ h, σ.holds p = some h ∧ cfg.holderName p h.phase = name ∧ h.lease = some u ∧ σ.now ≤ u

/-- The lease `p` last wrote has not run out. -/
def LeaseRuns (p : Proc) : Prop := ∃ name u, σ.HoldsAs cfg p name u

/-- Whoever writes does so on a lease that runs; a statement that looks at `claimed_by` may also be late, as long as
    its name is not that of a lease that runs. -/
def Clear (a : Act) : Prop :=
  ∀ p c, a.actor = some p → a.writer cfg = some c →
    σ.LeaseRuns cfg p ∨ (a.guarded = true ∧ ∀ q name u, σ.HoldsAs cfg q name u → name ≠ c)

/-- **A fenced step**: if it writes for `c` and changes the row, the row was running and claimed by `c`. -/
def Fenced (a : Act) (τ : Sys) : Prop :=
  ∀ c, a.writer cfg = some c → τ.store.live ≠ σ.store.live →
    ∃ r, σ.store.live = some r ∧ r.status = .running ∧ r.claimedBy = some c

/-- The row is running and claimed by `c`. -/
def ClaimedAs (c : String) : Prop := ∃ r, σ.store.live = some r ∧ r.status = .running ∧ r.claimedBy = some c

/-- Nobody holds the row as `c` on a lease that runs. -/
def NobodyAs (c : String) : Prop := ∀ q name u, σ.HoldsAs cfg q name u → name ≠ c

/-- What leases give. -/
structure Leased : Prop where
  owns : ∀ {p name u}, σ.HoldsAs cfg p name u → ∃ r v, σ.store.live = some r ∧ r.status = .running ∧
    r.claimedBy = some name ∧ r.claimedUntil = some v ∧ u ≤ v
  single : ∀ {p name u q name' u'}, σ.HoldsAs cfg p name u → σ.HoldsAs cfg q name' u' → p = q
  running : ∀ r c, σ.store.live = some r → r.claimedBy = some c → r.status = .running

/-- What a write for `c` leaves: leases give what they gave, and the row has changed only if it was `c`'s. -/
def LeasedFor (c : String) (τ : Sys) : Prop := τ.Leased cfg ∧ (τ.store.live ≠ σ.store.live → σ.ClaimedAs c)

variable {cfg σ} {τ : Sys}

/-! ## Keeping `Leased` -/

variable {p : Proc} {x : Hold} {store : Store} {name c msg : String} {u : Int} {s : Nat}

/-- Nobody is live. -/
theorem leased_of_none (hnone : ∀ p name u, ¬ τ.HoldsAs cfg p name u)
    (hrun : ∀ r c, τ.store.live = some r → r.claimedBy = some c → r.status = .running) : τ.Leased cfg where
  owns h := absurd h (hnone _ _ _)
  single h _ := absurd h (hnone _ _ _)
  running := hrun

/-- The row is as it was, and whoever is live was. -/
theorem Leased.of_same (h : σ.Leased cfg) (hlive : τ.store.live = σ.store.live)
    (hsub : ∀ {p name u}, τ.HoldsAs cfg p name u → σ.HoldsAs cfg p name u) : τ.Leased cfg where
  owns hp := by
    rw [hlive]
    exact h.owns (hsub hp)
  single hp hq := h.single (hsub hp) (hsub hq)
  running r c hr := h.running r c (hlive ▸ hr)

/-- Who is live after `p` has changed what it remembers. -/
theorem holdsAs_put {q : Proc} {x : Option Hold} : (σ.put p x store).HoldsAs cfg q name u ↔
    (q = p ∧ ∃ y, x = some y ∧ cfg.holderName p y.phase = name ∧ y.lease = some u ∧ σ.now ≤ u) ∨
      (q ≠ p ∧ σ.HoldsAs cfg q name u) := by
  unfold HoldsAs
  rw [put_holds]
  by_cases hqp : q = p
  · subst hqp
    simp [put]
  · simp [hqp, put]

/-- After `p` has put down the row, who is live was so before and is not `p`. -/
theorem HoldsAs.of_put {q : Proc} {x : Option Hold} (hx : ∀ y, x = some y → y.lease = none)
    (h : (σ.put p x store).HoldsAs cfg q name u) : q ≠ p ∧ σ.HoldsAs cfg q name u := by
  rcases holdsAs_put.mp h with ⟨-, y, hy, -, hlease, -⟩ | h
  · rw [hx y hy] at hlease
    cases hlease
  · exact h

/-- When a live process puts down the row, nobody is live. -/
theorem Leased.none_after_put (h : σ.Leased cfg) (hp : σ.LeaseRuns cfg p) {x : Option Hold}
    (hx : ∀ y, x = some y → y.lease = none) (q : Proc) (name : String) (u : Int) :
    ¬ (σ.put p x store).HoldsAs cfg q name u := by
  intro hq
  obtain ⟨hne, hq⟩ := hq.of_put hx
  obtain ⟨name', u', hp⟩ := hp
  exact hne (h.single hq hp)

/-- A live process finds the row running and under its name. -/
theorem Leased.row_of_live (h : σ.Leased cfg) (hp : σ.LeaseRuns cfg p) (hx : σ.holds p = some x) :
    σ.ClaimedAs (cfg.holderName p x.phase) := by
  obtain ⟨name, u, hp⟩ := hp
  obtain ⟨r, v, hr, hrun, hby, -, -⟩ := h.owns hp
  obtain ⟨y, hy, rfl, -, -⟩ := hp
  obtain rfl : x = y := Option.some.inj (hx.symm.trans hy)
  exact ⟨r, hr, hrun, hby⟩

/-- A statement without a guard, by a live process that puts the row down. -/
theorem Leased.unguarded (h : σ.Leased cfg) (hp : σ.LeaseRuns cfg p) (hx : σ.holds p = some x)
    (hstore : ∀ r c, store.live = some r → r.claimedBy = some c → r.status = .running) :
    σ.LeasedFor cfg (cfg.holderName p x.phase) (σ.put p none store) :=
  ⟨leased_of_none (h.none_after_put hp nofun) hstore, fun _ => h.row_of_live hp hx⟩

/-- Whoever is live has the row under its name. -/
theorem Leased.name_of_live (h : σ.Leased cfg) {r : Row} {q : Proc} (hr : σ.store.live = some r)
    (hby : r.claimedBy = some c) (hq : σ.HoldsAs cfg q name u) : name = c := by
  obtain ⟨r', v, hr', -, hby', -, -⟩ := h.owns hq
  obtain rfl : r = r' := Option.some.inj (hr.symm.trans hr')
  exact Option.some.inj (hby'.symm.trans hby)

/-- `ReleaseRow`, by a live process or under a name nobody live has. -/
theorem Leased.releaseBy (h : σ.Leased cfg) {reason : String} {after : Option Hold}
    (hafter : ∀ y, after = some y → y.lease = none) (hclear : σ.LeaseRuns cfg p ∨ σ.NobodyAs cfg c) :
    σ.LeasedFor cfg c (σ.releaseBy p after c reason) := by
  by_cases hguard : ∃ r, σ.store.live = some r ∧ r.claimedBy = some c
  · obtain ⟨r, hr, hby⟩ := hguard
    refine ⟨leased_of_none ?_ ?_, fun _ => ⟨r, hr, h.running r c hr hby, hby⟩⟩
    · intro q name u hq
      rcases hclear with hp | hfree
      · exact h.none_after_put hp hafter q name u hq
      · obtain ⟨-, hold⟩ := HoldsAs.of_put hafter hq
        exact hfree q name u hold (h.name_of_live hr hby hold)
    · intro r' c' hr' hby'
      cases (Store.live_update hr).symm.trans hr'
      unfold Row.releaseRow at hby'
      rw [if_pos hby] at hby'
      cases hby'
  · have hsame : (σ.releaseBy p after c reason).store.live = σ.store.live :=
      Store.live_update_same fun r hr => Row.releaseRow_of_ne fun hby => hguard ⟨r, hr, hby⟩
    exact ⟨h.of_same hsame fun hq => (HoldsAs.of_put hafter hq).2, fun hne => absurd hsame hne⟩

/-- A process that keeps its name and its lease is live if it was. -/
theorem HoldsAs.of_put_same {q : Proc} {y : Hold} (h : (σ.put p (some y) store).HoldsAs cfg q name u)
    (hx : σ.holds p = some x) (hname : cfg.holderName p y.phase = cfg.holderName p x.phase) (hlease : y.lease = x.lease) :
    σ.HoldsAs cfg q name u := by
  rcases holdsAs_put.mp h with ⟨rfl, _, ⟨⟩, hn, hl, hnow⟩ | ⟨-, h⟩
  · exact ⟨x, hx, hname.symm.trans hn, hlease.symm.trans hl, hnow⟩
  · exact h

/-- A process writes its lease into the row, and nobody else is live. -/
theorem leased_of_put {r : Row} {v : Int} (hlive : store.live = some r) (hrun : r.status = .running)
    (hby : r.claimedBy = some (cfg.holderName p x.phase)) (hlease : x.lease = some u) (hv : r.claimedUntil = some v)
    (huv : u ≤ v) (honly : ∀ q name u, σ.HoldsAs cfg q name u → q = p) : (σ.put p (some x) store).Leased cfg := by
  have hput : ∀ q name u', (σ.put p (some x) store).HoldsAs cfg q name u' →
      q = p ∧ name = cfg.holderName p x.phase ∧ u' = u := by
    intro q name u' hq
    rcases holdsAs_put.mp hq with ⟨rfl, _, ⟨⟩, hn, hl, -⟩ | ⟨hqp, hq⟩
    · exact ⟨rfl, hn.symm, Option.some.inj (hl.symm.trans hlease)⟩
    · exact absurd (honly q name u' hq) hqp
  refine ⟨?_, ?_, ?_⟩
  · intro q name u' hq
    obtain ⟨-, rfl, rfl⟩ := hput q name u' hq
    exact ⟨r, v, hlive, hrun, hby, hv, huv⟩
  · intro q name u' q' name' u'' hq hq'
    rw [(hput q name u' hq).1, (hput q' name' u'' hq').1]
  · intro r' c hr' _
    obtain rfl : r = r' := Option.some.inj (hlive.symm.trans hr')
    exact hrun

section

variable (h : σ.Leased cfg)

include h

/-- `ExtendLease`, by a live process or under a name nobody live has. -/
theorem Leased.extendBy {dur : Nat} (hx : σ.holds p = some x) (hname : cfg.holderName p x.phase = c)
    (hclear : σ.LeaseRuns cfg p ∨ σ.NobodyAs cfg c) : σ.LeasedFor cfg c (σ.extendBy p x c dur) := by
  by_cases hguard : ∃ r, σ.store.live = some r ∧ r.claimedBy = some c
  · obtain ⟨r, hr, hby⟩ := hguard
    have hrun : r.status = .running := h.running r c hr hby
    have hnew : (σ.store.update (Row.extendLease σ.now c dur)).live
        = some { r with claimedUntil := some (σ.now + dur) } := by
      rw [Store.live_update hr]
      unfold Row.extendLease
      rw [if_pos hby]
    refine ⟨leased_of_put hnew hrun ?_ (if_pos ?_) rfl le_rfl ?_, fun _ => ⟨r, hr, hrun, hby⟩⟩
    · rw [hname]
      exact hby
    · rw [hr]
      simp [hby]
    · -- the one who extends is the only one live
      intro q name u hq
      rcases hclear with ⟨name', u', hp⟩ | hfree
      · exact h.single hq hp
      · exact absurd (h.name_of_live hr hby hq) (hfree q name u hq)
  · have hsame : (σ.extendBy p x c dur).store.live = σ.store.live :=
      Store.live_update_same fun r hr => Row.extendLease_of_ne fun hby => hguard ⟨r, hr, hby⟩
    have hlease : (if σ.store.live.any (·.claimedBy = some c) then some (σ.now + (dur : Int)) else x.lease)
        = x.lease := by
      rw [if_neg]
      intro hany
      cases hr : σ.store.live with
      | none =>
        rw [hr] at hany
        cases hany
      | some r =>
        rw [hr] at hany
        exact hguard ⟨r, hr, of_decide_eq_true hany⟩
    exact ⟨h.of_same hsame fun hq => hq.of_put_same hx rfl hlease, fun hne => absurd hsame hne⟩

theorem Leased.claimBy {jobNames : List String} {claimedBy sessionID : String} {budget : Nat} {kind : WorkerKind}
    {phase : Phase} (hname : cfg.holderName p phase = claimedBy)
    (hstep : σ.claimBy p jobNames claimedBy budget kind sessionID phase = some τ) : τ.Leased cfg := by
  obtain ⟨r, hr, -, hclaim, rfl⟩ := claimBy_eq_some hstep
  refine leased_of_put (Store.live_update hr) rfl (congrArg some hname.symm) rfl rfl le_rfl ?_
  intro q name u hq
  -- a claim finds nobody live
  obtain ⟨r', v, hr', hrun, -, hv, huv⟩ := h.owns hq
  obtain rfl : r = r' := Option.some.inj (hr.symm.trans hr')
  obtain ⟨_, _, _, _, hnow⟩ := hq
  obtain ⟨-, -, -, hstatus, -⟩ := hclaim
  rcases hstatus with hpending | ⟨-, hfree⟩
  · rw [hrun] at hpending
    cases hpending
  · exact absurd hfree (Row.not_leaseFree hv (le_trans hnow huv))

/-- `bindClaimToSession`, by a live pod: the row changes its name together with the pod's hold. -/
theorem Leased.bind {p : Nat} (hx : σ.holds (.pod p) = some x) (hp : σ.LeaseRuns cfg (.pod p)) :
    σ.LeasedFor cfg (cfg.holderName (.pod p) x.phase) (σ.put (.pod p) (some { x with phase := .bound s })
      (σ.store.update (Row.bindClaimToSession (cfg.claimedBy s) (cfg.sessionID s)))) := by
  refine ⟨?_, fun _ => h.row_of_live hp hx⟩
  obtain ⟨name₀, u₀, hp⟩ := hp
  obtain ⟨r, v, hr, hrun, -, hv, huv⟩ := h.owns hp
  have hx' := hp
  obtain ⟨y, hy, -, hlease, -⟩ := hx'
  obtain rfl : x = y := Option.some.inj (hx.symm.trans hy)
  refine leased_of_put (Store.live_update hr) hrun rfl hlease hv huv ?_
  intro q name u hq
  exact h.single hq hp

/-- `recordDispatch`: the lease passes from the pod to the session. -/
theorem Leased.dispatch {p : Nat} (hx : σ.holds (.pod p) = some x) (hphase : x.phase = .bound s) {n : Nat} :
    Leased cfg { (σ.put (.pod p) none σ.store).put (.session s) (some { x with phase := .inflight }) σ.store with
      sent := n } := by
  have hfrom : ∀ q name u, ((σ.put (.pod p) none σ.store).put (.session s) (some { x with phase := .inflight })
        σ.store).HoldsAs cfg q name u →
      (q = .session s ∧ σ.HoldsAs cfg (.pod p) name u) ∨ (q ≠ .pod p ∧ σ.HoldsAs cfg q name u) := by
    intro q name u hq
    rcases holdsAs_put.mp hq with ⟨rfl, _, ⟨⟩, hname, hlease, hnow⟩ | ⟨-, hq⟩
    · refine .inl ⟨rfl, x, hx, ?_, hlease, hnow⟩
      rw [hphase]
      exact hname
    · exact .inr (HoldsAs.of_put (x := none) nofun hq)
  refine ⟨?_, ?_, h.running⟩
  · intro q name u hq
    rcases hfrom q name u hq with ⟨-, hq⟩ | ⟨-, hq⟩ <;> exact h.owns hq
  · intro q name u q' name' u' hq hq'
    rcases hfrom q name u hq with ⟨rfl, hold⟩ | ⟨hne, hold⟩ <;>
      rcases hfrom q' name' u' hq' with ⟨rfl, hold'⟩ | ⟨hne', hold'⟩
    · rfl
    · exact absurd (h.single hold' hold) hne'
    · exact absurd (h.single hold hold') hne
    · exact h.single hold hold'

/-- A session moves on with a row in its hands. -/
theorem Leased.rephase (hx : σ.holds (.session s) = some x) (phase : Phase) :
    (σ.put (.session s) (some { x with phase }) σ.store).Leased cfg :=
  h.of_same rfl fun hq => hq.of_put_same hx rfl rfl

/-- The sweeper takes no row from a live process. -/
theorem Leased.sweep {r : Row} (hr : σ.store.live = some r) :
    Leased cfg { σ with store := σ.store.sweepExhausted σ.now r.queue } := by
  by_cases hsweep : r.Sweepable σ.now r.queue
  · have hgone : (σ.store.sweepExhausted σ.now r.queue).live = none := by
      unfold Store.sweepExhausted
      rw [hr]
      simp only
      rw [if_pos hsweep]
      exact Store.live_moveToDLQ _
    refine leased_of_none ?_ ?_
    · intro q name u hq
      obtain ⟨r', v, hr', hrun, -, hv, huv⟩ := h.owns hq
      obtain rfl : r = r' := Option.some.inj (hr.symm.trans hr')
      obtain ⟨_, _, _, _, hnow⟩ := hq
      replace hnow : σ.now ≤ u := hnow
      obtain ⟨-, -, hpending | ⟨-, w, hw, hpast⟩⟩ := hsweep
      · rw [hrun] at hpending
        cases hpending
      · obtain rfl : v = w := Option.some.inj (hv.symm.trans hw)
        unfold sweepGrace at hpast
        omega
    · intro r' c hr' _
      rw [show (Sys.store _).live = _ from hgone] at hr'
      cases hr'
  · have hsame : σ.store.sweepExhausted σ.now r.queue = σ.store := by
      unfold Store.sweepExhausted
      rw [hr]
      simp only
      rw [if_neg hsweep]
    refine h.of_same ?_ fun hq => hq
    show (σ.store.sweepExhausted σ.now r.queue).live = _
    rw [hsame]

end

/-! ## Statements without a guard leave no claimant that is not running -/

theorem running_update {f : Row → Row} (hf : ∀ r, (f r).claimedBy = none) (r : Row) (c : String)
    (hr : (σ.store.update f).live = some r) (hby : r.claimedBy = some c) : r.status = .running := by
  obtain ⟨r₀, -, rfl⟩ := Option.map_eq_some_iff.mp hr
  rw [hf r₀] at hby
  cases hby

theorem running_moveToDLQ (r : Row) (c : String) (hr : (σ.store.moveToDLQ σ.now msg).live = some r)
    (_ : r.claimedBy = some c) : r.status = .running := by
  rw [Store.live_moveToDLQ] at hr
  cases hr

theorem running_reportFailure {attempts : Nat} {maxRetries : Int} (r : Row) (c : String)
    (hr : (σ.store.reportFailure σ.now attempts maxRetries msg).live = some r) (hby : r.claimedBy = some c) :
    r.status = .running := by
  unfold Store.reportFailure at hr
  split at hr
  · exact running_moveToDLQ r c hr hby
  · exact running_update (fun _ => rfl) r c hr hby

/-! ## The step -/

/-- **One clear step** is fenced and keeps what leases give. -/
theorem Leased.step {a : Act} (h : σ.Leased cfg) (hclear : σ.Clear cfg a) (hstep : σ.step cfg a = some τ) :
    τ.Leased cfg ∧ σ.Fenced cfg a τ := by
  -- for the guarded statements `Clear` is what their lemmas ask for
  have hguard : ∀ p c, a.actor = some p → a.writer cfg = some c → σ.LeaseRuns cfg p ∨ σ.NobodyAs cfg c := by
    intro p c hp hc
    rcases hclear p c hp hc with hruns | ⟨-, hfree⟩
    · exact .inl hruns
    · exact .inr hfree
  have hlive : ∀ p c, a.actor = some p → a.writer cfg = some c → a.guarded = false → σ.LeaseRuns cfg p := by
    intro p c hp hc hno
    rcases hclear p c hp hc with hruns | ⟨hyes, -⟩
    · exact hruns
    · rw [hno] at hyes
      cases hyes
  -- a step that writes for nobody is fenced
  have hsilent : a.writer cfg = none → σ.Fenced cfg a τ := by
    intro hnone c hc
    rw [hnone] at hc
    cases hc
  have hfor : ∀ c, a.writer cfg = some c → σ.LeasedFor cfg c τ → τ.Leased cfg ∧ σ.Fenced cfg a τ := by
    rintro c hc ⟨hleased, hrow⟩
    refine ⟨hleased, fun c' hc' => ?_⟩
    obtain rfl : c = c' := Option.some.inj (hc.symm.trans hc')
    exact hrow
  cases a with
  | tick d =>
    cases hstep
    refine ⟨h.of_same rfl ?_, hsilent rfl⟩
    rintro p name u ⟨x, hx, hname, hlease, hnow⟩
    replace hnow : σ.now + (d : Int) ≤ u := hnow
    exact ⟨x, hx, hname, hlease, by omega⟩
  | workerClaim | podClaim => exact ⟨h.claimBy rfl hstep, hsilent rfl⟩
  | workerExtend w budget =>
    obtain ⟨x, hx, rfl⟩ := map_hold hstep
    exact hfor _ rfl (h.extendBy hx rfl (hguard _ _ rfl rfl))
  | workerComplete w =>
    obtain ⟨x, hx, rfl⟩ := map_hold hstep
    exact hfor _ rfl (h.unguarded (hlive _ _ rfl rfl rfl) hx (running_update fun _ => rfl))
  | workerFail w msg =>
    obtain ⟨x, hx, rfl⟩ := map_hold hstep
    exact hfor _ rfl (h.unguarded (hlive _ _ rfl rfl rfl) hx running_reportFailure)
  | workerMissing w msg =>
    obtain ⟨x, hx, rfl⟩ := map_hold hstep
    refine hfor _ rfl (h.unguarded (hlive _ _ rfl rfl rfl) hx ?_)
    split
    · exact running_moveToDLQ
    · intro r c hr hc
      obtain ⟨r₀, hr₀, rfl⟩ := Option.map_eq_some_iff.mp hr
      exact h.running r₀ c hr₀ hc
  | podRelease | podReject | podOutboxFull | sessionAckTimeout =>
    obtain ⟨x, hx, -, rfl⟩ := bind_phase hstep
    exact hfor _ rfl (h.releaseBy nofun (hguard _ _ rfl rfl))
  | podBind p s =>
    obtain ⟨x, hx, hphase, rfl⟩ := bind_phase hstep
    refine hfor _ ?_ (h.bind hx (hlive _ _ rfl rfl rfl))
    rw [hphase]
    rfl
  | podExtend p s perJob =>
    obtain ⟨x, hx, hphase, rfl⟩ := bind_phase hstep
    have hname : cfg.holderName (.pod p) x.phase = cfg.claimedBy s := by rw [hphase]; rfl
    exact hfor _ rfl (h.extendBy hx hname (hguard _ _ rfl rfl))
  | podDispatch p s =>
    obtain ⟨x, hx, hphase, rfl⟩ := bind_phase hstep
    exact ⟨h.dispatch hx hphase, hsilent rfl⟩
  | sessionExtend s dur =>
    obtain ⟨x, hx, -, rfl⟩ := bind_phase hstep
    exact hfor _ rfl (h.extendBy hx rfl (hguard _ _ rfl rfl))
  | sessionComplete s =>
    obtain ⟨x, hx, -, rfl⟩ := bind_phase hstep
    exact hfor _ rfl (h.unguarded (hlive _ _ rfl rfl rfl) hx (running_update fun _ => rfl))
  | sessionFail s retry read =>
    obtain ⟨x, hx, -, rfl⟩ := bind_phase hstep
    exact ⟨h.rephase hx _, hsilent rfl⟩
  | sessionRevoke s reason read =>
    obtain ⟨x, hx, -, ⟨found, -, rfl⟩ | ⟨-, rfl⟩⟩ := step_sessionRevoke hstep
    · exact hfor _ rfl ⟨h.rephase hx _, fun hne => absurd rfl hne⟩
    · exact hfor _ rfl (h.releaseBy nofun (hguard _ _ rfl rfl))
  | sessionReport s msg =>
    obtain ⟨x, attempts, maxRetries, retry, hx, -, rfl⟩ := step_sessionReport hstep
    refine hfor _ rfl (h.unguarded (hlive _ _ rfl rfl rfl) hx ?_)
    split
    · exact running_reportFailure
    · exact running_moveToDLQ
  | sessionRelease s reason =>
    obtain ⟨x, hx, -, rfl⟩ := bind_phase hstep
    refine hfor _ rfl (h.releaseBy ?_ (hguard _ _ rfl rfl))
    rintro _ ⟨⟩
    rfl
  | crash p =>
    obtain ⟨x, -, rfl⟩ := map_hold hstep
    exact ⟨h.of_same rfl fun hq => (HoldsAs.of_put (x := none) nofun hq).2, hsilent rfl⟩
  | sweep =>
    obtain ⟨r, hr, rfl⟩ := Option.map_eq_some_iff.mp hstep
    exact ⟨h.sweep hr, hsilent rfl⟩

theorem leased_of_enqueued (h : σ.Enqueued) : σ.Leased cfg := by
  obtain ⟨⟨r, hstore, -, -, hby, -⟩, hholds, -⟩ := h
  refine leased_of_none ?_ ?_
  · rintro p name u ⟨x, hx, -⟩
    rw [hholds p] at hx
    cases hx
  · intro r' c hr' hc
    rw [hstore] at hr'
    cases hr'
    rw [hby] at hc
    cases hc

theorem leased_of_reach (h : (jobMachine cfg).Reach (Clear cfg) σ) : σ.Leased cfg :=
  h.invariant (I := Leased cfg) (fun _ => leased_of_enqueued) fun _ _ _ hσ hclear hstep => (hσ.step hclear hstep).1

end Sys

/-- **As long as nobody writes on a lease that has run out, every write is fenced.** -/
theorem fenced_of_clear {cfg : Config} {σ τ : Sys} {a : Act} (h : (jobMachine cfg).Reach (Sys.Clear cfg) σ)
    (hclear : σ.Clear cfg a) (hstep : σ.step cfg a = some τ) : σ.Fenced cfg a τ :=
  ((Sys.leased_of_reach h).step hclear hstep).2

private def twoPods : Config := ⟨fun w => if w = 0 then "pod-a" else "pod-b", fun _ => "server", fun _ => "session"⟩

private def syncRow : Row := { queue := "default", jobName := "app.Sync", maxRetries := 3, scheduledFor := 0 }

private def syncStart : Sys := { now := 0, store := { live := some syncRow } }

private theorem syncStart_enqueued : syncStart.Enqueued :=
  ⟨⟨syncRow, rfl, rfl, rfl, rfl, rfl⟩, fun _ => rfl, rfl⟩

/-- **A late complete ends the other's run.** The first worker's lease lapses, the second claims the row, and the
    first reports success: the row is complete while the second one's lease runs. -/
theorem late_complete_ends_other_run : ∃ cfg σ τ a, (jobMachine cfg).Reachable σ ∧ σ.step cfg a = some τ ∧
    a = .workerComplete 0 ∧ a.writer cfg = some "pod-a" ∧ σ.HoldsAs cfg (.worker 1) "pod-b" 2001 ∧
    (σ.store.live.map fun r => (r.status, r.claimedBy)) = some (.running, some "pod-b") ∧
    (τ.store.live.map fun r => (r.status, r.claimedBy)) = some (.complete, none) ∧ ¬ σ.Fenced cfg a τ := by
  obtain ⟨σ, τ, hrun, hstep, hhold, hbefore, hafter⟩ : ∃ σ τ,
      (jobMachine twoPods).run syncStart [.workerClaim 0 1000, .tick 1001, .workerClaim 1 1000] = some σ ∧
      σ.step twoPods (.workerComplete 0) = some τ ∧
      (σ.now = 1001 ∧ σ.holds (.worker 1) = some ⟨2, 3, .handling, some 2001⟩) ∧
      (σ.store.live.map fun r => (r.status, r.claimedBy)) = some (.running, some "pod-b") ∧
      (τ.store.live.map fun r => (r.status, r.claimedBy)) = some (.complete, none) :=
    ⟨_, _, rfl, rfl, ⟨rfl, rfl⟩, rfl, rfl⟩
  have hlive : σ.HoldsAs twoPods (.worker 1) "pod-b" 2001 := ⟨_, hhold.2, rfl, rfl, by rw [hhold.1]; decide⟩
  refine ⟨twoPods, σ, τ, .workerComplete 0, Machine.reachable_of_run (.initial syncStart_enqueued) hrun, hstep, rfl, rfl,
    hlive, hbefore, hafter, ?_⟩
  intro hfenced
  have hchanged : τ.store.live ≠ σ.store.live := by
    intro hsame
    rw [hsame, hbefore] at hafter
    cases hafter
  obtain ⟨r, hr, -, hby⟩ := hfenced "pod-a" rfl hchanged
  rw [hr] at hbefore
  simp [hby] at hbefore

/-- A worker that completes in time. -/
theorem timely_complete_fenced : ∃ cfg σ τ, (jobMachine cfg).Reach (Sys.Clear cfg) σ ∧
    σ.Clear cfg (.workerComplete 0) ∧ σ.step cfg (.workerComplete 0) = some τ ∧ τ.store.live ≠ σ.store.live ∧
    σ.Fenced cfg (.workerComplete 0) τ := by
  obtain ⟨σ, τ, hrun, hstep, hhold, hbefore, hafter⟩ : ∃ σ τ,
      (jobMachine twoPods).step syncStart (.workerClaim 0 1000) = some σ ∧ σ.step twoPods (.workerComplete 0) = some τ ∧
      (σ.now = 0 ∧ σ.holds (.worker 0) = some ⟨1, 3, .handling, some 1000⟩) ∧
      σ.store.live.map Row.status = some .running ∧ τ.store.live.map Row.status = some .complete :=
    ⟨_, _, rfl, rfl, ⟨rfl, rfl⟩, rfl, rfl⟩
  have hreach : (jobMachine twoPods).Reach (Sys.Clear twoPods) σ :=
    (Machine.Reach.initial syncStart_enqueued).next (.workerClaim 0 1000) (fun _ _ _ hc => by cases hc) hrun
  have hclear : σ.Clear twoPods (.workerComplete 0) := by
    intro p c hp _
    obtain rfl : Proc.worker 0 = p := Option.some.inj hp
    exact .inl ⟨"pod-a", 1000, _, hhold.2, rfl, rfl, by rw [hhold.1]; decide⟩
  have hchanged : τ.store.live ≠ σ.store.live := by
    intro hsame
    rw [hsame, hbefore] at hafter
    cases hafter
  exact ⟨twoPods, σ, τ, hreach, hclear, hstep, hchanged, fenced_of_clear hreach hclear hstep⟩

/-! ## A batch

A direct worker leases a batch at once and handles it row by row. Only the row whose handler runs gets its lease extended,
so a row that waits has what is left of the first one. -/

namespace Sys

variable {cfg : Config} {σ τ : Sys} {w budget : Nat}

/-- **`Worker.drainOnce`, from a row of its batch**: the row is claimed, the handlers of the rows `before` it run for so
    long, and meanwhile the others go on. -/
structure Awaits (cfg : Config) (w budget : Nat) (before : List Nat) (as : List Act) (σ τ : Sys) : Prop where
  run : (jobMachine cfg).run σ (.workerClaim w budget :: as) = some τ
  waits : ∀ a ∈ as, a.actor ≠ some (.worker w)
  elapsed : τ.now = σ.now + before.sum

theorem put_holds_of_ne {p q : Proc} {x : Option Hold} {store : Store} (h : some p ≠ some q) :
    (σ.put p x store).holds q = σ.holds q :=
  Function.update_of_ne (fun heq => h (congrArg some heq.symm)) ..

/-- What a worker remembers is its own. -/
theorem holds_worker {a : Act} (h : σ.step cfg a = some τ) (hne : a.actor ≠ some (.worker w)) :
    τ.holds (.worker w) = σ.holds (.worker w) := by
  cases a with
  | tick =>
    cases h
    rfl
  | sweep =>
    obtain ⟨r, -, rfl⟩ := Option.map_eq_some_iff.mp h
    rfl
  | workerClaim | podClaim =>
    obtain ⟨r, -, -, -, rfl⟩ := claimBy_eq_some h
    exact put_holds_of_ne hne
  | workerExtend | workerComplete | workerFail | workerMissing | crash =>
    obtain ⟨x, -, rfl⟩ := map_hold h
    exact put_holds_of_ne hne
  | podRelease | podReject | podBind | podExtend | podOutboxFull | sessionExtend | sessionComplete | sessionFail
  | sessionAckTimeout | sessionRelease =>
    obtain ⟨x, -, -, rfl⟩ := bind_phase h
    exact put_holds_of_ne hne
  | podDispatch p s =>
    obtain ⟨x, -, -, rfl⟩ := bind_phase h
    simp
  | sessionRevoke =>
    obtain ⟨x, -, -, ⟨found, -, rfl⟩ | ⟨-, rfl⟩⟩ := step_sessionRevoke h
    · exact put_holds_of_ne hne
    · exact put_holds_of_ne hne
  | sessionReport =>
    obtain ⟨x, _, _, _, -, -, rfl⟩ := step_sessionReport h
    exact put_holds_of_ne hne

theorem holds_worker_of_run {as : List Act} (hwaits : ∀ a ∈ as, a.actor ≠ some (.worker w))
    (h : (jobMachine cfg).run σ as = some τ) : τ.holds (.worker w) = σ.holds (.worker w) := by
  induction as generalizing σ with
  | nil =>
    cases h
    rfl
  | cons a as ih =>
    obtain ⟨u, hu, h⟩ := Option.bind_eq_some_iff.mp h
    have hrest := ih (fun b hb => hwaits b (List.mem_cons_of_mem _ hb)) h
    exact hrest.trans (holds_worker hu (hwaits a List.mem_cons_self))

end Sys

/-- **A handler starts on a row its pod still holds**, if the handlers before it took no longer than the lease and nobody
    wrote on a lease that had run out. -/
theorem starts_held {cfg : Config} {σ τ : Sys} {w budget : Nat} {before : List Nat} {as : List Act}
    (h : (jobMachine cfg).Reach (Sys.Clear cfg) σ) (hrow : Sys.Awaits cfg w budget before as σ τ)
    (hclear : (jobMachine cfg).Along (Sys.Clear cfg) σ (.workerClaim w budget :: as)) (htime : before.sum ≤ budget) :
    ∃ r, τ.store.live = some r ∧ r.status = .running ∧ r.claimedBy = some (cfg.workerPodID w) ∧ ¬ r.LeaseFree τ.now := by
  obtain ⟨σ₁, hclaim, hrun⟩ := Option.bind_eq_some_iff.mp hrow.run
  obtain ⟨r₀, -, -, -, rfl⟩ := Sys.claimBy_eq_some hclaim
  -- what the worker remembers of the row is still what the claim wrote
  have hhold := (Sys.holds_worker_of_run hrow.waits hrun).trans (Function.update_self ..)
  have hleased := Sys.leased_of_reach (Machine.reach_of_run h hclear hrow.run)
  have hnow : τ.now ≤ σ.now + budget := by
    rw [hrow.elapsed]
    omega
  obtain ⟨r, v, hr, hrunning, hby, huntil, hle⟩ := hleased.owns (p := .worker w) ⟨_, hhold, rfl, rfl, hnow⟩
  exact ⟨r, hr, hrunning, hby, Row.not_leaseFree huntil (hnow.trans hle)⟩

theorem starts_held_in_time : ∃ τ r, Sys.Awaits twoPods 0 1000 [400] [.tick 400] syncStart τ ∧ τ.store.live = some r ∧
    r.claimedBy = some "pod-a" := by
  have hrow : Sys.Awaits twoPods 0 1000 [400] [.tick 400] syncStart _ := ⟨rfl, by simp [Act.actor], rfl⟩
  obtain ⟨r, hr, -, hby, -⟩ := starts_held (.initial syncStart_enqueued) hrow
    ⟨fun _ _ _ hc => (by cases hc), fun _ _ => ⟨fun _ _ hp => (by cases hp), fun _ _ => trivial⟩⟩ (by decide)
  exact ⟨_, r, hrow, hr, hby⟩

/-- The first handler of a batch takes longer than the lease, and another pod claims the second row before its handler
    starts. -/
theorem started_on_lost_row : ∃ τ, Sys.Awaits twoPods 0 1000 [1001] [.tick 1001, .workerClaim 1 1000] syncStart τ ∧
    (τ.store.live.map fun r => (r.status, r.claimedBy)) = some (.running, some "pod-b") :=
  ⟨_, ⟨rfl, by simp [Act.actor], rfl⟩, rfl⟩

end Atlantis.Jobs
