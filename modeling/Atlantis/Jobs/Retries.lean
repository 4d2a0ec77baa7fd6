import Atlantis.Jobs.System

/-!
# `Jobs.Retries` — what an attempt is spent on

`attempts` counts claims, not dispatches. A dispatcher claims for the union of its sessions' job names and then looks
for a session with a slot; a row it cannot place goes back to `pending` with the attempt spent, and the sweeper later
counts it as one. And when `lookupAttempts` fails, `handleFail` goes on with `attempts = 1, maxRetries = 0`, which
sends the row to the dead-letter table at once. `retries_lost` has a run of each kind.

In between, the count is right: **if every claim is sent to a session before the row is claimed, reported or swept
again, and `lookupAttempts` does not fail, a row reaches the dead-letter table only after `max 1 max_retries`
dispatches** (`retries_real_of_placing`). The invariant is that attempts exceed dispatches by the one claim that is
on its way.
-/

namespace Atlantis.Jobs

open Lib

/-- Steps of a run of dispatchers whose workers report only retryable failures. -/
def Act.dispatching : Act → Bool
  | .workerClaim .. | .workerExtend .. | .workerComplete .. | .workerFail .. | .workerMissing .. => false
  | .sessionFail _ retry _ => retry
  | _ => true

/-- The pod whose claim a step gives back unsent. -/
def Act.givesBack : Act → Option Nat
  | .podRelease p _ | .podReject p _ | .podOutboxFull p _ => some p
  | _ => none

namespace Sys

variable (σ : Sys)

/-- A pod has claimed the row and not yet sent it. -/
def Unsent : Prop := ∃ p, σ.holds (.pod p) ≠ none

/-- **Retries are spent on real attempts**: a row that leaves for the dead-letter table was sent often enough, and a
    claim that is given back unsent costs none. -/
structure RetriesReal (a : Act) (τ : Sys) : Prop where
  dead : ∀ r, σ.store.live = some r → τ.store.live = none → max 1 r.maxRetries ≤ σ.sent
  givenBack : ∀ p x r', a.givesBack = some p → σ.holds (.pod p) = some x → τ.store.live = some r' →
    τ.store.live ≠ σ.store.live → r'.attempts + 1 = x.attempts

/-- No claim is given back or lost unsent, nothing else decides over the row while one is, and `handleFail` can read
    the attempts. -/
def Placing : Act → Prop
  | .podRelease .. | .podReject .. | .podOutboxFull .. | .crash (.pod _) => False
  | .podClaim .. | .sessionReport .. | .sweep => ¬ σ.Unsent
  | .sessionFail _ _ read => read = true
  | _ => True

/-- What a session is about to report was read from the row. -/
def ReadFrom (r : Row) : Phase → Prop
  | .reporting attempts maxRetries retry => retry = true ∧ 1 ≤ attempts ∧ attempts ≤ r.attempts ∧ maxRetries = r.maxRetries
  | _ => True

/-- Attempts are dispatches, up to the claim that is on its way. -/
structure Counted : Prop where
  alone : ∀ p q, σ.holds (.pod p) ≠ none → σ.holds (.pod q) ≠ none → p = q
  covered : ∀ r, σ.store.live = some r → r.attempts ≤ σ.sent + 1 ∧ (¬ σ.Unsent → r.attempts ≤ σ.sent)
  held : ∀ p x r, σ.holds p = some x → σ.store.live = some r → 1 ≤ r.attempts ∧ ReadFrom r x.phase

variable {σ} {τ : Sys} {cfg : Config}

theorem counted_of_enqueued (h : σ.Enqueued) : σ.Counted := by
  obtain ⟨⟨r, hstore, -, hzero, -, -⟩, hholds, hsent⟩ := h
  refine ⟨?_, ?_, ?_⟩
  · intro p q hp
    exact absurd (hholds (.pod p)) hp
  · intro r' hr'
    rw [hstore] at hr'
    cases hr'
    rw [hzero]
    exact ⟨Nat.zero_le _, fun _ => Nat.zero_le _⟩
  · intro p x r' hx
    rw [hholds p] at hx
    cases hx

/-- A row with no fewer attempts will do. -/
theorem ReadFrom.mono {r r' : Row} {phase : Phase} (h : ReadFrom r phase) (hle : r.attempts ≤ r'.attempts)
    (hmax : r'.maxRetries = r.maxRetries) : ReadFrom r' phase := by
  cases phase with
  | reporting attempts maxRetries retry => exact ⟨h.1, h.2.1, h.2.2.1.trans hle, h.2.2.2.trans hmax.symm⟩
  | _ => trivial

/-- The row is written without a claim; who remembers it did so before. -/
theorem Counted.of_leads (h : σ.Counted) (hleads : σ.store.Leads σ.now false τ.store) (hsent : τ.sent = σ.sent)
    (hpods : ∀ i, τ.holds (.pod i) ≠ none ↔ σ.holds (.pod i) ≠ none)
    (hholds : ∀ q y, τ.holds q = some y → ∃ p x, σ.holds p = some x ∧
      (x.phase = y.phase ∨ ∀ r, σ.store.live = some r → ReadFrom r y.phase)) : τ.Counted := by
  have hunsent : τ.Unsent ↔ σ.Unsent := exists_congr hpods
  refine ⟨?_, ?_, ?_⟩
  · intro i j hi hj
    exact h.alone i j ((hpods i).mp hi) ((hpods j).mp hj)
  · intro r' hr'
    obtain ⟨r, hr, hwritten⟩ := hleads r' hr'
    rw [hwritten.attempts.1, hunsent, hsent]
    exact h.covered r hr
  · intro q y r' hy hr'
    obtain ⟨r, hr, hwritten⟩ := hleads r' hr'
    obtain ⟨p, x, hx, hphase⟩ := hholds q y hy
    obtain ⟨hone, hread⟩ := h.held p x r hx hr
    have hread' : ReadFrom r y.phase := by
      rcases hphase with hsame | hnew
      · exact hsame ▸ hread
      · exact hnew r hr
    exact ⟨hwritten.attempts.1 ▸ hone, hread'.mono hwritten.attempts.1.ge hwritten.attempts.2⟩

/-- A process that holds the row writes it and goes on, or puts it down; pods do not put it down here. -/
theorem Counted.put (h : σ.Counted) {p : Proc} {x : Hold} (hx : σ.holds p = some x) {after : Option Hold} {store : Store}
    (hleads : σ.store.Leads σ.now false store) (hpod : ∀ i, p = .pod i → after ≠ none)
    (hphase : ∀ y, after = some y → x.phase = y.phase ∨ ∀ r, σ.store.live = some r → ReadFrom r y.phase) :
    (σ.put p after store).Counted := by
  refine h.of_leads hleads rfl (fun i => ?_) fun q y hy => ?_
  · rw [put_holds]
    by_cases hi : Proc.pod i = p
    · rw [hi, Function.update_self, hx]
      exact iff_of_true (hpod i hi.symm) (Option.some_ne_none x)
    · rw [Function.update_of_ne hi]
  · rcases update_eq_some hy with ⟨-, hy⟩ | hy
    · exact ⟨p, x, hx, hphase y hy⟩
    · exact ⟨q, y, hy, .inl rfl⟩

/-- A claim when no other claim is on its way. -/
theorem Counted.claim (h : σ.Counted) {p : Nat} {jobNames : List String} {claimedBy sessionID : String} {budget : Nat}
    {kind : WorkerKind} (hunsent : ¬ σ.Unsent)
    (hstep : σ.claimBy (.pod p) jobNames claimedBy budget kind sessionID .claimed = some τ) : τ.Counted := by
  obtain ⟨r, hr, -, -, rfl⟩ := claimBy_eq_some hstep
  have hlive : ∀ r', (σ.store.update (Row.claim σ.now claimedBy (σ.now + budget) kind sessionID)).live = some r' →
      r'.attempts = r.attempts + 1 ∧ r'.maxRetries = r.maxRetries := by
    intro r' hr'
    obtain ⟨r₀, hr₀, rfl⟩ := Option.map_eq_some_iff.mp hr'
    obtain rfl : r = r₀ := Option.some.inj (hr.symm.trans hr₀)
    exact ⟨rfl, rfl⟩
  have hothers : ∀ i, i ≠ p → σ.holds (.pod i) = none := by
    intro i _
    by_contra hi
    exact hunsent ⟨i, hi⟩
  refine ⟨?_, ?_, ?_⟩
  · have honly : ∀ (v : Option Hold) i, Function.update σ.holds (.pod p) v (.pod i) ≠ none → i = p := by
      intro v i hi
      by_contra hne
      rw [Function.update_of_ne (fun heq => hne (Proc.pod.inj heq))] at hi
      exact hi (hothers i hne)
    intro i j hi hj
    rw [honly _ i hi, honly _ j hj]
  · intro r' hr'
    obtain ⟨hatt, -⟩ := hlive r' hr'
    have hcov := (h.covered r hr).2 hunsent
    refine ⟨?_, ?_⟩
    · show r'.attempts ≤ σ.sent + 1
      omega
    · intro hnone
      refine absurd ⟨p, ?_⟩ hnone
      rw [put_holds, Function.update_self]
      exact Option.some_ne_none _
  · intro q y r' hy hr'
    obtain ⟨hatt, hmax⟩ := hlive r' hr'
    refine ⟨by omega, ?_⟩
    rcases update_eq_some hy with ⟨-, ⟨⟩⟩ | hy
    · trivial
    · exact (h.held q y r hy hr).2.mono (by omega) hmax

/-- A dispatch pays for the claim. -/
theorem Counted.dispatch (h : σ.Counted) {p s : Nat} {x : Hold} (hx : σ.holds (.pod p) = some x) :
    Counted { (σ.put (.pod p) none σ.store).put (.session s) (some { x with phase := .inflight }) σ.store with
      sent := σ.sent + 1 } := by
  have hpods : ∀ i, (Function.update (Function.update σ.holds (.pod p) none) (.session s)
      (some { x with phase := .inflight }) : Proc → Option Hold) (.pod i) = none := by
    intro i
    rw [Function.update_of_ne (by exact Proc.noConfusion)]
    by_cases hi : i = p
    · rw [hi, Function.update_self]
    · rw [Function.update_of_ne (fun heq => hi (Proc.pod.inj heq))]
      by_contra hne
      exact hi (h.alone i p hne (by rw [hx]; exact Option.some_ne_none x))
  refine ⟨?_, ?_, ?_⟩
  · intro i j hi
    exact absurd (hpods i) hi
  · intro r hr
    obtain ⟨hone, -⟩ := h.covered r hr
    exact ⟨Nat.le_succ_of_le hone, fun _ => hone⟩
  · intro q y r hy hr
    refine ⟨(h.held (.pod p) x r hx hr).1, ?_⟩
    rcases update_eq_some hy with ⟨-, ⟨⟩⟩ | hy
    · trivial
    rcases update_eq_some hy with ⟨-, ⟨⟩⟩ | hy
    exact (h.held q y r hy hr).2

/-! ## The step -/

theorem live_update_ne_none {s : Store} {f : Row → Row} (h : s.live ≠ none) : (s.update f).live ≠ none := by
  obtain ⟨r, hr⟩ := Option.ne_none_iff_exists'.mp h
  show s.live.map f ≠ none
  rw [hr]
  exact Option.some_ne_none _

/-- A step that leaves the row where it is. -/
theorem retriesReal_of_stays {a : Act} (hgive : a.givesBack = none) (hstays : σ.store.live ≠ none → τ.store.live ≠ none) :
    σ.RetriesReal a τ where
  dead r hr hgone := absurd hgone (hstays (by rw [hr]; exact Option.some_ne_none r))
  givenBack p _ _ hp := by
    rw [hgive] at hp
    cases hp

/-- **One placing step** spends retries on real attempts and keeps the count. -/
theorem Counted.step {a : Act} (h : σ.Counted) (hdisp : a.dispatching = true) (hplace : σ.Placing a)
    (hstep : σ.step cfg a = some τ) : τ.Counted ∧ σ.RetriesReal a τ := by
  have hleads := step_leads hstep
  -- a session that puts the row down, or goes on in the same phase
  have hsession : ∀ {s : Nat} {i : Nat}, Proc.session s = .pod i → ∀ {after : Option Hold}, after ≠ none :=
    fun hne => Proc.noConfusion hne
  cases a with
  | tick d =>
    cases hstep
    exact ⟨⟨h.alone, h.covered, h.held⟩, retriesReal_of_stays rfl id⟩
  | workerClaim | workerExtend | workerComplete | workerFail | workerMissing => cases hdisp
  | podClaim p jobNames budget =>
    refine ⟨h.claim hplace hstep, retriesReal_of_stays rfl ?_⟩
    obtain ⟨r, hr, -, -, rfl⟩ := claimBy_eq_some hstep
    exact live_update_ne_none
  | podRelease | podReject | podOutboxFull => exact absurd hplace id
  | podBind p s =>
    obtain ⟨x, hx, -, rfl⟩ := bind_phase hstep
    refine ⟨h.put hx hleads (fun _ _ => Option.some_ne_none _) ?_, retriesReal_of_stays rfl live_update_ne_none⟩
    rintro _ ⟨⟩
    exact .inr fun _ _ => trivial
  | podExtend | sessionExtend | sessionRelease =>
    obtain ⟨x, hx, -, rfl⟩ := bind_phase hstep
    refine ⟨h.put hx hleads (fun _ _ => Option.some_ne_none _) ?_, retriesReal_of_stays rfl live_update_ne_none⟩
    rintro _ ⟨⟩
    exact .inl rfl
  | podDispatch p s =>
    obtain ⟨x, hx, -, rfl⟩ := bind_phase hstep
    exact ⟨h.dispatch hx, retriesReal_of_stays rfl id⟩
  | sessionComplete | sessionAckTimeout =>
    obtain ⟨x, hx, -, rfl⟩ := bind_phase hstep
    exact ⟨h.put hx hleads (fun _ hne => hsession hne) nofun,
      retriesReal_of_stays rfl live_update_ne_none⟩
  | sessionFail s retry read =>
    obtain ⟨x, hx, -, rfl⟩ := bind_phase hstep
    refine ⟨h.put hx hleads (fun _ hne => hsession hne) ?_, retriesReal_of_stays rfl id⟩
    rintro _ ⟨⟩
    right
    intro r hr
    obtain rfl : read = true := hplace
    obtain rfl : retry = true := hdisp
    simp only [if_true, Store.lookupAttempts, hr, Option.map_some, Option.getD_some]
    exact ⟨rfl, (h.held _ x r hx hr).1, le_refl _, rfl⟩
  | sessionRevoke s reason read =>
    obtain ⟨x, hx, -, ⟨found, hfound, rfl⟩ | ⟨-, rfl⟩⟩ := step_sessionRevoke hstep
    · refine ⟨h.put hx hleads (fun _ hne => hsession hne) ?_, retriesReal_of_stays rfl id⟩
      rintro _ ⟨⟩
      right
      intro r hr
      have hread : found = (r.attempts, r.maxRetries) := by
        cases read with
        | false => cases hfound
        | true =>
          simp only [if_true, Store.lookupAttempts, hr, Option.map_some] at hfound
          exact (Option.some.inj hfound).symm
      subst hread
      exact ⟨rfl, (h.held _ x r hx hr).1, le_refl _, rfl⟩
    · exact ⟨h.put hx hleads (fun _ hne => hsession hne) nofun,
        retriesReal_of_stays rfl live_update_ne_none⟩
  | sessionReport s msg =>
    obtain ⟨x, attempts, maxRetries, retry, hx, hphase, rfl⟩ := step_sessionReport hstep
    refine ⟨h.put hx hleads (fun _ hne => hsession hne) nofun, ?_, fun p _ _ hp => by cases hp⟩
    intro r hr hgone
    obtain ⟨-, hread⟩ := h.held _ x r hx hr
    rw [hphase] at hread
    obtain ⟨hretry, hone, hle, hmax⟩ := hread
    have hsent : r.attempts ≤ σ.sent := (h.covered r hr).2 hplace
    rw [put_store, if_pos hretry] at hgone
    unfold Store.reportFailure at hgone
    split at hgone
    · rename_i hspent
      apply max_le <;> omega
    · exact absurd hgone (live_update_ne_none (by rw [hr]; exact Option.some_ne_none r))
  | crash p =>
    obtain ⟨x, hx, rfl⟩ := map_hold hstep
    refine ⟨h.put hx hleads ?_ nofun, retriesReal_of_stays rfl id⟩
    rintro i rfl
    exact absurd hplace id
  | sweep =>
    obtain ⟨r, hr, rfl⟩ := Option.map_eq_some_iff.mp hstep
    refine ⟨h.of_leads hleads rfl (fun _ => .rfl) fun q y hy => ⟨q, y, hy, .inl rfl⟩, ?_, fun p _ _ hp => by cases hp⟩
    intro r' hr' hgone
    obtain rfl : r = r' := Option.some.inj (hr.symm.trans hr')
    have hsent : r.attempts ≤ σ.sent := (h.covered r hr).2 hplace
    replace hgone : (σ.store.sweepExhausted σ.now r.queue).live = none := hgone
    unfold Store.sweepExhausted at hgone
    rw [hr] at hgone
    simp only at hgone
    split at hgone
    · rename_i hsweep
      have hspent : max r.maxRetries 1 ≤ (r.attempts : Int) := hsweep.2.1
      rw [max_comm]
      exact le_trans hspent (by exact_mod_cast hsent)
    · rw [hr] at hgone
      cases hgone

end Sys

/-- What is asked of the steps: they are a dispatcher's, and they place. -/
def Placed (σ : Sys) (a : Act) : Prop := a.dispatching = true ∧ σ.Placing a

/-- **Retries are spent on real attempts** in every run of dispatchers in which each claim is sent before anything
    else decides over the row and attempts can be read. -/
theorem retries_real_of_placing {cfg : Config} {σ τ : Sys} {a : Act} (h : (jobMachine cfg).Reach Placed σ)
    (hplaced : Placed σ a) (hstep : σ.step cfg a = some τ) : σ.RetriesReal a τ := by
  have hcounted : σ.Counted := h.invariant (I := Sys.Counted) (fun _ => Sys.counted_of_enqueued)
    fun _ _ _ hσ hok hstep => (hσ.step hok.1 hok.2 hstep).1
  exact (hcounted.step hplaced.1 hplaced.2 hstep).2

private def oneServer : Config := ⟨fun _ => "worker", fun _ => "server", fun _ => "session"⟩

private def mailRow (maxRetries : Int) : Row :=
  { queue := "default", jobName := "app.Mail", maxRetries, scheduledFor := 0 }

private def mailStart (maxRetries : Int) : Sys := { now := 0, store := { live := some (mailRow maxRetries) } }

private theorem mailStart_enqueued (maxRetries : Int) : (mailStart maxRetries).Enqueued :=
  ⟨⟨mailRow maxRetries, rfl, rfl, rfl, rfl, rfl⟩, fun _ => rfl, rfl⟩

/-- A run of dispatchers that ends in the dead-letter table with fewer dispatches than the row allows. -/
def DeadTooSoon (cfg : Config) (start : Sys) (as : List Act) (last : Act) (sent : Nat) : Prop :=
  start.Enqueued ∧ (∀ a ∈ as ++ [last], a.dispatching = true) ∧ ∃ σ τ r, (jobMachine cfg).run start as = some σ ∧
    σ.step cfg last = some τ ∧ σ.store.live = some r ∧ τ.store.live = none ∧ τ.store.dead ≠ none ∧ τ.sent = sent ∧
    ¬ σ.RetriesReal last τ

/-- **Two ways to lose retries.** A row that was claimed, found no session and was given back is swept without ever
    having been sent. And a failure whose attempts cannot be read is final after the first of three attempts. -/
theorem retries_lost :
    DeadTooSoon oneServer (mailStart 1) [.podClaim 0 ["app.Mail"] 1000, .podRelease 0 "no_session_post_claim"] .sweep 0 ∧
    DeadTooSoon oneServer (mailStart 3)
      [.podClaim 0 ["app.Mail"] 1000, .podBind 0 0, .podDispatch 0 0, .sessionFail 0 true false]
      (.sessionReport 0 "timeout") 1 := by
  constructor
  · refine ⟨mailStart_enqueued 1, by decide, _, _, _, rfl, rfl, rfl, rfl, Option.some_ne_none _, rfl, ?_⟩
    intro hreal
    exact absurd (hreal.dead _ rfl rfl) (by decide)
  · refine ⟨mailStart_enqueued 3, by decide, _, _, _, rfl, rfl, rfl, rfl, Option.some_ne_none _, rfl, ?_⟩
    intro hreal
    exact absurd (hreal.dead _ rfl rfl) (by decide)

/-- One attempt allowed, one attempt sent, failed and reported. -/
theorem sent_once_then_dead : ∃ σ τ r, (jobMachine oneServer).Reach Placed σ ∧ Placed σ (.sessionReport 0 "timeout") ∧
    σ.step oneServer (.sessionReport 0 "timeout") = some τ ∧ σ.store.live = some r ∧ τ.store.live = none ∧
    σ.RetriesReal (.sessionReport 0 "timeout") τ ∧ max 1 r.maxRetries ≤ (σ.sent : Int) := by
  obtain ⟨σ, τ, r, hrun, hstep, hr, hgone, hidle⟩ : ∃ σ τ r, (jobMachine oneServer).run (mailStart 1)
      [.podClaim 0 ["app.Mail"] 1000, .podBind 0 0, .podDispatch 0 0, .sessionFail 0 true true] = some σ ∧
      σ.step oneServer (.sessionReport 0 "timeout") = some τ ∧ σ.store.live = some r ∧ τ.store.live = none ∧
      ∀ p, σ.holds (.pod p) = none :=
    ⟨_, _, _, rfl, rfl, rfl, rfl, fun p => by simp [mailStart]⟩
  have halong : (jobMachine oneServer).Along Placed (mailStart 1)
      [.podClaim 0 ["app.Mail"] 1000, .podBind 0 0, .podDispatch 0 0, .sessionFail 0 true true] :=
    .cons ⟨rfl, fun ⟨_, hp⟩ => hp rfl⟩ rfl <| .cons ⟨rfl, trivial⟩ rfl <| .cons ⟨rfl, trivial⟩ rfl <|
      .cons ⟨rfl, rfl⟩ rfl trivial
  have hreach := Machine.reach_of_run (.initial (mailStart_enqueued 1)) halong hrun
  have hplaced : Placed σ (.sessionReport 0 "timeout") := ⟨rfl, fun ⟨p, hp⟩ => hp (hidle p)⟩
  have hreal := retries_real_of_placing hreach hplaced hstep
  exact ⟨σ, τ, r, hreach, hplaced, hstep, hr, hgone, hreal, hreal.dead r hr hgone⟩

end Atlantis.Jobs
