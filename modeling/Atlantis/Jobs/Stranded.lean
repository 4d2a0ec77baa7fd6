import Atlantis.Jobs.System

/-!
# `Jobs.Stranded` — no row is out of everybody's reach

Three predicates decide over a row: the claim asks for attempts left and a free lease, the sweeper for attempts used
up and a lease that has been over for five minutes, and `NULL` in `claimed_until` means "free" to the first and "not
mine" to the second. A row that runs without a lease and without attempts left would be seen by neither. It does not
arise: whoever sets `running` sets the lease with it, and whoever clears the lease clears the status with it.

No hypothesis on the interleaving is needed; late writes of former claimants keep the two columns together as well.
-/

namespace Atlantis.Jobs

open Lib

/-- A running row has a lease, and no row is marked `failed`. -/
structure Row.Sound (r : Row) : Prop where
  leased : r.status = .running → r.claimedUntil ≠ none
  notFailed : r.status ≠ .failed

theorem Written.sound {now : Int} {claims : Bool} {r r' : Row} (h : Written now claims r r') (hr : r.Sound) : r'.Sound := by
  cases h with
  | same => exact hr
  | claim _ jobNames claimedBy leaseUntil kind sessionID _ =>
    exact ⟨fun _ => Option.some_ne_none _, Status.noConfusion⟩
  | extend claimedBy ext =>
    constructor
    · intro hrun
      unfold Row.extendLease
      split
      · exact Option.some_ne_none _
      · rw [Row.status_extendLease] at hrun
        exact hr.leased hrun
    · rw [Row.status_extendLease]
      exact hr.notFailed
  | complete => exact ⟨Status.noConfusion, Status.noConfusion⟩
  | pending lastError => exact ⟨Status.noConfusion, Status.noConfusion⟩
  | note lastError => exact ⟨hr.leased, hr.notFailed⟩
  | bind claimedBy sessionID => exact ⟨hr.leased, hr.notFailed⟩

/-- **With time alone a sound row that is not complete comes within reach**, of a claim if it has attempts left,
    of the sweeper otherwise. -/
theorem Row.Sound.within_reach {r : Row} (h : r.Sound) (hopen : r.status ≠ .complete) (now : Int) :
    ∃ t, now ≤ t ∧
      ((∀ t', t ≤ t' → r.Claimable t' r.queue []) ∨ (∀ t', t ≤ t' → r.Sweepable t' r.queue)) := by
  -- past the start, and past the lease with the sweeper's grace
  obtain ⟨t, hnow, hstart, hlease⟩ : ∃ t, now ≤ t ∧ r.scheduledFor ≤ t ∧ ∀ u ∈ r.claimedUntil, u + sweepGrace < t := by
    cases hu : r.claimedUntil with
    | none => exact ⟨max now r.scheduledFor, le_max_left _ _, le_max_right _ _, fun u hu => by cases hu⟩
    | some u =>
      refine ⟨max (max now r.scheduledFor) (u + sweepGrace + 1), ?_, ?_, ?_⟩
      · exact le_trans (le_max_left _ _) (le_max_left _ _)
      · exact le_trans (le_max_right _ _) (le_max_left _ _)
      · intro v hv
        cases hv
        have := le_max_right (max now r.scheduledFor) (u + sweepGrace + 1)
        omega
  have hstatus : r.status = .pending ∨ r.status = .running := by
    cases hs : r.status with
    | pending => exact .inl rfl
    | running => exact .inr rfl
    | complete => exact absurd hs hopen
    | failed => exact absurd hs h.notFailed
  refine ⟨t, hnow, ?_⟩
  by_cases hleft : (r.attempts : Int) < r.retryBudget
  · left
    intro t' ht'
    refine ⟨rfl, le_trans hstart ht', hleft, ?_, .inl rfl⟩
    rcases hstatus with hpending | hrunning
    · exact .inl hpending
    · refine .inr ⟨hrunning, fun u hu => ?_⟩
      have := hlease u hu
      unfold sweepGrace at this
      omega
  · right
    intro t' ht'
    refine ⟨rfl, not_lt.mp hleft, ?_⟩
    rcases hstatus with hpending | hrunning
    · exact .inl hpending
    · obtain ⟨u, hu⟩ := Option.ne_none_iff_exists'.mp (h.leased hrunning)
      refine .inr ⟨hrunning, u, hu, ?_⟩
      have := hlease u hu
      omega

/-- **No job is stranded.** In every reachable state a row of `atlantis.jobs` that is not complete becomes, by the
    passing of time alone, claimable or sweepable and stays so. -/
theorem no_job_stranded {cfg : Config} {σ : Sys} (h : (jobMachine cfg).Reachable σ) {r : Row}
    (hr : σ.store.live = some r) (hopen : r.status ≠ .complete) :
    ∃ t, σ.now ≤ t ∧
      ((∀ t', t ≤ t' → r.Claimable t' r.queue []) ∨ (∀ t', t ≤ t' → r.Sweepable t' r.queue)) := by
  refine (h.invariant (I := fun σ : Sys => ∀ r, σ.store.live = some r → r.Sound) ?_ ?_ r hr).within_reach hopen σ.now
  · rintro σ ⟨⟨r, hstore, hpending, -⟩, -⟩ r' hr'
    rw [hstore] at hr'
    cases hr'
    refine ⟨fun hrun => ?_, fun hfailed => ?_⟩
    · rw [hpending] at hrun
      cases hrun
    · rw [hpending] at hfailed
      cases hfailed
  · intro σ a τ ih _ hstep r' hr'
    obtain ⟨r, hr, hwritten⟩ := Sys.step_leads hstep r' hr'
    exact hwritten.sound (ih r hr)

/-- A row with one attempt that its worker has claimed and dropped: out of attempts, and left to the sweeper. -/
theorem dropped_row_not_stranded : ∃ cfg σ r, (jobMachine cfg).Reachable σ ∧ σ.store.live = some r ∧
    r.status = .running ∧ r.attempts = 1 ∧ (∀ p, σ.holds p = none) ∧
    ∃ t, σ.now ≤ t ∧
      ((∀ t', t ≤ t' → r.Claimable t' r.queue []) ∨ (∀ t', t ≤ t' → r.Sweepable t' r.queue)) := by
  let cfg : Config := ⟨fun _ => "pod", fun _ => "pod", fun _ => "session"⟩
  let r₀ : Row := { queue := "default", jobName := "app.Sync", maxRetries := 1, scheduledFor := 0 }
  have hinit : (jobMachine cfg).Reachable { now := 0, store := { live := some r₀ } } :=
    .initial ⟨⟨r₀, rfl, rfl, rfl, rfl, rfl⟩, fun _ => rfl, rfl⟩
  obtain ⟨σ, r, hrun, hr, hrunning, hone, hgone⟩ : ∃ σ r, (jobMachine cfg).run { now := 0, store := { live := some r₀ } }
      [.workerClaim 0 120000, .crash (.worker 0)] = some σ ∧ σ.store.live = some r ∧ r.status = .running ∧
      r.attempts = 1 ∧ ∀ p, σ.holds p = none := by
    refine ⟨_, _, rfl, rfl, rfl, rfl, fun p => ?_⟩
    simp only [Sys.put_holds, Function.update_apply]
    split <;> rfl
  have hreach := Machine.reachable_of_run hinit hrun
  exact ⟨cfg, σ, r, hreach, hr, hrunning, hone, hgone, no_job_stranded hreach hr (by rw [hrunning]; decide)⟩

end Atlantis.Jobs
