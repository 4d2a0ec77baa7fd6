import Atlantis.Jobs.Submission

/-!
# `Jobs.Heartbeat` — the interval a worker is told, and the leases it keeps

`WorkerSession` (`internal/server/jobsdispatcher/grpc.go`) tells a worker to send its heartbeats every third of the
server's budget. The lease of a row is the budget too, unless its job declares a `heartbeat` of its own, which may be
shorter. A worker that does as it is told, without any delay, keeps all leases exactly if no job of its session declares
less than that third (`leases_kept_iff`). A heartbeat of centuries can be less, too: the product with
`time.Millisecond` is one of `int64`.

Times are nanoseconds, as those of a `time.Duration`; what is sent or stored as milliseconds is rounded down.
-/

namespace Atlantis.Jobs

open Lib

/-- `New`: five minutes, unless a budget is configured. -/
def heartbeatBudget (configured : Int) : Nat := if configured ≤ 0 then 5 * 60 * 1000000000 else configured.toNat

/-- `SessionAccepted.HeartbeatMS`, as a duration. -/
def advisedInterval (budget : Nat) : Nat := budget / 1000000 / 3 * 1000000

/-- `time.Duration(ms) * time.Millisecond`: the product wraps. -/
def msDuration (ms : Nat) : Int := Int.bmod (ms * 1000000) (2 ^ 64)

theorem msDuration_eq {ms : Nat} (h : ms * 1000000 < 2 ^ 63) : msDuration ms = ms * 1000000 :=
  Int.bmod_eq_of_le (by omega) (by omega)

/-- `perJobHeartbeat`, as `WorkerSession` fills it. -/
def perJobHeartbeat (ir : JobIR) (jobNames : List String) (jobName : String) : Option Int :=
  (ir.jobs.find? (·.id = jobName)).bind fun job =>
    if 0 < job.heartbeatMS ∧ job.id ∈ jobNames then some (msDuration job.heartbeatMS) else none

/-- `leaseDurFor`: an entry of the map, if it is positive. -/
def leaseDurFor (ir : JobIR) (jobNames : List String) (jobName : String) (fallback : Nat) : Nat :=
  match perJobHeartbeat ir jobNames jobName with
  | some d => if d > 0 then d.toNat else fallback
  | none => fallback

/-- A row in flight: its lease in memory and its `claimed_until`. -/
structure LeasedRow where
  jobName : String
  leaseUntil : Nat
  claimedUntil : Nat
  deriving DecidableEq, Repr

/-- The sweeper may revoke it, or anybody claim it. -/
def LeasedRow.Lapsed (r : LeasedRow) (now : Nat) : Prop := r.leaseUntil < now ∨ r.claimedUntil < now

/-- A session and its worker. -/
structure Beating where
  now : Nat := 0
  lastBeat : Nat := 0
  rows : List LeasedRow := []

inductive BeatAct where
  /-- Time passes, but not past the next heartbeat. -/
  | wait (d : Nat)
  /-- `handleHeartbeat` for all rows in flight, and the flush of `runLeaseProcessor`. -/
  | beat
  /-- `drainOnce`, to the session. -/
  | dispatch (jobName : String)
  | finish (r : LeasedRow)

variable (budget : Nat) (ir : JobIR) (jobNames : List String)

/-- One step. -/
def Beating.step (s : Beating) : BeatAct → Option Beating
  | .wait d =>
    if s.now + d ≤ s.lastBeat + advisedInterval budget then some { s with now := s.now + d } else none
  | .beat =>
    if s.now = s.lastBeat + advisedInterval budget then
      some { s with
        lastBeat := s.now
        rows := s.rows.map fun r =>
          let dur := leaseDurFor ir jobNames r.jobName budget
          { r with leaseUntil := s.now + dur, claimedUntil := s.now + dur / 1000000 * 1000000 } }
    else none
  | .dispatch jobName =>
    if jobName ∈ jobNames then
      -- the claim writes the budget; another lease is written over it
      let until_ := s.now + leaseDurFor ir jobNames jobName budget
      some { s with rows := ⟨jobName, until_, until_⟩ :: s.rows }
    else none
  | .finish r => if r ∈ s.rows then some { s with rows := s.rows.erase r } else none

/-- The session, from its registration on. -/
def beatMachine : Machine Beating BeatAct := ⟨(· = {}), Beating.step budget ir jobNames⟩

/-- The heartbeat comes before any lease is over. -/
structure Beating.Kept (s : Beating) : Prop where
  due : s.now ≤ s.lastBeat + advisedInterval budget
  past : s.lastBeat ≤ s.now
  leases : ∀ r ∈ s.rows, s.lastBeat + advisedInterval budget ≤ r.leaseUntil ∧
    s.lastBeat + advisedInterval budget ≤ r.claimedUntil

variable {budget ir jobNames}

theorem Beating.Kept.step {s t : Beating} {a : BeatAct}
    (hlease : ∀ jobName, advisedInterval budget ≤
      leaseDurFor ir jobNames jobName budget / 1000000 * 1000000)
    (hs : s.Kept budget) (h : s.step budget ir jobNames a = some t) : t.Kept budget := by
  have hdue := hs.due
  have hpast := hs.past
  cases a with
  | wait d =>
    simp only [Beating.step] at h
    split at h <;> cases h
    exact ⟨by assumption, by dsimp only; omega, hs.leases⟩
  | beat =>
    simp only [Beating.step] at h
    split at h <;> cases h
    refine ⟨Nat.le_add_right .., Nat.le_refl _, fun r hr => ?_⟩
    obtain ⟨r₀, -, rfl⟩ := List.mem_map.mp hr
    have hle := hlease r₀.jobName
    constructor <;> dsimp only <;> omega
  | dispatch jobName =>
    simp only [Beating.step] at h
    split at h <;> cases h
    refine ⟨hdue, hpast, fun r hr => ?_⟩
    rcases List.mem_cons.mp hr with rfl | hr
    · have hle := hlease jobName
      constructor <;> dsimp only <;> omega
    · exact hs.leases r hr
  | finish r =>
    simp only [Beating.step] at h
    split at h <;> cases h
    exact ⟨hdue, hpast, fun r' hr' => hs.leases r' (List.mem_of_mem_erase hr')⟩

/-- The lease of a job that declares a heartbeat. -/
theorem leaseDurFor_declared {job : Custom.Job} (hjob : job ∈ ir.jobs) (hhandled : job.id ∈ jobNames)
    (hpos : 0 < job.heartbeatMS) {d : Int} (hd : msDuration job.heartbeatMS = d) (hlong : 0 < d) :
    leaseDurFor ir jobNames job.id budget = d.toNat := by
  unfold leaseDurFor perJobHeartbeat
  rw [JobIR.find hjob, Option.bind_some, if_pos ⟨hpos, hhandled⟩, hd]
  exact if_pos hlong

/-- A row that is dispatched right after a heartbeat waits for the next. -/
theorem lapses_of_short {job : Custom.Job} (hjob : job ∈ ir.jobs) (hhandled : job.id ∈ jobNames) (hpos : 0 < job.heartbeatMS)
    {d : Int} (hd : msDuration job.heartbeatMS = d) (hlong : 0 < d) (hshort : d < advisedInterval budget) :
    ∃ s, (beatMachine budget ir jobNames).Reachable s ∧ ∃ r ∈ s.rows, r.Lapsed s.now := by
  let row : LeasedRow := ⟨job.id, 0 + leaseDurFor ir jobNames job.id budget,
    0 + leaseDurFor ir jobNames job.id budget⟩
  have hdispatch : (beatMachine budget ir jobNames).step {} (.dispatch job.id) = some { rows := [row] } :=
    if_pos hhandled
  have hwait : (beatMachine budget ir jobNames).step { rows := [row] }
      (.wait (advisedInterval budget)) =
        some { now := 0 + advisedInterval budget, rows := [row] } := if_pos (Nat.le_refl _)
  refine ⟨_, ((Machine.Reach.initial rfl).next _ trivial hdispatch).next _ trivial hwait, row, List.mem_cons_self, .inl ?_⟩
  show 0 + leaseDurFor ir jobNames job.id budget < 0 + advisedInterval budget
  rw [leaseDurFor_declared hjob hhandled hpos hd hlong]
  omega

/-- **The declared heartbeat is no shorter than the interval.** Beyond the range of `int64`, where the product wraps, the
    lease is what is left of it, or the budget if that is not positive. -/
def LongEnough (budget : Nat) (job : Custom.Job) : Prop :=
  if job.heartbeatMS * 1000000 < 2 ^ 63 then budget / 1000000 / 3 ≤ job.heartbeatMS
  else msDuration job.heartbeatMS ≤ 0 ∨ advisedInterval budget ≤ msDuration job.heartbeatMS

theorem longEnough_iff {job : Custom.Job} (hpos : 0 < job.heartbeatMS) : LongEnough budget job ↔
    msDuration job.heartbeatMS ≤ 0 ∨ advisedInterval budget ≤ msDuration job.heartbeatMS := by
  unfold LongEnough
  split
  · rename_i hfits
    rw [msDuration_eq hfits]
    unfold advisedInterval
    omega
  · exact Iff.rfl

/-- **The advised heartbeats keep all leases exactly if no job of the session declares less than the interval.** -/
theorem leases_kept_iff (configured : Int) (ir : JobIR) (jobNames : List String) :
    (∀ s, (beatMachine (heartbeatBudget configured) ir jobNames).Reachable s → ∀ r ∈ s.rows, ¬ r.Lapsed s.now) ↔
      ∀ job ∈ ir.jobs, job.id ∈ jobNames → 0 < job.heartbeatMS → LongEnough (heartbeatBudget configured) job := by
  constructor
  · intro h job hjob hhandled hpos
    rw [longEnough_iff hpos]
    by_contra hshort
    obtain ⟨hlong, hshort⟩ := not_or.mp hshort
    obtain ⟨s, hs, r, hr, hlapsed⟩ :=
      lapses_of_short hjob hhandled hpos rfl (not_le.mp hlong) (not_le.mp hshort)
    exact h s hs r hr hlapsed
  · intro h s hs r hr hlapsed
    have hkept : s.Kept (heartbeatBudget configured) := by
      refine hs.invariant (fun s hs => ?_) fun s a t hs _ hstep => hs.step (fun jobName => ?_) hstep
      · cases hs
        exact ⟨Nat.zero_le _, Nat.le_refl _, fun r hr => by cases hr⟩
      -- a lease is no shorter than the interval, in milliseconds
      unfold leaseDurFor advisedInterval
      cases hper : perJobHeartbeat ir jobNames jobName with
      | none =>
        dsimp only
        omega
      | some dur =>
        obtain ⟨job, hfind, hif⟩ := Option.bind_eq_some_iff.mp hper
        obtain ⟨hcond, hdur⟩ := Option.ite_none_right_eq_some.mp hif
        obtain rfl := Option.some.inj hdur
        have hlong := (longEnough_iff hcond.1).mp (h job (List.mem_of_find?_eq_some hfind) hcond.2 hcond.1)
        unfold advisedInterval at hlong
        dsimp only
        split <;> omega
    have hleases := hkept.leases r hr
    have hdue := hkept.due
    unfold LeasedRow.Lapsed at hlapsed
    omega

/-- A job with a heartbeat. -/
def pinged (heartbeatMS : Nat) : JobIR := ⟨[{ name := "Ping", namespace_ := "shop", heartbeatMS }], List.nodup_singleton _⟩

/-- With the default budget, `heartbeat 30s` is over long before the first heartbeat, after 100 s. So is `heartbeat
    18446744074s`, a lease of 290448384 ns. -/
theorem short_heartbeat_lapses :
    (∃ s, (beatMachine (heartbeatBudget 0) (pinged 30000) ["shop.Ping"]).Reachable s ∧ ∃ r ∈ s.rows, r.Lapsed s.now) ∧
      ∃ s, (beatMachine (heartbeatBudget 0) (pinged 18446744074000) ["shop.Ping"]).Reachable s ∧
        ∃ r ∈ s.rows, r.Lapsed s.now := by
  constructor
  · exact lapses_of_short List.mem_cons_self (List.mem_singleton.mpr rfl) (by decide)
      (show msDuration 30000 = 30000000000 by decide) (by decide) (by decide)
  · exact lapses_of_short List.mem_cons_self (List.mem_singleton.mpr rfl) (by decide)
      (show msDuration 18446744074000 = 290448384 by decide) (by decide) (by decide)

end Atlantis.Jobs
