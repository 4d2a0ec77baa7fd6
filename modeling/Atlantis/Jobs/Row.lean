import Mathlib.Algebra.Order.Group.Int

/-!
# `Jobs.Row` — a row of `atlantis.jobs` and the statements that write it

`clients/go/jobs/sql.go`, the one `UPDATE` of `reportTransientFailure` (`runner.go`) and the one of
`bindClaimToSession` (`dispatcher.go`). A statement is a function from the row it addresses to the row it leaves,
with the `WHERE` conditions beyond `id = …` as part of the function.

Which statements look at `claimed_by` is what the rest of the development turns on: `extendLease` and `releaseRow`
do, `markComplete`, `backToPending`, `moveToDLQ`, `noteError` and `bindClaimToSession` address the row by its id
alone.

Times are milliseconds of one clock that the database and the processes are taken to share.
-/

namespace Atlantis.Jobs

/-- `status`. -/
inductive Status where
  | pending | running | complete | failed
  deriving DecidableEq, Repr

/-- `worker_kind`. -/
inductive WorkerKind where
  | directPG | dispatched
  deriving DecidableEq, Repr

/-- The columns of `atlantis.jobs` that the statements read or write. -/
structure Row where
  queue : String
  jobName : String
  status : Status := .pending
  attempts : Nat := 0
  maxRetries : Int
  scheduledFor : Int
  claimedBy : Option String := none
  claimedUntil : Option Int := none
  startedAt : Option Int := none
  completedAt : Option Int := none
  lastError : Option String := none
  lastErrorAt : Option Int := none
  workerKind : Option WorkerKind := none
  workerSessionID : Option String := none
  deriving DecidableEq, Repr

/-- A row of `atlantis.jobs_dead`. -/
structure DeadRow where
  queue : String
  jobName : String
  attempts : Nat
  maxRetries : Int
  lastError : String
  lastErrorAt : Int
  deriving DecidableEq, Repr

/-- `GREATEST(max_retries, 1)`. -/
def Row.retryBudget (r : Row) : Int := max r.maxRetries 1

/-- No lease, or one that has run out. -/
def Row.LeaseFree (now : Int) (r : Row) : Prop := ∀ u ∈ r.claimedUntil, u < now

instance (now : Int) (r : Row) : Decidable (r.LeaseFree now) := inferInstanceAs (Decidable (∀ u ∈ r.claimedUntil, u < now))

/-- The `WHERE` of `buildClaimSQL`; no names means no filter. -/
def Row.Claimable (now : Int) (queue : String) (names : List String) (r : Row) : Prop :=
  r.queue = queue ∧ r.scheduledFor ≤ now ∧ (r.attempts : Int) < r.retryBudget ∧
    (r.status = .pending ∨ (r.status = .running ∧ r.LeaseFree now)) ∧ (names = [] ∨ r.jobName ∈ names)

instance (now : Int) (queue : String) (names : List String) (r : Row) : Decidable (r.Claimable now queue names) :=
  inferInstanceAs (Decidable (_ ∧ _ ∧ _ ∧ _ ∧ _))

/-- The five minutes of `SweepExhaustedToDLQ`. -/
def sweepGrace : Int := 5 * 60 * 1000

/-- The `WHERE` of `SweepExhaustedToDLQ`. -/
def Row.Sweepable (now : Int) (queue : String) (r : Row) : Prop :=
  r.queue = queue ∧ r.retryBudget ≤ r.attempts ∧
    (r.status = .pending ∨ (r.status = .running ∧ ∃ u ∈ r.claimedUntil, u < now - sweepGrace))

instance (now : Int) (queue : String) (r : Row) : Decidable (r.Sweepable now queue) :=
  inferInstanceAs (Decidable (_ ∧ _ ∧ (_ ∨ (_ ∧ ∃ u ∈ r.claimedUntil, _))))

namespace Row

/-- The `UPDATE` of `buildClaimSQL`; an empty session id is stored as `NULL`. -/
def claim (now : Int) (claimedBy : String) (leaseUntil : Int) (kind : WorkerKind) (sessionID : String) (r : Row) :
    Row :=
  { r with
    status := .running
    attempts := r.attempts + 1
    claimedBy := some claimedBy
    claimedUntil := some leaseUntil
    startedAt := some (r.startedAt.getD now)
    workerKind := some kind
    workerSessionID := if sessionID = "" then none else some sessionID }

/-- `ExtendLease`. -/
def extendLease (now : Int) (claimedBy : String) (leaseExtension : Int) (r : Row) : Row :=
  if r.claimedBy = some claimedBy then { r with claimedUntil := some (now + leaseExtension) } else r

/-- `MarkComplete`. -/
def markComplete (now : Int) (r : Row) : Row :=
  { r with
    status := .complete
    completedAt := some now
    claimedBy := none
    claimedUntil := none
    workerSessionID := none }

/-- The `UPDATE` that `ReportFailure` and `ReleaseRow` share. -/
def backToPending (now : Int) (lastError : String) (r : Row) : Row :=
  { r with
    status := .pending
    lastError := some lastError
    lastErrorAt := some now
    claimedBy := none
    claimedUntil := none
    workerSessionID := none }

/-- `ReleaseRow`. -/
def releaseRow (now : Int) (claimedBy reason : String) (r : Row) : Row :=
  if r.claimedBy = some claimedBy then r.backToPending now ("released:" ++ reason) else r

/-- The `UPDATE` of `reportTransientFailure`. -/
def noteError (now : Int) (lastError : String) (r : Row) : Row :=
  { r with lastError := some lastError, lastErrorAt := some now }

/-- `bindClaimToSession`. -/
def bindClaimToSession (claimedBy sessionID : String) (r : Row) : Row :=
  { r with claimedBy := some claimedBy, workerSessionID := some sessionID }

/-- What `MoveToDLQ` and `SweepExhaustedToDLQ` keep of a row. -/
def toDead (now : Int) (lastError : String) (r : Row) : DeadRow :=
  { queue := r.queue, jobName := r.jobName, attempts := r.attempts, maxRetries := r.maxRetries,
    lastError := lastError, lastErrorAt := now }

/-! ## What the guarded statements do -/

variable {now ext : Int} {name : String} {r : Row}

theorem extendLease_of_ne (h : r.claimedBy ≠ some name) : r.extendLease now name ext = r := by
  unfold extendLease
  rw [if_neg h]

theorem releaseRow_of_ne {reason : String} (h : r.claimedBy ≠ some name) : r.releaseRow now name reason = r := by
  unfold releaseRow
  rw [if_neg h]

@[simp] theorem claimedBy_extendLease : (r.extendLease now name ext).claimedBy = r.claimedBy := by
  unfold extendLease
  split <;> rfl

@[simp] theorem status_extendLease : (r.extendLease now name ext).status = r.status := by
  unfold extendLease
  split <;> rfl

/-- A lease that runs is not free. -/
theorem not_leaseFree {u : Int} (hu : r.claimedUntil = some u) (h : now ≤ u) : ¬ r.LeaseFree now := by
  intro hfree
  have := hfree u hu
  omega

end Row

/-! ## The two tables, seen from one id -/

/-- The row of one id: in `atlantis.jobs`, in `atlantis.jobs_dead`, or in neither. -/
structure Store where
  live : Option Row
  dead : Option DeadRow := none
  deriving DecidableEq, Repr

namespace Store

/-- An `UPDATE … WHERE id = $1`. -/
def update (s : Store) (f : Row → Row) : Store := { s with live := s.live.map f }

/-- `MoveToDLQ`, in one transaction. -/
def moveToDLQ (now : Int) (errMsg : String) (s : Store) : Store :=
  match s.live with
  | some r => { live := none, dead := some (r.toDead now errMsg) }
  | none => s

/-- `ReportFailure`. -/
def reportFailure (now : Int) (attempts : Nat) (maxRetries : Int) (errMsg : String) (s : Store) : Store :=
  if maxRetries ≤ attempts then s.moveToDLQ now errMsg else s.update (Row.backToPending now errMsg)

/-- `SweepExhaustedToDLQ`, for the row. -/
def sweepExhausted (now : Int) (queue : String) (s : Store) : Store :=
  match s.live with
  | some r => if r.Sweepable now queue then s.moveToDLQ now "retries exhausted (swept)" else s
  | none => s

/-- `lookupAttempts`; no row is an error. -/
def lookupAttempts (s : Store) : Option (Nat × Int) := s.live.map fun r => (r.attempts, r.maxRetries)

end Store

end Atlantis.Jobs
