import Atlantis.Cache.BumpWorker

/-!
# `Cache.OutboxRows` — where the rows of the outbox go

`drainOnce`, `processRow` and `SweepOldRows` of `internal/cache/invalidate/worker.go`, on the two tables of the outbox. A
drain loop claims rows under locks, applies them one by one, and runs one statement for each of them in the transaction
of the claim. A panic counts as a failure. The error of a statement is only logged, but the transaction is aborted by it.

A commit deletes the rows that were applied and moves those that failed too often to the dead letters, and takes no other
row away (`foldlM_processRow`). The sweep next to it asks for the age of a row and for nothing else. It is documented to
remove settled rows, but those the drain loops have deleted themselves: each row that it takes is lost
(`rows_settle_iff`).
-/

namespace Atlantis.Outbox

open Cache Lib

/-! ## Statements -/

/-- A row of `cache_invalidations`; `payload` is what `apply` reads of it. Times are in nanoseconds. -/
structure OutboxRow (P : Type) where
  payload : P
  enqueuedAt : Int
  attempts : Nat := 0
  lastError : String := ""
  deriving DecidableEq, Repr

/-- `cache_invalidations` and `cache_invalidations_dead`, by their primary keys. -/
structure Tables (P : Type) where
  rows : Nat → Option (OutboxRow P) := fun _ => none
  dead : Nat → Option (OutboxRow P) := fun _ => none

/-- What `apply` came to. -/
inductive Applied where
  | success
  | failure (timeout : Bool)
  | panic
  deriving DecidableEq, Repr

/-- `sanitizeError`. -/
def Applied.sanitizeError : Applied → String
  | .success => ""
  | .failure true => "timeout"
  | .failure false | .panic => "apply_failed"

variable {P : Type} (cfg : WorkerConfig)

/-- `deleteInTx`. -/
def deleteInTx (db : Tables P) (id : Nat) : Tables P := { db with rows := Function.update db.rows id none }

/-- `moveToDLQInTx`; a dead letter with the id is a conflict. -/
def moveToDLQInTx (db : Tables P) (id : Nat) (msg : String) : Option (Tables P) :=
  match db.rows id with
  | none => some db
  | some r =>
    if (db.dead id).isSome then none
    else some
      { rows := Function.update db.rows id none
        dead := Function.update db.dead id (some { r with attempts := r.attempts + 1, lastError := msg }) }

/-- `markFailureInTx`, for a row as it was claimed. -/
def markFailureInTx (db : Tables P) (id : Nat) (r : OutboxRow P) (msg : String) : Option (Tables P) :=
  if (r.attempts : Int) + 1 ≥ cfg.maxAttempts then moveToDLQInTx db id msg
  else
    let failed := (db.rows id).map fun x => { x with attempts := x.attempts + 1, lastError := msg }
    some { db with rows := Function.update db.rows id failed }

/-- The statement `processRow` runs for a row; `none` is an error. -/
def processRow (db : Tables P) : Nat × OutboxRow P × Applied → Option (Tables P)
  | (id, _, .success) => some (deleteInTx db id)
  | (id, r, out) => markFailureInTx cfg db id r out.sanitizeError

/-! ## Runs -/

/-- An open transaction of a drain loop: the claimed rows, those already applied, and whether a statement has failed. -/
structure Drain (P : Type) where
  todo : List (Nat × OutboxRow P)
  done : List (Nat × OutboxRow P × Applied) := []
  aborted : Bool := false

structure State (P : Type) where
  now : Int := 0
  nextID : Nat := 0
  db : Tables P := {}
  drains : List (Drain P) := []

inductive Action (P : Type) where
  | tick (elapsed : Nat)
  /-- A transaction with a row commits. -/
  | enqueue (payload : P) (enqueuedAt : Int)
  /-- `claimInTx`, with the rows it gets. -/
  | claim (ids : List Nat)
  /-- The next row of a drain loop is applied; its statement may fail. -/
  | process (d : Nat) (out : Applied) (ok : Bool)
  | commit (d : Nat) (ok : Bool)
  /-- The drain loop dies, and its transaction is rolled back. -/
  | abandon (d : Nat)
  /-- `SweepOldRows`, with the rows its statement sees. -/
  | sweep (olderThan : Int) (seen : List Nat) (ok : Bool)

/-- The rows that are locked. -/
def State.locked (s : State P) : List Nat := s.drains.flatMap fun t => t.todo.map Prod.fst ++ t.done.map Prod.fst

/-- The `WHERE` of the sweep, whose interval is in whole seconds. -/
def State.expired (s : State P) (olderThan : Int) (id : Nat) : Bool :=
  (s.db.rows id).any fun r => decide (r.enqueuedAt < s.now - olderThan / 1000000000 * 1000000000)

/-- `SweepOldRows`. A statement that finds a row locked waits. -/
def SweepOldRows (s : State P) (olderThan : Int) (seen : List Nat) (ok : Bool) : Option (State P) :=
  if olderThan < 60000000000 ∨ ok = false then some s
  else if ∀ id ∈ seen, s.expired olderThan id = true → id ∉ s.locked then
    some { s with db := { s.db with
      rows := fun id => if id ∈ seen ∧ s.expired olderThan id = true then none else s.db.rows id } }
  else none

/-- What is left of the tables when the transaction of a drain loop ends with `Commit`. -/
def Drain.commit (t : Drain P) (ok : Bool) (db : Tables P) : Tables P :=
  if t.aborted = true ∨ ok = false then db else (t.done.foldlM (processRow cfg) db).getD db

/-- One step. Which rows a claim gets of those that are not locked (the backoff, the order, the limit) is left open. -/
def step (s : State P) : Action P → Option (State P)
  | .tick elapsed => some { s with now := s.now + elapsed }
  | .enqueue payload enqueuedAt =>
    some { s with
      db := { s.db with rows := Function.update s.db.rows s.nextID (some { payload, enqueuedAt }) }
      nextID := s.nextID + 1 }
  | .claim ids =>
    if ids.Nodup ∧ ∀ id ∈ ids, id ∉ s.locked then do
      let todo ← ids.mapM fun id => (s.db.rows id).map (id, ·)
      some { s with drains := s.drains ++ [{ todo }] }
    else none
  | .process d out ok =>
    match s.drains[d]? with
    | some ⟨(id, r) :: todo, done, aborted⟩ =>
      some { s with drains := s.drains.set d ⟨todo, done ++ [(id, r, out)], aborted || !ok⟩ }
    | _ => none
  | .commit d ok =>
    match s.drains[d]? with
    | some ⟨[], done, aborted⟩ =>
      some { s with db := Drain.commit cfg ⟨[], done, aborted⟩ ok s.db, drains := s.drains.eraseIdx d }
    | _ => none
  | .abandon d => some { s with drains := s.drains.eraseIdx d }
  | .sweep olderThan seen ok => SweepOldRows s olderThan seen ok

def machine : Machine (State P) (Action P) where
  initial s := s = {}
  step := step cfg

/-- The row leaves with the commit of a drain loop that applied it, or that makes a dead letter of it. -/
def Settled (s : State P) (a : Action P) (s' : State P) (id : Nat) (r : OutboxRow P) : Prop :=
  ∃ d done, a = .commit d true ∧ s.drains[d]? = some ⟨[], done, false⟩ ∧
    ((∃ r', (id, r', .success) ∈ done) ∨
      s.db.dead id = none ∧ ∃ x, s'.db.dead id = some x ∧ x.payload = r.payload)

/-- **No row is lost** in a step. -/
def RowsSettle (s : State P) (a : Action P) (s' : State P) : Prop :=
  ∀ id r, s.db.rows id = some r → s'.db.rows id = none → Settled s a s' id r

/-- The step is no sweep that sees a row it takes for old. -/
def SweepsNothing (s : State P) (a : Action P) : Prop :=
  ∀ olderThan seen, a = .sweep olderThan seen true → 60000000000 ≤ olderThan →
    ∀ id ∈ seen, s.expired olderThan id = false

/-! ## What a commit takes away -/

variable {cfg} {db db' : Tables P} {e : Nat × OutboxRow P × Applied}
  {done : List (Nat × OutboxRow P × Applied)} {id : Nat} {r x : OutboxRow P}

/-- What the statement for a row does: other rows stay, and so do dead letters; the row is deleted as applied, gets a new
    error, or becomes a dead letter. -/
theorem processRow_ok {id' : Nat} {out : Applied} (h : processRow cfg db (id', r, out) = some db') :
    (∀ id ≠ id', db'.rows id = db.rows id ∧ db'.dead id = db.dead id) ∧
      (db'.dead id' = db.dead id' ∧
          (out = .success ∨ ∃ g : OutboxRow P → OutboxRow P, (∀ x, (g x).payload = x.payload) ∧
            db'.rows id' = (db.rows id').map g) ∨
        db.dead id' = none ∧ ∃ x y, db.rows id' = some x ∧ db'.dead id' = some y ∧ y.payload = x.payload) := by
  by_cases hout : out = .success
  · subst hout
    cases h
    exact ⟨fun _ hne => ⟨Function.update_of_ne hne .., rfl⟩, .inl ⟨rfl, .inl rfl⟩⟩
  · have hfail : markFailureInTx cfg db id' r out.sanitizeError = some db' := by
      cases out with
      | success => exact absurd rfl hout
      | failure _ | panic => exact h
    unfold markFailureInTx moveToDLQInTx at hfail
    split at hfail
    · split at hfail
      · cases hfail
        exact ⟨fun _ _ => ⟨rfl, rfl⟩, .inl ⟨rfl, .inr ⟨id, fun _ => rfl, (congrFun Option.map_id _).symm⟩⟩⟩
      · rename_i x hx
        obtain ⟨hfree, hfail⟩ := Option.ite_none_left_eq_some.mp hfail
        cases hfail
        refine ⟨fun _ hne => ⟨Function.update_of_ne hne .., Function.update_of_ne hne ..⟩, .inr ⟨by simpa using hfree, ?_⟩⟩
        exact ⟨x, _, hx, Function.update_self .., rfl⟩
    · cases hfail
      refine ⟨fun _ hne => ⟨Function.update_of_ne hne .., rfl⟩, .inl ⟨rfl, .inr ⟨_, ?_, Function.update_self ..⟩⟩⟩
      exact fun _ => rfl

/-- Dead letters stay. -/
theorem foldlM_dead (h : done.foldlM (processRow cfg) db = some db') (hx : db.dead id = some x) : db'.dead id = some x := by
  induction done generalizing db with
  | nil =>
    cases h
    exact hx
  | cons e done ih =>
    obtain ⟨db₁, h₁, h⟩ := Option.bind_eq_some_iff.mp h
    refine ih h ?_
    obtain ⟨hother, hown⟩ := processRow_ok h₁
    by_cases hid : id = e.1
    · rcases hid ▸ hown with ⟨hdead, _⟩ | ⟨hfree, _⟩
      · rw [hdead, hx]
      · rw [hfree] at hx
        cases hx
    · rw [(hother id hid).2, hx]

/-- **A commit takes away what was applied, and what becomes a dead letter.** -/
theorem foldlM_processRow (h : done.foldlM (processRow cfg) db = some db') (hr : db.rows id = some r)
    (hnone : db'.rows id = none) : (∃ r', (id, r', .success) ∈ done) ∨
      db.dead id = none ∧ ∃ x, db'.dead id = some x ∧ x.payload = r.payload := by
  induction done generalizing db r with
  | nil =>
    cases h
    rw [hr] at hnone
    cases hnone
  | cons e done ih =>
    obtain ⟨db₁, h₁, hrest⟩ := Option.bind_eq_some_iff.mp h
    obtain ⟨id', r', out⟩ := e
    obtain ⟨hother, hown⟩ := processRow_ok h₁
    by_cases hid : id = id'
    · subst hid
      rcases hown with ⟨hdead, rfl | ⟨g, hg, hrow⟩⟩ | ⟨hfree, x, y, hx, hy, hpayload⟩
      · exact .inl ⟨r', List.mem_cons_self⟩
      · rw [hr] at hrow
        rw [← hdead, ← hg r]
        exact (ih hrest hrow).imp_left fun ⟨r', hmem⟩ => ⟨r', List.mem_cons_of_mem _ hmem⟩
      · cases hr.symm.trans hx
        exact .inr ⟨hfree, y, foldlM_dead hrest hy, hpayload⟩
    · rw [← (hother id hid).2]
      exact (ih hrest ((hother id hid).1.trans hr)).imp_left fun ⟨r', hmem⟩ => ⟨r', List.mem_cons_of_mem _ hmem⟩

/-- **Rows are lost to the sweep, and to nothing else.** In every state a row that leaves the outbox has been applied
    successfully or becomes a dead letter with the same commit, exactly if the step is no sweep that sees an old row. -/
theorem rows_settle_iff {P : Type} {cfg : WorkerConfig} {s s' : State P} {a : Action P} (hstep : step cfg s a = some s') :
    RowsSettle s a s' ↔ SweepsNothing s a := by
  constructor
  · -- what the sweep takes leaves with no commit
    rintro h olderThan seen rfl hage id hid
    by_contra hfresh
    have hold : s.expired olderThan id = true := by simpa using hfresh
    cases hr : s.db.rows id with
    | none =>
      unfold State.expired at hold
      rw [hr] at hold
      cases hold
    | some r =>
      have hsweep : SweepOldRows s olderThan seen true = some s' := hstep
      unfold SweepOldRows at hsweep
      rw [if_neg (by simpa using hage)] at hsweep
      split at hsweep
      · cases hsweep
        obtain ⟨d, done, hcommit, _⟩ := h id r hr (if_pos ⟨hid, hold⟩)
        cases hcommit
      · cases hsweep
  · intro h id r hr hnone
    have hsame : s'.db.rows id = s.db.rows id → Settled s a s' id r := by
      intro heq
      rw [heq, hr] at hnone
      cases hnone
    cases a with
    | tick _ | abandon _ =>
      cases hstep
      exact hsame rfl
    | enqueue payload enqueuedAt =>
      cases hstep
      by_cases hid : id = s.nextID
      · rw [hid] at hnone
        simp at hnone
      · exact hsame (Function.update_of_ne hid ..)
    | claim ids =>
      obtain ⟨_, hstep⟩ := Option.ite_none_right_eq_some.mp hstep
      obtain ⟨todo, _, hstep⟩ := Option.bind_eq_some_iff.mp hstep
      cases hstep
      exact hsame rfl
    | process d out ok =>
      simp only [step] at hstep
      split at hstep
      · cases hstep
        exact hsame rfl
      · cases hstep
    | commit d ok =>
      simp only [step] at hstep
      split at hstep
      swap
      · cases hstep
      rename_i done aborted hd
      cases hstep
      by_cases hout : aborted = true ∨ ok = false
      · exact hsame (by simp only [Drain.commit, if_pos hout])
      · obtain ⟨rfl, rfl⟩ : aborted = false ∧ ok = true := by simpa using hout
        refine ⟨d, done, rfl, hd, ?_⟩
        simp only [Drain.commit, if_neg hout] at hnone ⊢
        cases hfold : done.foldlM (processRow cfg) s.db with
        | none =>
          rw [hfold, Option.getD_none, hr] at hnone
          cases hnone
        | some db' =>
          rw [hfold] at hnone
          exact foldlM_processRow hfold hr hnone
    | sweep olderThan seen ok =>
      have hsweep : SweepOldRows s olderThan seen ok = some s' := hstep
      unfold SweepOldRows at hsweep
      split at hsweep
      · cases hsweep
        exact hsame rfl
      · rename_i hrun
        obtain ⟨hage, rfl⟩ : 60000000000 ≤ olderThan ∧ ok = true := by simpa using hrun
        split at hsweep
        · cases hsweep
          refine hsame (if_neg ?_)
          rintro ⟨hid, hold⟩
          rw [h olderThan seen rfl hage id hid] at hold
          cases hold
        · cases hsweep

/-- One row, a run of one drain loop over it, and two hours. -/
def drained (out : Applied) : List (Action String) :=
  [.enqueue "shop.Order" 0, .claim [0], .process 0 out true, .tick 7200000000000]

/-- **The sweep deletes a row that is still to be applied**: its one attempt has failed, and it is no dead letter. -/
theorem unsettled_row_swept : ∃ s s' : State String, (machine (NewWorker {})).Reachable s ∧
    step (NewWorker {}) s (.sweep 3600000000000 [0] true) = some s' ∧
    s.db.rows 0 = some ⟨"shop.Order", 0, 1, "apply_failed"⟩ ∧ ¬ RowsSettle s (.sweep 3600000000000 [0] true) s' := by
  obtain ⟨s, hrun, s', hstep, hr, hr'⟩ :
      ∃ s, (machine (NewWorker {})).run {} (drained (.failure false) ++ [.commit 0 true]) = some s ∧
        ∃ s', step (NewWorker {}) s (.sweep 3600000000000 [0] true) = some s' ∧
          s.db.rows 0 = some ⟨"shop.Order", 0, 1, "apply_failed"⟩ ∧ s'.db.rows 0 = none := by decide +kernel
  refine ⟨s, s', Machine.reachable_of_run (.initial rfl) hrun, hstep, hr, fun h => ?_⟩
  obtain ⟨_, _, hcommit, _⟩ := h 0 _ hr hr'
  cases hcommit

/-- A row that is applied leaves with the commit. -/
theorem rows_settle_applied : ∃ s s' : State String, (machine (NewWorker {})).Reachable s ∧ s.db.rows 0 ≠ none ∧
    s'.db.rows 0 = none ∧ RowsSettle s (.commit 0 true) s' := by
  obtain ⟨s, hrun, s', hstep, hr, hr'⟩ : ∃ s, (machine (NewWorker {})).run {} (drained .success) = some s ∧
      ∃ s', step (NewWorker {}) s (.commit 0 true) = some s' ∧ s.db.rows 0 ≠ none ∧ s'.db.rows 0 = none := by
    decide +kernel
  refine ⟨s, s', Machine.reachable_of_run (.initial rfl) hrun, hr, hr', (rows_settle_iff hstep).mpr ?_⟩
  intro olderThan seen heq
  cases heq

end Atlantis.Outbox
