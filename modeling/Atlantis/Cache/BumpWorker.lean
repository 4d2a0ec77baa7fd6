import Mathlib.Data.List.Sort
import Atlantis.Lib.Machine

/-!
# `Cache.BumpWorker` — the outbox worker's debouncer

`internal/cache/invalidate/worker.go`, for the rows of kind `generation_bump`. Several drain loops, of one worker or of
several, claim rows in a transaction, apply them one by one and commit. A bump attempt and its outcome are separate
steps, so that everything else may happen in between. `events` numbers the commits of rows and the starts of attempts:
an attempt covers the rows that were committed before it, if it succeeds.

A row that goes through an attempt of its own is covered, because only committed rows are claimed. A row that is
debounced is consumed on the strength of the last attempt's time alone, and two things are wrong with that. The attempt
may have started before the row was committed. And it may have failed: the roll-back compares the record with the one
from before the attempt, which it has just overwritten, so that it is undone only if the entity had none
(`debounced_rows_uncovered`). Every handled row is covered in the runs where a debounced row finds an attempt on record
that started after the row's commit and has succeeded (`handled_covered`).
-/

namespace Atlantis.Cache

open Lib

/-- The part of `WorkerConfig` that is read here. Durations are in nanoseconds. -/
structure WorkerConfig where
  batchSize : Int := 0
  bumpDebounce : Int := 0
  maxAttempts : Int := 0
  deriving DecidableEq, Repr

/-- The defaults of `NewWorker`. -/
def NewWorker (cfg : WorkerConfig) : WorkerConfig where
  batchSize := if cfg.batchSize = 0 then 100 else cfg.batchSize
  bumpDebounce := if cfg.bumpDebounce = 0 then 100000000 else cfg.bumpDebounce
  maxAttempts := if cfg.maxAttempts ≤ 0 then 100 else cfg.maxAttempts

/-- `pendingRow`, with the event of its commit. -/
structure BumpRow where
  id : Nat
  entity : String
  enqueuedAt : Nat
  committedAt : Nat
  attempts : Nat := 0
  lastErrorAt : Option Nat := none
  deriving DecidableEq, Repr

/-- What the transaction does with a row it has processed. -/
inductive RowFate where
  | deleted | failed | dead
  deriving DecidableEq, Repr

/-- An entry of `lastBump`. The code keeps the time; the event says which attempt it was. -/
structure Attempt where
  time : Nat
  start : Nat
  deriving DecidableEq, Repr

/-- Where a drain loop is. -/
inductive DrainPhase where
  | idle
  | draining (todo : List BumpRow) (fates : List (BumpRow × RowFate))
  | bumping (row : BumpRow) (last : Option Attempt) (start : Nat) (todo : List BumpRow)
      (fates : List (BumpRow × RowFate))
  deriving DecidableEq, Repr

structure OutboxState where
  now : Nat
  events : Nat
  nextID : Nat
  outbox : List BumpRow
  locked : List Nat
  /-- The debounce record of each worker. -/
  lastBump : Nat → String → Option Attempt
  drainers : Nat → DrainPhase
  /-- The attempts that succeeded: the entity and the event of the start. -/
  succeeded : List (String × Nat)
  /-- The rows that left the outbox as handled. -/
  handled : List BumpRow

inductive OutboxAction where
  | tick (elapsed : Nat)
  /-- A transaction with a `generation_bump` row commits. -/
  | enqueue (entity : String) (enqueuedAt : Nat)
  | claim (d : Nat)
  | process (d : Nat)
  | bumped (d : Nat) (succeeded : Bool)
  | finish (d : Nat) (committed : Bool)
  /-- The drain loop dies, and its transaction is rolled back. -/
  | abandon (d : Nat)
  deriving DecidableEq, Repr

-- the configuration, whether there is a `GenerationBumper`, and the worker each drain loop belongs to
variable (cfg : WorkerConfig) (qc : Bool) (owner : Nat → Nat)

/-- Past its backoff: `LEAST(power(2, attempts) * 100ms, 1h)`. -/
def BumpRow.eligible (now : Nat) (r : BumpRow) : Bool :=
  match r.lastErrorAt with
  | none => true
  | some t => decide (t + min ((1 <<< r.attempts) * 100000000) 3600000000000 < now)

/-- `claimInTx`. A negative limit is an error. -/
def claimInTx (s : OutboxState) : List BumpRow :=
  if cfg.batchSize < 0 then []
  else ((s.outbox.filter fun r => r.eligible s.now && !s.locked.contains r.id).insertionSort
    fun a b => a.enqueuedAt ≤ b.enqueuedAt).take cfg.batchSize.toNat

/-- The entity has an attempt on record that is younger than `BumpDebounce`. -/
def debounced (now : Nat) (last : Option Attempt) : Bool :=
  last.any fun a => decide ((now : Int) - a.time < cfg.bumpDebounce)

/-- The choice of `markFailureInTx`. -/
def markFailure (r : BumpRow) : RowFate := if (r.attempts : Int) + 1 ≥ cfg.maxAttempts then .dead else .failed

def OutboxState.setDrainer (s : OutboxState) (d : Nat) (phase : DrainPhase) : OutboxState :=
  { s with drainers := Function.update s.drainers d phase }

def OutboxState.setLastBump (s : OutboxState) (w : Nat) (entity : String) (last : Option Attempt) : OutboxState :=
  { s with lastBump := Function.update s.lastBump w (Function.update (s.lastBump w) entity last) }

/-- The rows a phase holds locks on. -/
def DrainPhase.rows : DrainPhase → List BumpRow
  | .idle => []
  | .draining todo fates => todo ++ fates.map Prod.fst
  | .bumping row _ _ todo fates => row :: todo ++ fates.map Prod.fst

/-- The rows with a fate. -/
def withFate (fates : List (BumpRow × RowFate)) (fate : RowFate) : List BumpRow :=
  (fates.filter fun p => p.2 = fate).map Prod.fst

/-- The outbox after a commit: rows that were deleted or moved are gone, rows that failed have one more attempt. -/
def settle (now : Nat) (fates : List (BumpRow × RowFate)) (outbox : List BumpRow) : List BumpRow :=
  (outbox.filter fun r => !((withFate fates .deleted ++ withFate fates .dead).map BumpRow.id).contains r.id).map
    fun r =>
      if ((withFate fates .failed).map BumpRow.id).contains r.id then
        { r with attempts := r.attempts + 1, lastErrorAt := some now }
      else r

def OutboxState.unlock (s : OutboxState) (d : Nat) : OutboxState :=
  { s.setDrainer d .idle with
    locked := s.locked.filter fun id => !((s.drainers d).rows.map BumpRow.id).contains id }

/-- `processRow` up to the call of `BumpGeneration`. -/
def processRow (s : OutboxState) (d : Nat) (row : BumpRow) (todo : List BumpRow)
    (fates : List (BumpRow × RowFate)) : OutboxState :=
  if qc = false then s.setDrainer d (.draining todo (fates ++ [(row, .deleted)]))
  else if row.entity = "" then s.setDrainer d (.draining todo (fates ++ [(row, markFailure cfg row)]))
  else
    let last := s.lastBump (owner d) row.entity
    if debounced cfg s.now last then s.setDrainer d (.draining todo (fates ++ [(row, .deleted)]))
    else
      { (s.setLastBump (owner d) row.entity (some ⟨s.now, s.events⟩)).setDrainer d
          (.bumping row last s.events todo fates) with
        events := s.events + 1 }

/-- The roll-back after a failed attempt: `lastBump[entity].Equal(last) || !seen`, where a missing entry reads as the
    zero time. -/
def rollBack (s : OutboxState) (w : Nat) (entity : String) (last : Option Attempt) : OutboxState :=
  if (s.lastBump w entity).map Attempt.time = last.map Attempt.time ∨ last = none then s.setLastBump w entity none
  else s

def outboxStep (s : OutboxState) : OutboxAction → Option OutboxState
  | .tick elapsed => some { s with now := s.now + elapsed }
  | .enqueue entity enqueuedAt =>
    some { s with
      outbox := s.outbox ++ [{ id := s.nextID, entity, enqueuedAt, committedAt := s.events }]
      nextID := s.nextID + 1
      events := s.events + 1 }
  | .claim d =>
    match s.drainers d with
    | .idle =>
      some { s.setDrainer d (.draining (claimInTx cfg s) []) with
        locked := s.locked ++ (claimInTx cfg s).map BumpRow.id }
    | _ => none
  | .process d =>
    match s.drainers d with
    | .draining (row :: todo) fates => some (processRow cfg qc owner s d row todo fates)
    | _ => none
  | .bumped d succeeded =>
    match s.drainers d with
    | .bumping row last start todo fates =>
      if succeeded then
        some { s.setDrainer d (.draining todo (fates ++ [(row, .deleted)])) with
          succeeded := (row.entity, start) :: s.succeeded }
      else
        some ((rollBack s (owner d) row.entity last).setDrainer d
          (.draining todo (fates ++ [(row, markFailure cfg row)])))
    | _ => none
  | .finish d committed =>
    match s.drainers d with
    | .draining [] fates =>
      if committed then
        some { s.unlock d with
          outbox := settle s.now fates s.outbox
          handled := s.handled ++ withFate fates .deleted }
      else some (s.unlock d)
    | _ => none
  | .abandon d => some (s.unlock d)

/-- An empty outbox, and workers that have just been made. -/
def emptyOutbox : OutboxState where
  now := 0
  events := 0
  nextID := 0
  outbox := []
  locked := []
  lastBump _ _ := none
  drainers _ := .idle
  succeeded := []
  handled := []

def outboxMachine : Machine OutboxState OutboxAction where
  initial s := s = emptyOutbox
  step := outboxStep cfg qc owner

/-- Some bump for the row's entity that started after the row was committed has succeeded. -/
def Bumped (succeeded : List (String × Nat)) (r : BumpRow) : Prop :=
  ∃ start, (r.entity, start) ∈ succeeded ∧ r.committedAt < start

/-- **A handled row has been bumped for.** -/
def HandledBumped (s : OutboxState) : Prop := ∀ r ∈ s.handled, Bumped s.succeeded r

/-! ## Rows that are debounced away -/

/-- The state at the end of a run of one worker with the default configuration. -/
def defaultRun (as : List OutboxAction) : Option OutboxState :=
  (outboxMachine (NewWorker {}) true id).run emptyOutbox as

theorem not_handledBumped {s : OutboxState} (h : ∃ r ∈ s.handled, ∀ p ∈ s.succeeded, p.1 = r.entity → p.2 ≤ r.committedAt) :
    ¬ HandledBumped s := by
  obtain ⟨r, hr, hlate⟩ := h
  intro hall
  obtain ⟨start, hstart, hlt⟩ := hall r hr
  exact absurd (hlate _ hstart rfl) (Nat.not_le.mpr hlt)

/-- A row is committed right after a bump and consumed within the debounce interval. -/
def lateRow : List OutboxAction :=
  [.enqueue "app.Item" 0, .claim 0, .process 0, .bumped 0 true, .finish 0 true,
   .enqueue "app.Item" 0, .claim 0, .process 0, .finish 0 true]

/-- A second later two rows come in. The bump for the first one fails, and the second one is consumed without any. -/
def swallowedFailure : List OutboxAction :=
  [.enqueue "app.Item" 0, .claim 0, .process 0, .bumped 0 true, .finish 0 true,
   .tick 1000000000, .enqueue "app.Item" 1000000000, .enqueue "app.Item" 1000000000,
   .claim 0, .process 0, .bumped 0 false, .process 0, .finish 0 true]

/-- **Debounced rows may be uncovered**: the bump was too early, or it failed. -/
theorem debounced_rows_uncovered :
    (∃ s, defaultRun lateRow = some s ∧ ¬ HandledBumped s) ∧
    ∃ s, defaultRun swallowedFailure = some s ∧ ¬ HandledBumped s := by
  obtain ⟨s, hrun, hlate⟩ : ∃ s, defaultRun lateRow = some s ∧
      ∃ r ∈ s.handled, ∀ p ∈ s.succeeded, p.1 = r.entity → p.2 ≤ r.committedAt := by decide +kernel
  obtain ⟨s', hrun', hlate'⟩ : ∃ s, defaultRun swallowedFailure = some s ∧
      ∃ r ∈ s.handled, ∀ p ∈ s.succeeded, p.1 = r.entity → p.2 ≤ r.committedAt := by decide +kernel
  exact ⟨⟨s, hrun, not_handledBumped hlate⟩, s', hrun', not_handledBumped hlate'⟩

/-! ## Rows that are covered -/

variable {cfg qc owner} {s t : OutboxState}

/-- **A row is consumed without an attempt of its own** only if there is a bumper, and the attempt on record that
    debounces it started after the row was committed and has succeeded. -/
def DebounceCovers (cfg : WorkerConfig) (qc : Bool) (owner : Nat → Nat) (s : OutboxState) : OutboxAction → Prop
  | .process d => ∀ row todo fates, s.drainers d = .draining (row :: todo) fates → qc = true ∧
      ∀ last, s.lastBump (owner d) row.entity = some last → debounced cfg s.now (some last) = true →
        row.committedAt < last.start ∧ (row.entity, last.start) ∈ s.succeeded
  | _ => True

/-- The rows a phase has still to process are committed; those it deletes are covered, and so is the one it bumps for,
    if that succeeds. -/
def DrainPhase.Sound (events : Nat) (succeeded : List (String × Nat)) : DrainPhase → Prop
  | .idle => True
  | .draining todo fates =>
    (∀ r ∈ todo, r.committedAt < events) ∧ ∀ r ∈ withFate fates .deleted, Bumped succeeded r
  | .bumping row _ start todo fates => row.committedAt < start ∧
    (∀ r ∈ todo, r.committedAt < events) ∧ ∀ r ∈ withFate fates .deleted, Bumped succeeded r

/-- **The invariant**: rows in the outbox are committed, every drain loop is sound, every handled row is covered. -/
structure OutboxSound (s : OutboxState) : Prop where
  outbox : ∀ r ∈ s.outbox, r.committedAt < s.events
  drainers : ∀ d, (s.drainers d).Sound s.events s.succeeded
  handled : HandledBumped s

variable {succeeded : List (String × Nat)} {r : BumpRow} {events d : Nat} {fates : List (BumpRow × RowFate)}

variable {succeeded' : List (String × Nat)} {phase : DrainPhase} {todo : List BumpRow} {fate : RowFate}

theorem Bumped.mono (h : Bumped succeeded r) (hsub : ∀ p ∈ succeeded, p ∈ succeeded') : Bumped succeeded' r := by
  obtain ⟨start, hmem, hlt⟩ := h
  exact ⟨start, hsub _ hmem, hlt⟩

theorem DrainPhase.Sound.mono {events' : Nat} (h : phase.Sound events succeeded) (hle : events ≤ events')
    (hsub : ∀ p ∈ succeeded, p ∈ succeeded') : phase.Sound events' succeeded' := by
  cases phase with
  | idle => trivial
  | draining todo fates =>
    exact ⟨fun r hr => Nat.lt_of_lt_of_le (h.1 r hr) hle, fun r hr => (h.2 r hr).mono hsub⟩
  | bumping row last start todo fates =>
    exact ⟨h.1, fun r hr => Nat.lt_of_lt_of_le (h.2.1 r hr) hle, fun r hr => (h.2.2 r hr).mono hsub⟩

theorem mem_withFate : r ∈ withFate fates fate ↔ (r, fate) ∈ fates := by
  unfold withFate
  simp

/-- One more row with a fate: where it is deleted, it has to be covered. -/
theorem bumped_append {row : BumpRow} (hdeleted : ∀ r ∈ withFate fates .deleted, Bumped succeeded r)
    (hfate : fate = .deleted → Bumped succeeded row) :
    ∀ r ∈ withFate (fates ++ [(row, fate)]) .deleted, Bumped succeeded r := by
  intro r hr
  rcases List.mem_append.mp (mem_withFate.mp hr) with hr | hr
  · exact hdeleted r (mem_withFate.mpr hr)
  · obtain ⟨rfl, hdel⟩ := Prod.mk.inj (List.mem_singleton.mp hr)
    exact hfate hdel.symm

theorem markFailure_ne (r : BumpRow) : markFailure cfg r ≠ .deleted := by
  unfold markFailure
  split <;> exact nofun

/-- The drain loop goes on, and the others stay where they are. -/
theorem OutboxSound.setDrainer (h : OutboxSound s) (d : Nat) (phase : DrainPhase)
    (hphase : phase.Sound s.events s.succeeded) : OutboxSound (s.setDrainer d phase) where
  outbox := h.outbox
  drainers := (Function.forall_update_iff s.drainers fun _ phase => phase.Sound s.events s.succeeded).mpr
    ⟨hphase, fun e _ => h.drainers e⟩
  handled := h.handled

/-- More events and more successes do no harm. -/
theorem OutboxSound.grow (h : OutboxSound s) (hle : s.events ≤ events) (hsub : ∀ p ∈ s.succeeded, p ∈ succeeded) :
    OutboxSound { s with events := events, succeeded := succeeded } where
  outbox r hr := Nat.lt_of_lt_of_le (h.outbox r hr) hle
  drainers d := (h.drainers d).mono hle hsub
  handled r hr := (h.handled r hr).mono hsub

theorem OutboxSound.unlock (h : OutboxSound s) (d : Nat) : OutboxSound (s.unlock d) := by
  have hidle := h.setDrainer d .idle trivial
  exact ⟨hidle.outbox, hidle.drainers, hidle.handled⟩

theorem claimInTx_subset (h : r ∈ claimInTx cfg s) : r ∈ s.outbox := by
  unfold claimInTx at h
  split at h
  · cases h
  · exact (List.mem_filter.mp ((List.mem_insertionSort _).mp (List.mem_of_mem_take h))).1

theorem sound_process (h : OutboxSound s) (hok : DebounceCovers cfg qc owner s (.process d))
    (hstep : outboxStep cfg qc owner s (.process d) = some t) : OutboxSound t := by
  simp only [outboxStep] at hstep
  split at hstep
  swap
  · cases hstep
  rename_i row todo fates hphase
  cases hstep
  obtain ⟨hqc, hcovers⟩ := hok row todo fates hphase
  have hd := h.drainers d
  rw [hphase] at hd
  obtain ⟨hrows, hdeleted⟩ := hd
  obtain ⟨hrow, htodo⟩ := List.forall_mem_cons.mp hrows
  have hbumper : ¬ qc = false := by
    rw [hqc]
    exact nofun
  unfold processRow
  rw [if_neg hbumper]
  dsimp only
  split
  · exact h.setDrainer _ _ ⟨htodo, bumped_append hdeleted fun heq => absurd heq (markFailure_ne row)⟩
  · split
    · -- the row is debounced
      rename_i hdebounced
      refine h.setDrainer _ _ ⟨htodo, bumped_append hdeleted fun _ => ?_⟩
      cases hlast : s.lastBump (owner d) row.entity with
      | none =>
        rw [hlast] at hdebounced
        cases hdebounced
      | some last =>
        rw [hlast] at hdebounced
        obtain ⟨hlt, hmem⟩ := hcovers last hlast hdebounced
        exact ⟨last.start, hmem, hlt⟩
    · have hgrown := h.grow (Nat.le_succ s.events) fun _ hp => hp
      have hset := hgrown.setDrainer d (.bumping row (s.lastBump (owner d) row.entity) s.events todo fates)
        ⟨hrow, fun r hr => Nat.lt_succ_of_lt (htodo r hr), hdeleted⟩
      exact ⟨hset.outbox, hset.drainers, hset.handled⟩

theorem sound_bumped {succeeded : Bool} (h : OutboxSound s)
    (hstep : outboxStep cfg qc owner s (.bumped d succeeded) = some t) : OutboxSound t := by
  simp only [outboxStep] at hstep
  split at hstep
  swap
  · cases hstep
  rename_i row last start todo fates hphase
  have hd := h.drainers d
  rw [hphase] at hd
  obtain ⟨hstart, htodo, hdeleted⟩ := hd
  split at hstep
  · cases hstep
    have hsub : ∀ p ∈ s.succeeded, p ∈ (row.entity, start) :: s.succeeded := fun _ hp => List.mem_cons_of_mem _ hp
    have hgrown := h.grow (Nat.le_refl s.events) hsub
    have hset := hgrown.setDrainer d (.draining todo (fates ++ [(row, .deleted)]))
      ⟨htodo, bumped_append (fun r hr => (hdeleted r hr).mono hsub) fun _ => ⟨start, List.mem_cons_self, hstart⟩⟩
    exact ⟨hset.outbox, hset.drainers, hset.handled⟩
  · cases hstep
    have hset := h.setDrainer d (.draining todo (fates ++ [(row, markFailure cfg row)]))
      ⟨htodo, bumped_append hdeleted fun heq => absurd heq (markFailure_ne row)⟩
    -- the roll-back touches the debounce record only
    unfold rollBack
    split
    · exact ⟨hset.outbox, hset.drainers, hset.handled⟩
    · exact hset

theorem sound_finish {committed : Bool} (h : OutboxSound s)
    (hstep : outboxStep cfg qc owner s (.finish d committed) = some t) : OutboxSound t := by
  simp only [outboxStep] at hstep
  split at hstep
  swap
  · cases hstep
  rename_i fates hphase
  have hd := h.drainers d
  rw [hphase] at hd
  have hunlocked := h.unlock d
  split at hstep
  · cases hstep
    refine ⟨fun r hr => ?_, hunlocked.drainers, fun r hr => ?_⟩
    · obtain ⟨q, hq, rfl⟩ := List.mem_map.mp hr
      have hlt := h.outbox q (List.mem_filter.mp hq).1
      split
      · exact hlt
      · exact hlt
    rcases List.mem_append.mp hr with hr | hr
    · exact h.handled r hr
    · exact hd.2 r hr
  · cases hstep
    exact hunlocked

theorem outboxSound_step {a : OutboxAction} (h : OutboxSound s) (hok : DebounceCovers cfg qc owner s a)
    (hstep : outboxStep cfg qc owner s a = some t) : OutboxSound t := by
  cases a with
  | tick elapsed =>
    cases hstep
    exact ⟨h.outbox, h.drainers, h.handled⟩
  | enqueue entity enqueuedAt =>
    cases hstep
    have hgrown := h.grow (Nat.le_succ s.events) fun _ hp => hp
    refine ⟨fun r hr => ?_, hgrown.drainers, h.handled⟩
    rcases List.mem_append.mp hr with hr | hr
    · exact hgrown.outbox r hr
    · rw [List.mem_singleton.mp hr]
      exact Nat.lt_succ_self _
  | claim d =>
    simp only [outboxStep] at hstep
    split at hstep
    · cases hstep
      have hset := h.setDrainer d (.draining (claimInTx cfg s) [])
        ⟨fun r hr => h.outbox r (claimInTx_subset hr), nofun⟩
      exact ⟨hset.outbox, hset.drainers, hset.handled⟩
    · cases hstep
  | process d => exact sound_process h hok hstep
  | bumped d succeeded => exact sound_bumped h hstep
  | finish d committed => exact sound_finish h hstep
  | abandon d =>
    cases hstep
    exact h.unlock d

/-- **A consumed row has been bumped for** in every run in which the debouncer covers what it consumes. -/
theorem handled_covered (h : (outboxMachine cfg qc owner).Reach (DebounceCovers cfg qc owner) s) : HandledBumped s := by
  have hsound : OutboxSound s := by
    refine h.invariant (I := OutboxSound) ?_ ?_
    · rintro s rfl
      exact ⟨nofun, fun _ => trivial, nofun⟩
    · intro s a t hs hok hstep
      exact outboxSound_step hs hok hstep
  exact hsound.handled

/-- Two rows of a burst: the bump starts after both are committed, and covers the second. -/
theorem handled_covered_burst :
    ∃ s, (outboxMachine (NewWorker {}) true id).Reach (DebounceCovers (NewWorker {}) true id) s ∧
      s.handled.map BumpRow.id = [0, 1] ∧ HandledBumped s := by
  have hrun : ∃ s, (outboxMachine (NewWorker {}) true id).run emptyOutbox [.enqueue "app.Item" 0,
      .enqueue "app.Item" 0, .claim 0, .process 0, .bumped 0 true, .process 0, .finish 0 true] = some s ∧
      s.handled.map BumpRow.id = [0, 1] := ⟨_, rfl, by decide +kernel⟩
  obtain ⟨s, hrun, hhandled⟩ := hrun
  have halong : (outboxMachine (NewWorker {}) true id).Along (DebounceCovers (NewWorker {}) true id) emptyOutbox
      [.enqueue "app.Item" 0, .enqueue "app.Item" 0, .claim 0, .process 0, .bumped 0 true, .process 0,
       .finish 0 true] := by
    refine .cons trivial rfl (.cons trivial rfl (.cons trivial rfl (.cons ?_ rfl (.cons trivial rfl
      (.cons ?_ rfl (.cons trivial rfl trivial))))))
    · intro row todo fates hphase
      refine ⟨rfl, fun last hlast => ?_⟩
      cases hlast
    · intro row todo fates hphase
      obtain ⟨htodo, _⟩ := DrainPhase.draining.inj hphase
      obtain ⟨rfl, _⟩ := List.cons.inj htodo
      refine ⟨rfl, fun last hlast _ => ?_⟩
      cases hlast
      decide
  have hreach := Machine.reach_of_run (.initial rfl) halong hrun
  exact ⟨s, hreach, hhandled, handled_covered hreach⟩

end Atlantis.Cache
