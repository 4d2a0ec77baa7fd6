import Atlantis.Lib.Machine

/-!
# `Cache.BodyInvalidation` — the version pointer of a cached row

One row, its entry in the body cache, and everyone who works on them.

* A writer (`handleUpdate`) reads the pointer's version from the cache and commits the row together with an
  outbox entry for the version after it. The row lock keeps two updates of the row from being between their
  `UPDATE` and their commit at the same time; nothing below rests on it. If the cache fails, the version is 0.
* A worker (`processRow`) claims an entry, reads the pointer, writes the entry's version unless the pointer is
  already there (`SetVersion`, which is not atomic), and deletes the entry. It may also give the entry back.
* A reader (`Reader.Get`, after a miss) loads the row, reads the pointer and stores the body under the version it
  found, or under version 1 if it found none or the cache failed.

The body of the row is the number of writes that made it. The cache is stale when no invalidation is pending and
the pointer leads to a body with fewer writes in it than the row has.

That happens: a body may be stored under a version that a later write takes (`stale_body_after_first_write`).
What a run has to avoid is collected in `Orderly`. A version under which a body lies is *superseded* when the
pointer is past it or a pending entry will take it past; the invariant is that a body is current or its version
is superseded (`Sound`).
-/

namespace Atlantis.Cache

open Lib

/-- A row of `cache_invalidations`. -/
structure Entry where
  id : Nat
  newVersion : Nat
  deriving DecidableEq, Repr

/-- How far an update has come. -/
inductive WriterPhase where
  | idle
  /-- It has read the version and not committed. -/
  | read (v : Nat)
  deriving DecidableEq, Repr

/-- How far a worker has come with the entry it holds. -/
inductive WorkerPhase where
  | idle
  | claimed (e : Entry)
  /-- `SetVersion` has read the pointer. -/
  | checked (e : Entry) (cur : Nat)
  /-- `SetVersion` has returned, and the entry is still there. -/
  | applied (e : Entry)
  deriving DecidableEq, Repr

/-- How far a reader has come after its miss. -/
inductive ReaderPhase where
  | idle
  | loaded (body : Nat)
  /-- It knows under which version it will store the body. -/
  | keyed (body version : Nat)
  deriving DecidableEq, Repr

structure BodyState where
  /-- The writes committed so far. -/
  row : Nat
  pointer : Option Nat
  /-- What is stored under `CacheKey(entity, id, version)`. -/
  bodies : Nat → Option Nat
  outbox : List Entry
  /-- The entries that a worker's transaction holds. -/
  locked : List Nat
  nextID : Nat
  writers : Nat → WriterPhase
  workers : Nat → WorkerPhase
  readers : Nat → ReaderPhase

/-- The steps of writers `w`, workers `k` and readers `r`. Where `failed` is set, the cache does not answer. -/
inductive BodyAct where
  | readVersion (w : Nat) (failed : Bool)
  | commit (w : Nat)
  | rollback (w : Nat)
  | claim (k : Nat) (id : Nat)
  | checkVersion (k : Nat)
  | setVersion (k : Nat)
  | deleteEntry (k : Nat)
  /-- An error of any call ends the worker's transaction. -/
  | giveBack (k : Nat)
  | load (r : Nat)
  | readPointer (r : Nat) (failed : Bool)
  | store (r : Nat)
  deriving DecidableEq, Repr

/-- `CurrentVersion`: 0 on a miss. -/
def BodyState.CurrentVersion (s : BodyState) : Nat := s.pointer.getD 0

/-- What is left of it for a caller that ignores its error. -/
def BodyState.versionOrZero (s : BodyState) (failed : Bool) : Nat := if failed then 0 else s.CurrentVersion

/-- The entry a worker is busy with. -/
def WorkerPhase.entry : WorkerPhase → Option Entry
  | .idle => none
  | .claimed e => some e
  | .checked e _ => some e
  | .applied e => some e

def bodyStep (s : BodyState) : BodyAct → Option BodyState
  | .readVersion w failed =>
    match s.writers w with
    | .idle => some { s with writers := Function.update s.writers w (.read (s.versionOrZero failed)) }
    | _ => none
  | .commit w =>
    match s.writers w with
    | .read v => some { s with
        row := s.row + 1
        outbox := s.outbox ++ [⟨s.nextID, v + 1⟩]
        nextID := s.nextID + 1
        writers := Function.update s.writers w .idle }
    | _ => none
  | .rollback w =>
    match s.writers w with
    | .read _ => some { s with writers := Function.update s.writers w .idle }
    | _ => none
  | .claim k id =>
    match s.workers k, s.outbox.find? (·.id == id) with
    | .idle, some e =>
      if id ∈ s.locked then none
      else some { s with locked := id :: s.locked, workers := Function.update s.workers k (.claimed e) }
    | _, _ => none
  | .checkVersion k =>
    match s.workers k with
    | .claimed e => some { s with workers := Function.update s.workers k (.checked e s.CurrentVersion) }
    | _ => none
  | .setVersion k =>
    match s.workers k with
    | .checked e cur =>
      -- `ErrStaleVersion` counts as success
      if cur ≥ e.newVersion then some { s with workers := Function.update s.workers k (.applied e) }
      else some { s with
        pointer := some e.newVersion
        workers := Function.update s.workers k (.applied e) }
    | _ => none
  | .deleteEntry k =>
    match s.workers k with
    | .applied e => some { s with
        outbox := s.outbox.filter (· ≠ e)
        locked := s.locked.filter (· ≠ e.id)
        workers := Function.update s.workers k .idle }
    | _ => none
  | .giveBack k =>
    match (s.workers k).entry with
    | some e => some { s with
        locked := s.locked.filter (· ≠ e.id)
        workers := Function.update s.workers k .idle }
    | none => none
  | .load r =>
    match s.readers r with
    | .idle => some { s with readers := Function.update s.readers r (.loaded s.row) }
    | _ => none
  | .readPointer r failed =>
    match s.readers r with
    | .loaded body =>
      let newVer := s.versionOrZero failed
      some { s with readers := Function.update s.readers r (.keyed body (if newVer = 0 then 1 else newVer)) }
    | _ => none
  | .store r =>
    match s.readers r with
    | .keyed body version => some { s with
        bodies := Function.update s.bodies version (some body)
        readers := Function.update s.readers r .idle }
    | _ => none

/-- A row that was never written to since the cache was empty. -/
def freshCache : BodyState where
  row := 0
  pointer := none
  bodies _ := none
  outbox := []
  locked := []
  nextID := 0
  writers _ := .idle
  workers _ := .idle
  readers _ := .idle

def bodyMachine : Machine BodyState BodyAct where
  initial s := s = freshCache
  step := bodyStep

/-- **No invalidation is lost**: when none is pending, the pointer leads to nothing older than the row. -/
def NoLostInvalidation (s : BodyState) : Prop :=
  s.outbox = [] → ∀ p body, s.pointer = some p → s.bodies p = some body → s.row ≤ body

/-! ## What goes wrong -/

/-- A reader stores the row under version 1 because there is no pointer; the first write takes version 1 because
    there is no pointer either. -/
theorem stale_body_after_first_write :
    ∃ s, bodyMachine.Reachable s ∧ s.outbox = [] ∧ s.pointer = some 1 ∧ s.bodies 1 = some 0 ∧ s.row = 1 := by
  have hrun : ∃ s, bodyMachine.run freshCache [.load 0, .readPointer 0 false, .store 0, .readVersion 0 false, .commit 0,
      .claim 0 0, .checkVersion 0, .setVersion 0, .deleteEntry 0] = some s ∧
      s.outbox = [] ∧ s.pointer = some 1 ∧ s.bodies 1 = some 0 ∧ s.row = 1 := ⟨_, rfl, rfl, rfl, rfl, rfl⟩
  obtain ⟨s, hrun, hs⟩ := hrun
  exact ⟨s, Machine.reachable_of_run (.initial rfl) hrun, hs⟩

/-! ## What a run has to avoid -/

/-- The pointer is past the version, or a pending entry is. -/
def Superseded (s : BodyState) (q : Nat) : Prop := q < s.CurrentVersion ∨ ∃ e ∈ s.outbox, q < e.newVersion

/-- **The steps that keep the cache sound.**
    * A write takes a version past every body that is not superseded.
    * A body is stored while it is the row's, or under a version that is superseded.
    * A worker that found the pointer behind its version does not set it back. -/
def Orderly (s : BodyState) : BodyAct → Prop
  | .commit w => ∀ v, s.writers w = .read v → ∀ q, (s.bodies q).isSome → q < v + 1 ∨ Superseded s q
  | .store r => ∀ body version, s.readers r = .keyed body version → body = s.row ∨ Superseded s version
  | .setVersion k => ∀ e cur, s.workers k = .checked e cur → cur < e.newVersion → s.CurrentVersion ≤ e.newVersion
  | _ => True

/-- What a worker has seen or done is still so. -/
def WorkerPhase.Holds (cur : Nat) : WorkerPhase → Prop
  | .checked _ seen => seen ≤ cur
  | .applied e => e.newVersion ≤ cur
  | _ => True

/-- **The invariant**: a body is the row's, or its version is superseded. -/
structure Sound (s : BodyState) : Prop where
  bodies : ∀ q body, s.bodies q = some body → body = s.row ∨ Superseded s q
  workers : ∀ k, (s.workers k).Holds s.CurrentVersion

theorem WorkerPhase.Holds.mono {cur cur' : Nat} {phase : WorkerPhase} (h : phase.Holds cur) (hle : cur ≤ cur') :
    phase.Holds cur' := by
  cases phase with
  | idle | claimed e => exact trivial
  | checked e seen => exact Nat.le_trans h hle
  | applied e => exact Nat.le_trans h hle

/-- A worker goes on, and the others stay where they are. -/
theorem holds_update {workers : Nat → WorkerPhase} {cur : Nat} (h : ∀ k, (workers k).Holds cur) {k : Nat}
    {phase : WorkerPhase} (hk : phase.Holds cur) : ∀ j, (Function.update workers k phase j).Holds cur :=
  (Function.forall_update_iff workers fun _ phase => phase.Holds cur).mpr ⟨hk, fun j _ => h j⟩

theorem sound_freshCache : Sound freshCache where
  bodies q body h := by cases h
  workers k := trivial

variable {s t : BodyState}

/-- The steps of writers. -/
theorem sound_commit {w : Nat} (h : Sound s) (hok : Orderly s (.commit w)) (hstep : bodyStep s (.commit w) = some t) :
    Sound t := by
  simp only [bodyStep] at hstep
  split at hstep
  swap
  · cases hstep
  rename_i v hv
  cases hstep
  refine ⟨fun q body hq => .inr ?_, h.workers⟩
  -- no body has the new write in it: the new entry takes the pointer past all of them
  rcases hok v hv q (by rw [show s.bodies q = some body from hq]; rfl) with hlt | hcur | ⟨e, he, hlt⟩
  · exact .inr ⟨⟨s.nextID, v + 1⟩, by simp, hlt⟩
  · exact .inl hcur
  · exact .inr ⟨e, List.mem_append_left _ he, hlt⟩

theorem sound_setVersion {k : Nat} (h : Sound s) (hok : Orderly s (.setVersion k))
    (hstep : bodyStep s (.setVersion k) = some t) : Sound t := by
  simp only [bodyStep] at hstep
  split at hstep
  swap
  · cases hstep
  rename_i e cur hk
  have hseen : cur ≤ s.CurrentVersion := by
    have hholds := h.workers k
    rwa [hk] at hholds
  split at hstep
  · rename_i hstale
    cases hstep
    refine ⟨h.bodies, holds_update h.workers ?_⟩
    exact Nat.le_trans hstale hseen
  · rename_i hfresh
    cases hstep
    have hle : s.CurrentVersion ≤ e.newVersion := hok e cur hk (by omega)
    refine ⟨fun q body hq => ?_, ?_⟩
    · rcases h.bodies q body hq with hrow | hcur | hentry
      · exact .inl hrow
      · exact .inr (.inl (Nat.lt_of_lt_of_le hcur hle))
      · exact .inr (.inr hentry)
    · show ∀ j, (Function.update s.workers k (.applied e) j).Holds e.newVersion
      exact holds_update (fun j => (h.workers j).mono hle) (Nat.le_refl _)

/-- An entry is deleted when the pointer has reached it, so what it superseded stays so. -/
theorem sound_deleteEntry {k : Nat} (h : Sound s) (hstep : bodyStep s (.deleteEntry k) = some t) : Sound t := by
  simp only [bodyStep] at hstep
  split at hstep
  swap
  · cases hstep
  rename_i e hk
  have hreached : e.newVersion ≤ s.CurrentVersion := by
    have hholds := h.workers k
    rwa [hk] at hholds
  cases hstep
  refine ⟨fun q body hq => ?_, holds_update h.workers trivial⟩
  rcases h.bodies q body hq with hrow | hcur | ⟨f, hf, hlt⟩
  · exact .inl hrow
  · exact .inr (.inl hcur)
  · by_cases hfe : f = e
    · subst hfe
      exact .inr (.inl (Nat.lt_of_lt_of_le hlt hreached))
    · exact .inr (.inr ⟨f, List.mem_filter.mpr ⟨hf, by simpa using hfe⟩, hlt⟩)

theorem sound_store {r : Nat} (h : Sound s) (hok : Orderly s (.store r)) (hstep : bodyStep s (.store r) = some t) :
    Sound t := by
  simp only [bodyStep] at hstep
  split at hstep
  swap
  · cases hstep
  rename_i body version hr
  cases hstep
  refine ⟨fun q b hq => ?_, h.workers⟩
  by_cases hversion : q = version
  · subst hversion
    have hbody : body = b := by simpa using hq
    rw [← hbody]
    exact hok body q hr
  · exact h.bodies q b (by simpa [Function.update_of_ne hversion] using hq)

/-- **Every orderly step keeps the invariant.** The other steps touch neither the row nor the cache nor the
    outbox. -/
theorem sound_step {a : BodyAct} (h : Sound s) (hok : Orderly s a) (hstep : bodyStep s a = some t) : Sound t := by
  cases a with
  | commit w => exact sound_commit h hok hstep
  | setVersion k => exact sound_setVersion h hok hstep
  | deleteEntry k => exact sound_deleteEntry h hstep
  | store r => exact sound_store h hok hstep
  | readVersion w failed | rollback w | load r | readPointer r failed =>
    simp only [bodyStep] at hstep
    split at hstep
    · cases hstep
      exact ⟨h.bodies, h.workers⟩
    · cases hstep
  | claim k id =>
    simp only [bodyStep] at hstep
    split at hstep
    · split at hstep
      · cases hstep
      · cases hstep
        exact ⟨h.bodies, holds_update h.workers trivial⟩
    · cases hstep
  | checkVersion k =>
    simp only [bodyStep] at hstep
    split at hstep
    · cases hstep
      exact ⟨h.bodies, holds_update h.workers (Nat.le_refl _)⟩
    · cases hstep
  | giveBack k =>
    simp only [bodyStep] at hstep
    split at hstep
    · cases hstep
      exact ⟨h.bodies, holds_update h.workers trivial⟩
    · cases hstep

/-- **On every orderly run no invalidation is lost.** -/
theorem noLostInvalidation_of_orderly {s : BodyState} (h : bodyMachine.Reach Orderly s) : NoLostInvalidation s := by
  have hsound : Sound s := by
    refine Machine.Reach.invariant ?_ ?_ h
    · rintro s rfl
      exact sound_freshCache
    · exact fun s a t hs hok hstep => sound_step hs hok hstep
  intro hdrained p body hpointer hbody
  rcases hsound.bodies p body hbody with hrow | hcur | ⟨e, he, _⟩
  · exact Nat.le_of_eq hrow.symm
  · rw [BodyState.CurrentVersion, hpointer] at hcur
    exact absurd hcur (Nat.lt_irrefl p)
  · rw [hdrained] at he
    cases he

/-- A write, its invalidation, and a reader that stores what it loaded. -/
theorem noLostInvalidation_of_orderly_run :
    ∃ s, bodyMachine.Reach Orderly s ∧ s.row = 1 ∧ s.bodies 1 = some 1 ∧ NoLostInvalidation s := by
  have h₀ : bodyMachine.Reach Orderly freshCache := .initial rfl
  have h₁ := h₀.next (.readVersion 0 false) trivial rfl
  have h₂ := h₁.next (.commit 0) (fun _ _ _ hq => Bool.noConfusion hq) rfl
  have h₃ := h₂.next (.claim 0 0) trivial rfl
  have h₄ := h₃.next (.checkVersion 0) trivial rfl
  have h₅ := h₄.next (.setVersion 0) (fun _ _ _ _ => Nat.zero_le _) rfl
  have h₆ := h₅.next (.deleteEntry 0) trivial rfl
  have h₇ := h₆.next (.load 0) trivial rfl
  have h₈ := h₇.next (.readPointer 0 false) trivial rfl
  have h₉ := h₈.next (.store 0) (fun _ _ hr => .inl (ReaderPhase.keyed.inj hr).1.symm) rfl
  exact ⟨_, h₉, rfl, rfl, noLostInvalidation_of_orderly h₉⟩

end Atlantis.Cache
