import Atlantis.Lib.Machine
import Atlantis.Lib.Varint

/-!
# `Cache.Tier0` — the in-process cache in front of memcached

`Reader.Get` of `internal/cache/read` looks a row up in an LRU of the process, then in memcached, then asks the loader,
which runs once for all who wait for the row. The model has any number of calls in flight, each in steps, while entries
are invalidated or evicted and time passes.

Two things go wrong. An entry whose TTL has passed is never refreshed early, so it is returned; and a body that memcached
returns is stored whatever its size. The bounds hold just where neither is met (`bounded_iff_kept`). And the body is fetched
from the LRU by a second access: if the entry is removed between the two, the call fails, with the cache's own error.
Where it is not, only the loader and the caller's context make a read fail (`excused_of_undisturbed`).
-/

namespace Atlantis.Cache.Tier0

open Lib

/-- `read.Config`. -/
structure Config where
  lruSize : Nat
  maxValueBytes : Nat
  defaultTTL : Int
  /-- `XFetchBeta > 0`. -/
  xfetch : Bool

/-- `tier0Entry`. -/
structure Entry where
  body : Bytes
  loadedAt : Int
  ttl : Int

/-- An entity and the id of a row. -/
abbrev RowID := String × String

def entityIDKey (row : RowID) : String := row.1 ++ ":" ++ row.2

/-- Where a call is: before `tier0Body`, before `tier1Lookup`, waiting for the loader, or back. -/
inductive Phase where
  | body (row : RowID)
  | tier1 (row : RowID)
  | waiting (row : RowID)
  | done (res : Except String Bytes)
  deriving DecidableEq

structure Reader where
  now : Int := 0
  tier0 : String → Option Entry := fun _ => none
  gets : Nat → Option Phase := fun _ => none
  /-- The rows the loader is at work for. -/
  flights : List RowID := []

inductive ReadAct where
  | tick (d : Nat)
  /-- `Invalidate`, or an eviction. -/
  | remove (key : String)
  /-- `tier0Lookup`, and what the random draw says about an early refresh. -/
  | lookup (c : Nat) (row : RowID) (early : Bool)
  | body (c : Nat)
  /-- `tier1Lookup`: a hit, or a miss or an error. -/
  | tier1 (c : Nat) (hit : Option Bytes)
  /-- The loader returns to those who wait for the row. -/
  | load (row : RowID) (res : Except String Bytes)
  /-- The caller's context ends. -/
  | cancel (c : Nat)

variable (cfg : Config)

def tier0Remaining (now : Int) (e : Entry) : Int :=
  if e.ttl = 0 then cfg.defaultTTL else max (e.ttl - (now - e.loadedAt)) 0

def xfetchShouldRefresh (remaining : Int) (early : Bool) : Bool := cfg.xfetch && decide (0 < remaining) && early

/-- The test before the loader's body is stored. -/
def Config.Fits (body : Bytes) : Prop := cfg.maxValueBytes = 0 ∨ body.length ≤ cfg.maxValueBytes

instance (body : Bytes) : Decidable (cfg.Fits body) := inferInstanceAs (Decidable (_ ∨ _))

namespace Reader

def put (s : Reader) (c : Nat) (phase : Phase) : Reader := { s with gets := Function.update s.gets c (some phase) }

def tier0Store (s : Reader) (row : RowID) (body : Bytes) : Reader :=
  if cfg.lruSize = 0 then s
  else { s with tier0 := Function.update s.tier0 (entityIDKey row) (some ⟨body, s.now, cfg.defaultTTL⟩) }

/-- The loader has returned; only bodies that fit are stored. -/
def refill (s : Reader) (row : RowID) : Except String Bytes → Reader
  | .ok fresh => if cfg.Fits fresh then s.tier0Store cfg row fresh else s
  | .error _ => s

def tier0Body (s : Reader) (row : RowID) : Except String Bytes :=
  match s.tier0 (entityIDKey row) with
  | some e => .ok e.body
  | none => .error "cache miss"

def step (s : Reader) : ReadAct → Option Reader
  | .tick d => some { s with now := s.now + d }
  | .remove key => some { s with tier0 := Function.update s.tier0 key none }
  | .lookup c row early =>
    match s.gets c, s.tier0 (entityIDKey row) with
    | none, some e =>
      some (s.put c (if xfetchShouldRefresh cfg (tier0Remaining cfg s.now e) early then .tier1 row else .body row))
    | none, none => some (s.put c (.tier1 row))
    | some _, _ => none
  | .body c =>
    match s.gets c with
    | some (.body row) => some (s.put c (.done (s.tier0Body row)))
    | _ => none
  | .tier1 c hit =>
    match s.gets c, hit with
    | some (.tier1 row), some body => some ((s.tier0Store cfg row body).put c (.done (.ok body)))
    | some (.tier1 row), none => some { s.put c (.waiting row) with flights := s.flights.insert row }
    | _, _ => none
  | .load row res =>
    if row ∈ s.flights then
      some { s.refill cfg row res with
        flights := s.flights.erase row
        gets := fun c => if s.gets c = some (.waiting row) then some (.done res) else s.gets c }
    else none
  | .cancel c =>
    match s.gets c with
    | some (.waiting _) => some (s.put c (.done (.error "context canceled")))
    | _ => none

end Reader

def machine : Machine Reader ReadAct := ⟨fun s => s = {}, Reader.step cfg⟩

/-! ## The bounds -/

def Entry.Expired (e : Entry) (now : Int) : Prop := e.ttl ≠ 0 ∧ e.loadedAt + e.ttl < now

instance (e : Entry) (now : Int) : Decidable (e.Expired now) := inferInstanceAs (Decidable (_ ∧ _))

/-- **The bounds of the cache**, over one step: a call that returns from the cache returns the body of an entry that is not
    past its time, and no body in the cache is too large. -/
structure Bounded (s : Reader) (t : Reader) : Prop where
  time : ∀ c row body, s.gets c = some (.body row) → t.gets c = some (.done (.ok body)) →
    ∃ e, s.tier0 (entityIDKey row) = some e ∧ e.body = body ∧ ¬ e.Expired s.now
  size : ∀ key e, t.tier0 key = some e → cfg.Fits e.body

/-- A body is fetched within `DefaultTTL` of its store, unless that is 0, and bodies from memcached that are stored fit. -/
def Kept (s : Reader) : ReadAct → Prop
  | .body c => ∀ row e, s.gets c = some (.body row) → s.tier0 (entityIDKey row) = some e →
    cfg.defaultTTL = 0 ∨ s.now ≤ e.loadedAt + cfg.defaultTTL
  | .tier1 _ hit => cfg.lruSize ≠ 0 → ∀ body ∈ hit, cfg.Fits body
  | _ => True

variable {cfg} {s t : Reader} {a : ReadAct} {key : String} {c : Nat}

/-- What a step makes of an entry: it stays, is removed or is written now, with a body that fits or is from memcached. -/
inductive Written (cfg : Config) (s : Reader) (a : ReadAct) (key : String) (now : Int) (o : Option Entry) : Prop where
  | same (h : o = s.tier0 key) (hnow : now = s.now ∨ ∃ d, a = .tick d)
  | removed (h : o = none) (ha : a = .remove key)
  | stored (body : Bytes) (h : o = some ⟨body, now, cfg.defaultTTL⟩)
      (hfits : cfg.Fits body ∨ cfg.lruSize ≠ 0 ∧ ∃ c, a = .tier1 c (some body))

theorem written_store (row : RowID) {body : Bytes} (hfits : cfg.Fits body ∨ ∃ c, a = .tier1 c (some body)) :
    Written cfg s a key (s.tier0Store cfg row body).now ((s.tier0Store cfg row body).tier0 key) := by
  unfold Reader.tier0Store
  split
  · exact .same rfl (.inl rfl)
  · by_cases hk : key = entityIDKey row
    · exact .stored body (by rw [hk]; exact Function.update_self ..) (hfits.imp_right fun h => ⟨‹_›, h⟩)
    · exact .same (Function.update_of_ne hk ..) (.inl rfl)

theorem written_of_step (key : String) (h : s.step cfg a = some t) : Written cfg s a key t.now (t.tier0 key) := by
  cases a with
  | tick d =>
    cases h
    exact .same rfl (.inr ⟨d, rfl⟩)
  | remove k =>
    cases h
    by_cases hk : key = k
    · subst hk
      exact .removed (Function.update_self ..) rfl
    · exact .same (Function.update_of_ne hk ..) (.inl rfl)
  | lookup c row early | body c | cancel c =>
    simp only [Reader.step] at h
    split at h <;> cases h
    all_goals exact .same rfl (.inl rfl)
  | tier1 c hit =>
    simp only [Reader.step] at h
    split at h <;> cases h
    · exact written_store _ (.inr ⟨c, rfl⟩)
    · exact .same rfl (.inl rfl)
  | load row res =>
    simp only [Reader.step] at h
    split at h <;> cases h
    cases res with
    | error msg => exact .same rfl (.inl rfl)
    | ok fresh =>
      simp only [Reader.refill]
      split
      · exact written_store row (.inl ‹_›)
      · exact .same rfl (.inl rfl)

/-- What lets a call come to a phase: the row is in the cache when its body is to be fetched, the body that is fetched is
    that of the entry, and an error comes from the context, from the loader, or from the fetch. -/
def Enters (s : Reader) (a : ReadAct) (c : Nat) : Phase → Prop
  | .body row => (∃ early, a = .lookup c row early) ∧ (s.tier0 (entityIDKey row)).isSome
  | .done (.ok body) => ∀ row, s.gets c = some (.body row) →
      a = .body c ∧ ∃ e, s.tier0 (entityIDKey row) = some e ∧ e.body = body
  | .done (.error msg) => a = .cancel c ∨ (∃ row, s.gets c = some (.waiting row) ∧ a = .load row (.error msg)) ∨
      ∃ row, s.gets c = some (.body row) ∧ s.tier0 (entityIDKey row) = none
  | _ => True

theorem enters_of_step {phase : Phase} (h : s.step cfg a = some t) (hc : t.gets c = some phase) :
    s.gets c = some phase ∨ Enters s a c phase := by
  have hput : ∀ {s' : Reader} {c' phase'}, s'.gets = s.gets → (s'.put c' phase').gets c = some phase →
      (c = c' → Enters s a c phase') → s.gets c = some phase ∨ Enters s a c phase := by
    intro s' c' phase' hs hc henters
    rcases update_eq_some hc with ⟨hcc, hq⟩ | hc
    · cases hq
      exact .inr (henters hcc)
    · exact .inl (hs ▸ hc)
  cases a with
  | tick d | remove k =>
    cases h
    exact .inl hc
  | lookup c' row early =>
    simp only [Reader.step] at h
    split at h <;> cases h
    next e _ he =>
      refine hput rfl hc fun hcc => ?_
      split
      · trivial
      · exact ⟨⟨early, by rw [hcc]⟩, by rw [he]; rfl⟩
    next => exact hput rfl hc fun _ => trivial
  | body c' =>
    simp only [Reader.step] at h
    split at h <;> cases h
    next row hrow =>
      refine hput rfl hc fun hcc => ?_
      unfold Reader.tier0Body
      split
      · intro row' hrow'
        rw [hcc, hrow] at hrow'
        cases hrow'
        exact ⟨by rw [hcc], _, ‹_›, rfl⟩
      · exact .inr (.inr ⟨row, by rw [hcc, hrow], ‹_›⟩)
  | tier1 c' hit =>
    simp only [Reader.step] at h
    split at h <;> cases h
    next row body hrow =>
      refine hput ?_ hc fun hcc row' hrow' => ?_
      · unfold Reader.tier0Store
        split <;> rfl
      · rw [hcc, hrow] at hrow'
        cases hrow'
    · exact hput rfl hc fun _ => trivial
  | load row res =>
    simp only [Reader.step] at h
    split at h <;> cases h
    by_cases hw : s.gets c = some (.waiting row)
    · cases (if_pos hw).symm.trans hc
      cases res with
      | error msg => exact .inr (.inr (.inl ⟨row, hw, rfl⟩))
      | ok body => exact .inr fun row' hrow' => by cases hw.symm.trans hrow'
    · exact .inl ((if_neg hw).symm.trans hc)
  | cancel c' =>
    simp only [Reader.step] at h
    split at h <;> cases h
    exact hput rfl hc fun hcc => .inl (by rw [hcc])

/-- Entries fit and carry the default TTL. -/
def Stored (cfg : Config) (s : Reader) : Prop := ∀ key e, s.tier0 key = some e → cfg.Fits e.body ∧ e.ttl = cfg.defaultTTL

theorem Stored.expired_iff {row : RowID} {e : Entry} (hs : Stored cfg s) (he : s.tier0 (entityIDKey row) = some e) :
    ¬ e.Expired s.now ↔ cfg.defaultTTL = 0 ∨ s.now ≤ e.loadedAt + cfg.defaultTTL := by
  unfold Entry.Expired
  rw [(hs _ e he).2]
  omega

theorem Stored.step (hs : Stored cfg s) (hb : Bounded cfg s t) (hstep : s.step cfg a = some t) : Stored cfg t := by
  intro key e he
  refine ⟨hb.size key e he, ?_⟩
  rcases written_of_step key hstep with ⟨h, -⟩ | ⟨h, -⟩ | ⟨body, h, -⟩
  · exact (hs key e (h ▸ he)).2
  · cases h.symm.trans he
  · cases h.symm.trans he
    rfl

/-- The condition is enough. -/
theorem Kept.bounded (hkept : Kept cfg s a) (hs : Stored cfg s) (hstep : s.step cfg a = some t) : Bounded cfg s t := by
  refine ⟨fun c row body hrow hdone => ?_, fun key e he => ?_⟩
  · rcases enters_of_step hstep hdone with hdone | henters
    · cases hrow.symm.trans hdone
    · obtain ⟨rfl, e, he, hbody⟩ := henters row hrow
      exact ⟨e, he, hbody, (hs.expired_iff he).mpr (hkept row e hrow he)⟩
  · rcases written_of_step key hstep with ⟨h, -⟩ | ⟨h, -⟩ | ⟨body, h, hfits⟩
    · exact (hs key e (h ▸ he)).1
    · cases h.symm.trans he
    · cases h.symm.trans he
      rcases hfits with hfits | ⟨hlru, c, rfl⟩
      · exact hfits
      · exact hkept hlru body rfl

/-- And no less is. -/
theorem Bounded.kept (hb : Bounded cfg s t) (hs : Stored cfg s) (hstep : s.step cfg a = some t) : Kept cfg s a := by
  cases a with
  | tick d | remove k | lookup c row early | load row res | cancel c => trivial
  | body c =>
    intro row e hrow he
    rw [← hs.expired_iff he]
    simp only [Reader.step, hrow, Reader.tier0Body, he] at hstep
    cases hstep
    obtain ⟨e', he', -, hlive⟩ := hb.time c row e.body hrow (Function.update_self ..)
    cases he.symm.trans he'
    exact hlive
  | tier1 c hit =>
    rintro hlru body ⟨⟩
    simp only [Reader.step] at hstep
    split at hstep <;> cases hstep
    next row _ _ hhit =>
      cases hhit
      refine hb.size (entityIDKey row) ⟨body, s.now, cfg.defaultTTL⟩ ?_
      show (s.tier0Store cfg row body).tier0 _ = _
      unfold Reader.tier0Store
      rw [if_neg hlru]
      exact Function.update_self ..
    next hnone => cases hnone

/-- **A run keeps the bounds exactly if it fetches no body past `DefaultTTL` and stores none from memcached that is too
    large.** -/
theorem bounded_iff_kept {as : List ReadAct} (h : (machine cfg).run {} as = some t) :
    (machine cfg).Along (fun s a => ∀ t, s.step cfg a = some t → Bounded cfg s t) {} as ↔
      (machine cfg).Along (Kept cfg) {} as := by
  refine Machine.along_congr (I := Stored cfg) (fun s a u hs hstep => ⟨⟨fun hb => ?_, fun hkept v hv => ?_⟩, fun hb => ?_⟩)
    (fun key e he => by cases he) h
  · exact (hb u hstep).kept hs hstep
  · exact hkept.bounded hs hv
  · exact hs.step (hb u hstep) hstep

/-- One row with a TTL of ten, at most one byte. -/
def small : Config := ⟨1, 1, 10, true⟩

/-- A body is loaded, and eleven later returned from the cache; then one of two bytes comes from memcached. -/
def lateRun : List ReadAct :=
  [.lookup 0 ("a", "1") false, .tier1 0 none, .load ("a", "1") (.ok [7]), .tick 11, .lookup 1 ("a", "1") false, .body 1,
    .lookup 2 ("a", "2") false, .tier1 2 (some [8, 9])]

theorem late_and_large : ∃ s, (machine small).run {} lateRun = some s ∧ s.gets 1 = some (.done (.ok [7])) ∧
    (∃ e ∈ s.tier0 "a:1", e.Expired s.now) ∧ ∃ e ∈ s.tier0 "a:2", ¬ small.Fits e.body :=
  ⟨_, rfl, rfl, ⟨_, rfl, by decide⟩, _, rfl, by decide⟩

/-- A hit, with time between its two accesses, and a small body from memcached. -/
def hitRun : List ReadAct :=
  [.lookup 0 ("a", "1") false, .tier1 0 none, .load ("a", "1") (.ok [7]), .tick 3, .lookup 1 ("a", "1") false, .tick 2,
    .body 1, .lookup 2 ("a", "2") false, .tier1 2 (some [8])]

theorem bounded_iff_kept_hit : ∃ s, (machine small).run {} hitRun = some s ∧ s.gets 1 = some (.done (.ok [7])) ∧
    (machine small).Along (fun s a => ∀ t, s.step small a = some t → Bounded small s t) {} hitRun := by
  refine ⟨_, rfl, rfl, (@bounded_iff_kept small _ hitRun rfl).mpr ?_⟩
  have hmiss : ∀ s c, Kept small s (.tier1 c none) := fun _ _ _ _ h => by cases h
  refine .cons trivial rfl (.cons (hmiss _ _) rfl (.cons trivial rfl (.cons trivial rfl (.cons trivial rfl
    (.cons trivial rfl (.cons ?_ rfl (.cons trivial rfl (.cons ?_ rfl trivial))))))))
  · rintro _ _ ⟨⟩ ⟨⟩
    exact .inr (by decide)
  · rintro _ _ ⟨⟩
    exact .inr (by decide)

/-! ## Errors -/

/-- No entry is removed while a call is about to fetch its body. -/
def Undisturbed (s : Reader) : ReadAct → Prop
  | .remove key => ∀ c row, s.gets c = some (.body row) → entityIDKey row ≠ key
  | _ => True

/-- **A call fails only by its context or by the loader it waits for.** -/
def Excused (s : Reader) (a : ReadAct) (t : Reader) : Prop :=
  ∀ c msg, t.gets c = some (.done (.error msg)) → s.gets c = some (.done (.error msg)) ∨ a = .cancel c ∨
    ∃ row, s.gets c = some (.waiting row) ∧ a = .load row (.error msg)

/-- **Where no entry is removed between the two accesses to it, the cache makes no call fail.** -/
theorem excused_of_undisturbed (h : (machine cfg).Reach Undisturbed s) (hstep : s.step cfg a = some t) :
    Excused s a t := by
  have hinv : ∀ c row, s.gets c = some (.body row) → s.tier0 (entityIDKey row) ≠ none := by
    refine Machine.Reach.invariant (I := fun s => ∀ c row, s.gets c = some (.body row) → s.tier0 (entityIDKey row) ≠ none)
      ?_ (fun s a t hs hok hstep c row hc => ?_) h
    · rintro _ rfl _ _ hc
      cases hc
    · have henters := enters_of_step hstep hc
      rcases written_of_step (entityIDKey row) hstep with ⟨h, -⟩ | ⟨-, rfl⟩ | ⟨body, h, -⟩
      · rw [h]
        rcases henters with hc | ⟨-, hsome⟩
        · exact hs c row hc
        · exact Option.isSome_iff_ne_none.mp hsome
      · rcases henters with hc | ⟨⟨_, ha⟩, -⟩
        · exact absurd rfl (hok c row hc)
        · cases ha
      · rw [h]
        exact Option.some_ne_none _
  intro c msg hc
  rcases enters_of_step hstep hc with hc | ha | hload | ⟨row, hrow, hnone⟩
  · exact .inl hc
  · exact .inr (.inl ha)
  · exact .inr (.inr hload)
  · exact absurd hnone (hinv c row hrow)

/-- A body is loaded, and removed when the next call has found it. -/
def missRun : List ReadAct :=
  [.lookup 0 ("a", "1") false, .tier1 0 none, .load ("a", "1") (.ok [7]), .lookup 1 ("a", "1") false, .remove "a:1"]

theorem own_miss : ∃ s t, (machine small).run {} missRun = some s ∧ s.step small (.body 1) = some t ∧
    t.gets 1 = some (.done (.error "cache miss")) ∧ ¬ Excused s (.body 1) t := by
  refine ⟨_, _, rfl, rfl, rfl, fun h => ?_⟩
  rcases h 1 _ rfl with h | h | ⟨_, h, _⟩ <;> cases h

theorem excused_of_undisturbed_hit : ∃ s t, t.gets 1 = some (.done (.ok [7])) ∧ Excused s (.body 1) t :=
  ⟨_, _, rfl, @excused_of_undisturbed small _ _ _ (((((Machine.Reach.initial rfl).next (.lookup 0 ("a", "1") false) trivial
    rfl).next (.tier1 0 none) trivial rfl).next (.load ("a", "1") (.ok [7])) trivial rfl).next (.lookup 1 ("a", "1") false)
    trivial rfl) rfl⟩

end Atlantis.Cache.Tier0
