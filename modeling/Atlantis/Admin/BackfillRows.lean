import Atlantis.Admin.Backfill
import Atlantis.Lib.Machine

/-!
# `Admin.BackfillRows` — the rows a backfill fills

`ChunkSQL` and `drainOnePendingField` of `internal/backfill`, on the rows of the table. A chunk is the first rows, by
key, that have `NULL` in the field and a key beyond the cursor; it is updated, and the cursor moves to its last key, in
one transaction. A chunk without rows completes the field.

The cursor starts at 0, so at any time exactly the rows with a key between 0 and the cursor have been filled
(`FilledTo.step`). Keys up to 0 are never looked at: a field is completed without a gap exactly if the expression is
`NULL` on those of them that are empty (`noGap_iff`).
-/

namespace Atlantis.Admin

open Lib

/-! ## Chunks -/

/-- A row: its key, the field to fill, the other columns. -/
structure FillRow (R V : Type) where
  key : Int
  field : Option V
  rest : R
  deriving DecidableEq

/-- A row of `backfill_field_state`; `last_pk` is the text of a `bigint`. -/
structure FieldProgress where
  status : FieldStatus := .pending
  lastPK : Option Int := none
  rowsProcessed : Nat := 0
  deriving DecidableEq

/-- The table and the progress on one of its fields. -/
structure Draining (R V : Type) where
  table : List (FillRow R V)
  progress : FieldProgress := {}
  deriving DecidableEq

/-- `COALESCE(f.last_pk::bigint, 0)`. -/
def FieldProgress.cursor (p : FieldProgress) : Int := p.lastPK.getD 0

/-- `NewWorker`: the configured `ChunkSize`, or the default. -/
def chunkSize (configured : Int) : Nat := if configured ≤ 0 then 10000 else configured.toNat

section

variable {R V : Type} (expression : FillRow R V → Except String (Option V)) (configured : Int)

/-- The keys of the CTE `chunk`. -/
def chunkKeys (table : List (FillRow R V)) (lastPK : Int) (limit : Nat) : List Int :=
  (((table.filter fun r => r.field.isNone && lastPK < r.key).map FillRow.key).insertionSort (· ≤ ·)).take limit

/-- What the expression gives for a row, where it can be evaluated. -/
def evaluated (r : FillRow R V) : FillRow R V := { r with field := (expression r).toOption.getD none }

/-- `ChunkSQL`: the updated table, `new_last_pk` and `rows_updated`. An expression that fails on a row of the chunk aborts
    the statement. -/
def chunkSQL (table : List (FillRow R V)) (lastPK : Int) (limit : Nat) : Option (List (FillRow R V) × Int × Nat) :=
  let keys := chunkKeys table lastPK limit
  if table.all fun r => r.key ∉ keys || (expression r).isOk then
    some (table.map fun r => if r.key ∈ keys then evaluated expression r else r, keys.max?.getD lastPK,
      (table.filter (·.key ∈ keys)).length)
  else none

/-- How a pass of the worker ends: it commits, or it crashes (or cannot write) and is rolled back. -/
inductive DrainEnd where
  | committed
  | crashed
  deriving DecidableEq

/-- **`drainOnePendingField`** on a field it may claim. A chunk that fails is rolled back and the field marked. -/
def drainOnePendingField (s : Draining R V) : DrainEnd → Option (Draining R V)
  | .crashed => some s
  | .committed =>
    if s.progress.status = .pending ∨ s.progress.status = .running then
      match chunkSQL expression s.table s.progress.cursor (chunkSize configured) with
      | none => some { s with progress := { s.progress with status := .failed } }
      | some (table, newLastPK, rowsUpdated) => some ⟨table, {
          status := if rowsUpdated = 0 then .complete else .running
          lastPK := some newLastPK
          rowsProcessed := s.progress.rowsProcessed + rowsUpdated }⟩
    else none

/-- The passes over a table, from a pending field on. -/
def drainMachine (table : List (FillRow R V)) : Machine (Draining R V) DrainEnd :=
  ⟨(· = { table }), drainOnePendingField expression configured⟩

/-! ## What is filled -/

/-- A row once the cursor is at `c`. -/
def filled (c : Int) (r : FillRow R V) : FillRow R V :=
  if r.field = none ∧ 0 < r.key ∧ r.key ≤ c then evaluated expression r else r

/-- **No gap**: an empty field is one on which the expression is `NULL`, and what was there is unchanged. -/
def NoGap (before after : List (FillRow R V)) : Prop :=
  List.Forall₂ (fun r r' => (r.field = none → r'.field = none → expression r = .ok none) ∧ (r.field ≠ none → r' = r))
    before after

/-- The state of a run: the table is filled up to the cursor, and complete only if nothing is left beyond it. -/
structure FilledTo (before : List (FillRow R V)) (s : Draining R V) : Prop where
  nonneg : 0 ≤ s.progress.cursor
  table : s.table = before.map (filled expression s.progress.cursor)
  evaluated : ∀ r ∈ before, r.field = none → 0 < r.key → r.key ≤ s.progress.cursor → ∃ v, expression r = .ok v
  complete : s.progress.status = .complete → ∀ r ∈ before, r.field = none → r.key ≤ s.progress.cursor

variable {expression configured} {table : List (FillRow R V)} {lastPK : Int} {limit : Nat}

theorem chunkSize_pos (configured : Int) : 0 < chunkSize configured := by
  unfold chunkSize
  split <;> omega

/-- The keys a chunk is taken from, in their order. -/
def openKeys (table : List (FillRow R V)) (lastPK : Int) : List Int :=
  ((table.filter fun r => r.field.isNone && lastPK < r.key).map FillRow.key).insertionSort (· ≤ ·)

theorem mem_openKeys {k : Int} : k ∈ openKeys table lastPK ↔ ∃ r ∈ table, r.field = none ∧ lastPK < k ∧ r.key = k := by
  unfold openKeys
  rw [(List.perm_insertionSort _ _).mem_iff, List.mem_map]
  refine exists_congr fun r => ?_
  rw [List.mem_filter, Bool.and_eq_true, Option.isNone_iff_eq_none, decide_eq_true_eq, and_assoc, and_assoc]
  refine and_congr_right fun _ => and_congr_right fun _ => and_congr_left ?_
  rintro rfl
  exact Iff.rfl

theorem mem_chunkKeys {k : Int} (h : k ∈ chunkKeys table lastPK limit) :
    ∃ r ∈ table, r.field = none ∧ lastPK < k ∧ r.key = k := mem_openKeys.mp (List.mem_of_mem_take h)

/-- The chunk has exactly the empty rows between the cursor and its last key. -/
theorem mem_chunkKeys_iff {r : FillRow R V} (hr : r ∈ table) (hnone : r.field = none) (hbeyond : lastPK < r.key) :
    r.key ∈ chunkKeys table lastPK limit ↔ r.key ≤ (chunkKeys table lastPK limit).max?.getD lastPK := by
  cases hmax : (chunkKeys table lastPK limit).max? with
  | none =>
    rw [List.max?_eq_none_iff.mp hmax, Option.getD_none]
    exact ⟨fun h => (List.not_mem_nil h).elim, fun h => by omega⟩
  | some last =>
    obtain ⟨hlast, hupper⟩ := List.max?_eq_some_iff.mp hmax
    rw [Option.getD_some]
    refine ⟨fun h => hupper r.key h, fun hle => ?_⟩
    by_contra hout
    have hmem : r.key ∈ openKeys table lastPK := mem_openKeys.mpr ⟨r, hr, hnone, hbeyond, rfl⟩
    have hsorted : (openKeys table lastPK).Pairwise (· ≤ ·) := List.pairwise_insertionSort ..
    rw [← List.take_append_drop limit (openKeys table lastPK)] at hmem hsorted
    -- a row past the chunk has a key past its last one
    have hge := (List.pairwise_append.mp hsorted).2.2 last hlast r.key ((List.mem_append.mp hmem).resolve_left hout)
    exact hout (le_antisymm hle hge ▸ hlast)

theorem filled_of_lt {c : Int} {r : FillRow R V} (hlt : c < r.key) : filled expression c r = r :=
  if_neg fun h => by omega

theorem key_filled (c : Int) (r : FillRow R V) : (filled expression c r).key = r.key := by
  unfold filled
  split <;> rfl

variable {before : List (FillRow R V)} (hkeys : (before.map FillRow.key).Nodup)
include hkeys

/-- **One chunk**, from a table that is filled up to the cursor. -/
theorem chunkSQL_filled {c c' : Int} {n : Nat} {table' : List (FillRow R V)} (hc : 0 ≤ c) (hlimit : 0 < limit)
    (h : chunkSQL expression (before.map (filled expression c)) c limit = some (table', c', n)) :
    c ≤ c' ∧ table' = before.map (filled expression c') ∧
      (∀ r ∈ before, r.field = none → c < r.key → r.key ≤ c' → ∃ v, expression r = .ok v) ∧
      (n = 0 → ∀ r ∈ before, r.field = none → r.key ≤ c') := by
  have hbeyond := fun k => @mem_chunkKeys _ _ (before.map (filled expression c)) c limit k
  -- the chunk, in terms of the table before
  have hmem : ∀ r ∈ before, r.key ∈ chunkKeys (before.map (filled expression c)) c limit ↔ r.field = none ∧ c < r.key ∧
      r.key ≤ (chunkKeys (before.map (filled expression c)) c limit).max?.getD c := by
    intro r hr
    constructor
    · intro hmem
      obtain ⟨r', hr', hnone, hlt, hkey⟩ := hbeyond _ hmem
      obtain ⟨r₀, hr₀, rfl⟩ := List.mem_map.mp hr'
      obtain rfl := List.inj_on_of_nodup_map hkeys hr₀ hr ((key_filled c r₀).symm.trans hkey)
      rw [filled_of_lt hlt] at hnone hr'
      exact ⟨hnone, hlt, (mem_chunkKeys_iff hr' hnone hlt).mp hmem⟩
    · rintro ⟨hnone, hlt, hle⟩
      have hr' : r ∈ before.map (filled expression c) := List.mem_map.mpr ⟨r, hr, filled_of_lt hlt⟩
      exact (mem_chunkKeys_iff hr' hnone hlt).mpr hle
  have hleft : ∀ r ∈ before.map (filled expression c), r.field = none → c < r.key →
      chunkKeys (before.map (filled expression c)) c limit ≠ [] := by
    intro r hr hnone hlt hnil
    have hmem : r.key ∈ openKeys (before.map (filled expression c)) c := mem_openKeys.mpr ⟨r, hr, hnone, hlt, rfl⟩
    rcases List.take_eq_nil_iff.mp hnil with hzero | hempty
    · omega
    · rw [openKeys, hempty] at hmem
      cases hmem
  unfold chunkSQL at h
  generalize chunkKeys (before.map (filled expression c)) c limit = keys at hmem hbeyond hleft h
  simp only at h
  split at h
  case isFalse => cases h
  case isTrue heval =>
    obtain ⟨rfl, hrest⟩ := Prod.mk.inj (Option.some.inj h)
    obtain ⟨rfl, rfl⟩ := Prod.mk.inj hrest
    have hup : c ≤ keys.max?.getD c := by
      cases hmax : keys.max? with
      | none => exact le_refl c
      | some last =>
        obtain ⟨_, _, _, hlt, _⟩ := hbeyond last (List.max?_mem hmax)
        exact le_of_lt hlt
    refine ⟨hup, ?_, ?_, ?_⟩
    · rw [List.map_map]
      apply List.map_congr_left
      intro r hr
      rw [Function.comp_apply, key_filled]
      by_cases hin : r.key ∈ keys
      · obtain ⟨hnone, hlt, hupto⟩ := (hmem r hr).mp hin
        rw [if_pos hin, filled_of_lt hlt, filled, if_pos ⟨hnone, by omega, hupto⟩]
      · rw [if_neg hin]
        unfold filled
        by_cases hold : r.field = none ∧ 0 < r.key ∧ r.key ≤ c
        · rw [if_pos hold, if_pos ⟨hold.1, hold.2.1, by omega⟩]
        · rw [if_neg hold, if_neg]
          rintro ⟨hnone, hpos, hupto⟩
          by_cases hlt : c < r.key
          · exact hin ((hmem r hr).mpr ⟨hnone, hlt, hupto⟩)
          · exact hold ⟨hnone, hpos, by omega⟩
    · intro r hr hnone hlt hle
      have hin : r.key ∈ keys := (hmem r hr).mpr ⟨hnone, hlt, hle⟩
      have hrow := List.all_eq_true.mp heval r (List.mem_map.mpr ⟨r, hr, filled_of_lt hlt⟩)
      exact exists_ok (by simpa [hin] using hrow)
    · intro hzero r hr hnone
      by_contra hgt
      have hlt : c < r.key := by omega
      obtain ⟨k, hk⟩ := List.exists_mem_of_ne_nil _ (hleft r (List.mem_map.mpr ⟨r, hr, filled_of_lt hlt⟩) hnone hlt)
      obtain ⟨row, hrow, _, _, rfl⟩ := hbeyond k hk
      rw [List.length_eq_zero_iff, List.filter_eq_nil_iff] at hzero
      exact hzero row hrow (decide_eq_true hk)

/-- **One pass** keeps the table filled up to the cursor. -/
theorem FilledTo.step {s t : Draining R V} {e : DrainEnd} (h : FilledTo expression before s)
    (hstep : drainOnePendingField expression configured s e = some t) : FilledTo expression before t := by
  cases e with
  | crashed =>
    cases hstep
    exact h
  | committed =>
    unfold drainOnePendingField at hstep
    simp only at hstep
    split at hstep
    case isFalse => cases hstep
    split at hstep
    case h_1 =>
      cases hstep
      exact ⟨h.nonneg, h.table, h.evaluated, nofun⟩
    case h_2 table newLastPK rowsUpdated hchunk =>
      cases hstep
      rw [h.table] at hchunk
      obtain ⟨hle, htable, heval, hdone⟩ := chunkSQL_filled hkeys h.nonneg (chunkSize_pos configured) hchunk
      refine ⟨h.nonneg.trans hle, htable, ?_, ?_⟩
      · intro r hr hnone hpos hupto
        by_cases hold : r.key ≤ s.progress.cursor
        · exact h.evaluated r hr hnone hpos hold
        · exact heval r hr hnone (by omega) hupto
      · intro hcomplete
        refine hdone ?_
        by_contra hne
        simp [hne] at hcomplete

end

/-- **A completed field has no gap exactly if the expression is `NULL` on the empty rows with keys up to 0.** -/
theorem noGap_iff {R V : Type} {expression : FillRow R V → Except String (Option V)} {configured : Int}
    {before : List (FillRow R V)} (hkeys : (before.map FillRow.key).Nodup) {s : Draining R V}
    (h : (drainMachine expression configured before).Reachable s) (hcomplete : s.progress.status = .complete) :
    NoGap expression before s.table ↔ ∀ r ∈ before, r.field = none → r.key ≤ 0 → expression r = .ok none := by
  have hfilled : FilledTo expression before s := by
    refine Machine.Reach.invariant ?_ ?_ h
    · rintro s rfl
      have hid : ∀ r ∈ before, filled expression 0 r = r := fun r _ => if_neg fun hr => by omega
      refine ⟨le_refl 0, ?_, fun r _ _ hpos hle => absurd hle (not_le.mpr hpos), nofun⟩
      exact ((List.map_congr_left hid).trans (List.map_id before)).symm
    · intro s e t hs _ hstep
      exact hs.step hkeys hstep
  have hpast := hfilled.complete hcomplete
  unfold NoGap
  rw [hfilled.table, List.forall₂_map_right_iff, List.forall₂_same]
  constructor
  · intro hgap r hr hnone hlow
    have hsame : filled expression s.progress.cursor r = r := if_neg fun hfill => by omega
    exact (hgap r hr).1 hnone (by rw [hsame, hnone])
  · intro hlow r hr
    constructor
    · intro hnone hempty
      by_cases hpos : 0 < r.key
      · obtain ⟨v, hv⟩ := hfilled.evaluated r hr hnone hpos (hpast r hr hnone)
        unfold filled at hempty
        rw [if_pos ⟨hnone, hpos, hpast r hr hnone⟩] at hempty
        unfold evaluated at hempty
        rw [hv] at hempty ⊢
        exact congrArg Except.ok hempty
      · exact hlow r hr hnone (by omega)
    · intro hsome
      exact if_neg fun hfill => hsome hfill.1

/-- **A row with key 0 stays empty**, and the field is complete. -/
theorem zero_key_left_empty : ∃ s : Draining Unit Nat,
    (drainMachine (fun _ => .ok (some 7)) 0 [⟨0, none, ()⟩, ⟨1, none, ()⟩]).Reachable s ∧
    s.progress.status = .complete ∧ s.table = [⟨0, none, ()⟩, ⟨1, some 7, ()⟩] := by
  have hrun : (drainMachine (fun _ : FillRow Unit Nat => .ok (some 7)) 0 [⟨0, none, ()⟩, ⟨1, none, ()⟩]).run
      ⟨[⟨0, none, ()⟩, ⟨1, none, ()⟩], {}⟩ [.committed, .crashed, .committed]
      = some ⟨[⟨0, none, ()⟩, ⟨1, some 7, ()⟩], ⟨.complete, some 1, 1⟩⟩ := by decide +kernel
  exact ⟨_, Machine.reachable_of_run (.initial rfl) hrun, rfl, rfl⟩

/-- Positive keys: the empty row is filled, the other one is kept. -/
theorem noGap_iff_positive : ∃ s : Draining Unit Nat, s.table = [⟨1, some 7, ()⟩, ⟨2, some 5, ()⟩] ∧
    NoGap (fun _ => .ok (some 7)) [⟨1, none, ()⟩, ⟨2, some 5, ()⟩] s.table := by
  have hrun : (drainMachine (fun _ : FillRow Unit Nat => .ok (some 7)) 0 [⟨1, none, ()⟩, ⟨2, some 5, ()⟩]).run
      ⟨[⟨1, none, ()⟩, ⟨2, some 5, ()⟩], {}⟩ [.committed, .committed]
      = some ⟨[⟨1, some 7, ()⟩, ⟨2, some 5, ()⟩], ⟨.complete, some 1, 1⟩⟩ := by decide +kernel
  refine ⟨_, rfl, (noGap_iff (by decide) (Machine.reachable_of_run (.initial rfl) hrun) rfl).mpr ?_⟩
  simp

end Atlantis.Admin
