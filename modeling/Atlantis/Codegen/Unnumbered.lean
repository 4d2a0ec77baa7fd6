import Atlantis.Proto.Numbers

/-!
# `Codegen.Unnumbered` — the diff reads no numbers

Schemas that are the same up to proto numbers have an empty diff, whoever submits them and in whatever order maps are
visited (`ComputeDiff_sameSchema`): every part of `ComputeDiff` compares fields of the schema other than the numbers.
-/

namespace Atlantis.Codegen

open Schema Proto

/-! ## Looking up -/

variable {α : Type} {oldE newE : Entity} {key : α → String}

/-- Looking up an element commutes with a map that keeps its key. -/
theorem lastWith_map {g : α → α} (hg : ∀ x, key (g x) = key x) (k : String) (l : List α) :
    lastWith key k (l.map g) = (lastWith key k l).map g := by
  unfold lastWith
  rw [← List.map_reverse, List.find?_map]
  simp only [Function.comp_def, hg]

/-- Looking up an element among those whose key passes a test. -/
theorem lastWith_filter (q : String → Bool) (k : String) (l : List α) :
    lastWith key k (l.filter fun x => q (key x)) = if q k then lastWith key k l else none := by
  unfold lastWith
  rw [← List.filter_reverse, List.find?_filter]
  split
  · rename_i hq
    congr 1
    funext x
    by_cases hx : key x = k
    · simp [hx, hq]
    · simp [hx]
  · rename_i hq
    rw [List.find?_eq_none]
    intro x _ hx
    simp only [beq_iff_eq, decide_eq_true_eq] at hx
    exact hq (hx.2 ▸ hx.1)

/-- Two lists that are equal after such a map have the same keys, with elements that the map makes equal. -/
theorem lastWith_cases {g : α → α} (hg : ∀ x, key (g x) = key x) {l l' : List α} (h : l.map g = l'.map g) (k : String) :
    (lastWith key k l = none ∧ lastWith key k l' = none) ∨
      ∃ x y, lastWith key k l = some x ∧ lastWith key k l' = some y ∧ g x = g y := by
  have hmap : (lastWith key k l).map g = (lastWith key k l').map g := by
    rw [← lastWith_map hg, ← lastWith_map hg, h]
  cases hx : lastWith key k l with
  | none =>
    rw [hx] at hmap
    exact .inl ⟨rfl, Option.map_eq_none_iff.mp hmap.symm⟩
  | some x =>
    rw [hx] at hmap
    obtain ⟨y, hy, hxy⟩ := Option.map_eq_some_iff.mp hmap.symm
    exact .inr ⟨x, y, rfl, hy, hxy.symm⟩

/-! ## Parts of the diff -/

theorem diffFields_unnumbered (h : oldE.fields.map unnumbered = newE.fields.map unnumbered) (ctx : DiffCtx) :
    diffFields ctx oldE newE = [] := by
  unfold diffFields
  rw [List.flatMap_eq_nil_iff]
  intro name _
  have hname : ∀ f : Field, (unnumbered f).name = f.name := fun _ => rfl
  unfold diffFieldNamed fieldByName
  rcases lastWith_cases hname h name with ⟨hold, hnew⟩ | ⟨oldF, newF, hold, hnew, hsame⟩
  · rw [hold, hnew]
  · rw [hold, hnew]
    simp only [unnumbered, Field.mk.injEq] at hsame
    obtain ⟨_, htype, _, _, hserial, hnotNull, hunique, _, hbackfill, hdefault, href, _⟩ := hsame
    have hrefs : diffFieldRef newE.id oldF newF = [] := by
      unfold diffFieldRef
      rw [href]
      cases newF.ref with
      | none => rfl
      | some r => exact if_pos rfl
    simp [diffField, diffFieldType, diffFieldNotNull, diffFieldUnique, diffFieldDefault, diffFieldBackfill,
      diffFieldSerial, typeEqual, htype, hnotNull, hunique, hdefault, hbackfill, hserial, hrefs]

/-- Nothing in a map has a key that its own list lacks. -/
theorem filter_order_mapValues (ord : RangeOrder) (site : String) (key : α → String) (l : List α) :
    (ord.order site (mapValues key l)).filter (fun x => !(l.map key).contains (key x)) = [] := by
  rw [List.filter_eq_nil_iff]
  intro x hx
  have hmem := (lastWith_mem (mem_mapValues.mp ((ord.perm _ _).mem_iff.mp hx))).1
  simpa using ⟨x, hmem, rfl⟩

theorem diffEntity_unnumbered (h : oldE.unnumbered = newE.unnumbered) (ctx : DiffCtx) (ord : RangeOrder) :
    diffEntity ctx ord oldE newE = [] := by
  simp only [Entity.unnumbered, Entity.mk.injEq] at h
  obtain ⟨_, _, _, _, hfields, hindexes, huniques, _, htimeout, _, _, _, _, htable, _⟩ := h
  unfold diffEntity diffTableName diffQueryTimeout diffIndexes addedIndexes removedIndexes diffUniques addedUniques
    removedUniques
  rw [diffFields_unnumbered hfields ctx, hindexes, huniques, if_pos htable, if_pos htimeout]
  simp only [filter_order_mapValues]
  rfl

/-- **Schemas that are the same up to numbers have an empty diff**, whoever submits them. -/
theorem ComputeDiff_sameSchema {oldIR newIR : IR} (h : SameSchema oldIR newIR) (ctx : DiffCtx) (ord : RangeOrder) :
    ComputeDiff ctx ord oldIR newIR = ⟨[], [], []⟩ := by
  have hid : ∀ e : Entity, e.unnumbered.id = e.id := fun _ => rfl
  have hentities : oldIR.entities.map Entity.unnumbered = newIR.entities.map Entity.unnumbered := IR.mk.inj h
  have hnone : allChanges ctx ord oldIR newIR = [] := by
    unfold allChanges
    rw [List.flatMap_eq_nil_iff]
    intro id _
    unfold diffID entityByID
    rcases lastWith_cases hid hentities id with
      ⟨hold, hnew⟩ | ⟨oldE, newE, hold, hnew, hsame⟩
    · rw [hold, hnew]
    · rw [hold, hnew]
      exact diffEntity_unnumbered hsame ctx ord
  unfold ComputeDiff
  rw [hnone]
  rfl

end Atlantis.Codegen
