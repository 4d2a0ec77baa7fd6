import Mathlib.Data.List.Sort

/-!
# `Lib.Keyed` — lists of things with keys

A pass that collects what it lowers, one item for each declaration, and refuses a key it has met before. A run without
errors has kept every item, and no key comes twice (`foldl_collect_iff`). Then sorting by the key forgets the order in
which the items were met, and nothing else (`sortBy_eq_iff`).
-/

namespace Atlantis.Lib

variable {α β ε κ : Type}

/-! ## Collecting -/

section

variable {step : List ε × List α → β → List ε × List α} {item : β → α} {key : α → κ} {ok : β → Prop}

-- a step without an error adds the item of a sound declaration whose key is new
variable (hstep : ∀ acc b out, step acc b = ([], out) ↔
  acc.1 = [] ∧ ok b ∧ key (item b) ∉ acc.2.map key ∧ out = acc.2 ++ [item b])

include hstep

/-- An error stays. -/
theorem errs_of_foldl_collect {bs : List β} {acc : List ε × List α} {out : List α}
    (h : bs.foldl step acc = ([], out)) : acc.1 = [] := by
  induction bs generalizing acc with
  | nil => exact congrArg Prod.fst h
  | cons b bs ih => exact ((hstep acc b _).mp (Prod.ext (ih h) rfl)).1

/-- **A run without errors.** -/
theorem foldl_collect_iff {bs : List β} {errs : List ε} {before out : List α} (hnodup : (before.map key).Nodup) :
    bs.foldl step (errs, before) = ([], out) ↔
      errs = [] ∧ (∀ b ∈ bs, ok b) ∧ (out.map key).Nodup ∧ out = before ++ bs.map item := by
  induction bs generalizing errs before with
  | nil =>
    simp only [List.foldl_nil, Prod.mk.injEq, List.map_nil, List.append_nil, List.not_mem_nil, false_implies, implies_true,
      true_and]
    exact and_congr_right fun _ => ⟨fun h => ⟨h ▸ hnodup, h.symm⟩, fun h => h.2.symm⟩
  | cons b bs ih =>
    rw [List.foldl_cons, List.forall_mem_cons, List.map_cons]
    by_cases hkept : errs = [] ∧ ok b ∧ key (item b) ∉ before.map key
    · obtain ⟨herrs, hok, hnew⟩ := hkept
      rw [(hstep (errs, before) b _).mpr ⟨herrs, hok, hnew, rfl⟩, ih, List.append_assoc, List.singleton_append]
      · simp only [herrs, hok, true_and]
      · rw [List.map_append, List.map_singleton, List.nodup_append]
        exact ⟨hnodup, List.nodup_singleton _, fun a ha c hc hac => hnew (List.mem_singleton.mp hc ▸ hac ▸ ha)⟩
    · -- a key that is there already comes twice
      refine iff_of_false (fun h => hkept ?_) ?_
      · obtain ⟨herrs, hok, hnew, -⟩ := (hstep (errs, before) b _).mp (Prod.ext (errs_of_foldl_collect hstep h) rfl)
        exact ⟨herrs, hok, hnew⟩
      · rintro ⟨herrs, ⟨hok, -⟩, hout, rfl⟩
        refine hkept ⟨herrs, hok, fun hmem => ?_⟩
        rw [List.map_append, List.nodup_append] at hout
        exact hout.2.2 _ hmem _ List.mem_cons_self rfl

end

/-! ## Sorting -/

/-- The list in the order of the keys. -/
def sortBy [LinearOrder κ] (key : α → κ) (l : List α) : List α := l.insertionSort fun a b => key a ≤ key b

variable [LinearOrder κ] {key : α → κ} {l l' : List α}

theorem sortBy_perm (key : α → κ) (l : List α) : (sortBy key l).Perm l := List.perm_insertionSort _ _

theorem sortBy_pairwise (key : α → κ) (l : List α) : (sortBy key l).Pairwise fun a b => key a ≤ key b := by
  have : Std.Total fun a b => key a ≤ key b := ⟨fun a b => le_total (key a) (key b)⟩
  have : IsTrans α fun a b => key a ≤ key b := ⟨fun a b c hab hbc => le_trans hab hbc⟩
  exact List.pairwise_insertionSort _ _

/-- **Sorted lists without a key twice are equal exactly if they have the same elements.** -/
theorem sortBy_eq_iff (hnodup : (l.map key).Nodup) : sortBy key l = sortBy key l' ↔ l.Perm l' := by
  constructor
  · intro h
    exact (sortBy_perm key l).symm.trans (h ▸ sortBy_perm key l')
  · intro hperm
    refine List.Perm.eq_of_pairwise ?_ (sortBy_pairwise key l) (sortBy_pairwise key l')
      ((sortBy_perm key l).trans (hperm.trans (sortBy_perm key l').symm))
    intro a b ha hb hab hba
    have ha := (sortBy_perm key l).mem_iff.mp ha
    have hb := hperm.mem_iff.mpr ((sortBy_perm key l').mem_iff.mp hb)
    exact List.inj_on_of_nodup_map hnodup ha hb (le_antisymm hab hba)

end Atlantis.Lib
