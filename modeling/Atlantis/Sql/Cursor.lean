import Atlantis.Sql.Select

/-!
# `Sql.Cursor` — rows strictly after a cursor

A cursor is a value for each sort key. A row comes after it when, at the first key where the two differ, the
row is beyond the cursor in the direction of that key (`afterCursor`); a `NULL` up to there leaves the
comparison unknown, and the row is not selected.

A cursor is made from a row by copying its values. What stands for a `NULL` is not said (`CursorFor`): the
programs that make cursors put some value of the column's type there. Even so, *after the cursor of* is a
strict partial order of rows. It is the sort order on rows without `NULL` (`afterCursor_iff_rowBefore`).
-/

namespace Atlantis.Sql

variable {V : Type} (D : Dialect V)

/-- `v` is beyond `b` in the direction of the key. -/
def SortKey.beyond (k : SortKey) (v b : V) : Bool := D.cmp k.column (if k.desc then .lt else .gt) v b

/-- The row comes strictly after the cursor. -/
def afterCursor : List SortKey → List V → Row V → Bool
  | k :: ks, b :: bs, r =>
    match r k.column with
    | none => false
    | some v => k.beyond D v b || (D.cmp k.column .eq v b && afterCursor ks bs r)
  | _, _, _ => false

/-- A cursor made from a row: its values where it has values. -/
def CursorFor (keys : List SortKey) (bs : List V) (r : Row V) : Prop :=
  List.Forall₂ (fun (k : SortKey) b => ∀ v, r k.column = some v → b = v) keys bs

variable {D} {k : SortKey} {keys : List SortKey} {bs cs : List V} {r s t : Row V} {u v w : V}

/-! ## One key -/

theorem SortKey.beyond_irrefl (h : D.Linear k.column) (v : V) : k.beyond D v v = false := by
  unfold SortKey.beyond
  cases k.desc with
  | false => exact (h.gt_eq v v).trans (h.irrefl v)
  | true => exact h.irrefl v

theorem SortKey.beyond_trans (h : D.Linear k.column) (huv : k.beyond D u v = true) (hvw : k.beyond D v w = true) :
    k.beyond D u w = true := by
  unfold SortKey.beyond at *
  cases hd : k.desc with
  | false =>
    simp only [hd, Bool.false_eq_true, if_false, h.gt_eq] at huv hvw ⊢
    exact h.trans hvw huv
  | true =>
    simp only [hd, if_true] at huv hvw ⊢
    exact h.trans huv hvw

theorem SortKey.beyond_total (h : D.Linear k.column) (hne : u ≠ v) : k.beyond D u v = true ∨ k.beyond D v u = true := by
  unfold SortKey.beyond
  cases k.desc with
  | false =>
    show D.cmp k.column .gt u v = true ∨ D.cmp k.column .gt v u = true
    rw [h.gt_eq, h.gt_eq]
    exact (h.total hne).symm
  | true => exact h.total hne

/-! ## All keys -/

theorem afterCursor_cons {ks : List SortKey} {b : V} (hk : D.Linear k.column) :
    afterCursor D (k :: ks) (b :: bs) r = true ↔
      ∃ v, r k.column = some v ∧ (k.beyond D v b = true ∨ (v = b ∧ afterCursor D ks bs r = true)) := by
  rw [afterCursor]
  cases r k.column with
  | none => simp
  | some v =>
    show (k.beyond D v b || (D.cmp k.column .eq v b && afterCursor D ks bs r)) = true ↔ _
    rw [Bool.or_eq_true, Bool.and_eq_true, hk.eq_iff]
    constructor
    · exact fun h => ⟨v, rfl, h⟩
    · rintro ⟨v', hv', h⟩
      rwa [Option.some.inj hv']

/-- **The first key decides** at which the row differs from the cursor: there it has a value, beyond the cursor's. -/
theorem afterCursor_map_iff (h : ∀ k ∈ keys, D.Linear k.column) {f : SortKey → V} :
    afterCursor D keys (keys.map f) s = true ↔ ∃ front k rest v, keys = front ++ k :: rest ∧
      (∀ j ∈ front, s j.column = some (f j)) ∧ s k.column = some v ∧ k.beyond D v (f k) = true := by
  induction keys with
  | nil => exact iff_of_false (fun h => by cases h) (by rintro ⟨front, k, rest, v, hnil, -⟩; cases front <;> cases hnil)
  | cons k ks ih =>
    obtain ⟨hk, hks⟩ := List.forall_mem_cons.mp h
    rw [List.map_cons, afterCursor_cons hk]
    constructor
    · rintro ⟨v, hv, hbeyond | ⟨rfl, hafter⟩⟩
      · exact ⟨[], k, ks, v, rfl, List.forall_mem_nil _, hv, hbeyond⟩
      · obtain ⟨front, j, rest, w, rfl, hfront, hw, hbeyond⟩ := (ih hks).mp hafter
        exact ⟨k :: front, j, rest, w, rfl, List.forall_mem_cons.mpr ⟨hv, hfront⟩, hw, hbeyond⟩
    · rintro ⟨front, j, rest, w, hkeys, hfront, hw, hbeyond⟩
      cases front with
      | nil =>
        cases hkeys
        exact ⟨w, hw, .inl hbeyond⟩
      | cons i front =>
        cases hkeys
        obtain ⟨hi, hfront⟩ := List.forall_mem_cons.mp hfront
        exact ⟨_, hi, .inr ⟨rfl, (ih hks).mpr ⟨front, j, rest, w, rfl, hfront, hw, hbeyond⟩⟩⟩

/-- **Asymmetric.** What comes after the cursor of a row does not have that row after its own. -/
theorem afterCursor_asymm (h : ∀ k ∈ keys, D.Linear k.column) (hr : CursorFor keys bs r) (hs : CursorFor keys cs s)
    (hrs : afterCursor D keys bs s = true) : afterCursor D keys cs r = false := by
  induction hr generalizing cs with
  | nil => cases hrs
  | @cons k b ks bs hb _ ih =>
    cases hs with
    | @cons _ c _ cs hc hs =>
      have hk := h k (by simp)
      obtain ⟨v, hv, hcase⟩ := (afterCursor_cons hk).mp hrs
      obtain rfl := hc v hv
      by_contra hsr
      obtain ⟨u, hu, hcase'⟩ := (afterCursor_cons hk).mp (by simpa using hsr)
      obtain rfl := hb u hu
      -- either one of the two is beyond the other here, or this key says nothing
      rcases hcase with hbeyond | ⟨rfl, hafter⟩
      · rcases hcase' with hbeyond' | ⟨rfl, _⟩
        · have hself := SortKey.beyond_trans hk hbeyond hbeyond'
          rw [SortKey.beyond_irrefl hk] at hself
          cases hself
        · rw [SortKey.beyond_irrefl hk] at hbeyond
          cases hbeyond
      · rcases hcase' with hbeyond' | ⟨_, hafter'⟩
        · rw [SortKey.beyond_irrefl hk] at hbeyond'
          cases hbeyond'
        · rw [ih (fun x hx => h x (List.mem_cons_of_mem _ hx)) hs hafter] at hafter'
          cases hafter'

/-- **Transitive.** -/
theorem afterCursor_trans (h : ∀ k ∈ keys, D.Linear k.column) (hs : CursorFor keys cs s)
    (hrs : afterCursor D keys bs s = true) (hst : afterCursor D keys cs t = true) :
    afterCursor D keys bs t = true := by
  induction hs generalizing bs with
  | nil => cases hst
  | @cons k c ks cs hc _ ih =>
    cases bs with
    | nil => cases hrs
    | cons b bs =>
      have hk := h k (by simp)
      obtain ⟨v, hv, hcase⟩ := (afterCursor_cons hk).mp hrs
      obtain rfl := hc v hv
      obtain ⟨w, hw, hcase'⟩ := (afterCursor_cons hk).mp hst
      apply (afterCursor_cons hk).mpr
      refine ⟨w, hw, ?_⟩
      rcases hcase with hbeyond | ⟨rfl, hafter⟩
      · rcases hcase' with hbeyond' | ⟨rfl, _⟩
        · exact .inl (SortKey.beyond_trans hk hbeyond' hbeyond)
        · exact .inl hbeyond
      · rcases hcase' with hbeyond' | ⟨rfl, hafter'⟩
        · exact .inl hbeyond'
        · exact .inr ⟨rfl, ih (fun x hx => h x (List.mem_cons_of_mem _ hx)) hafter hafter'⟩

/-- **On rows without `NULL` it is the sort order.** -/
theorem afterCursor_iff_rowBefore (h : ∀ k ∈ keys, D.Linear k.column) (hr : CursorFor keys bs r)
    (hrow : ∀ k ∈ keys, (r k.column).isSome) (hrow' : ∀ k ∈ keys, (s k.column).isSome) :
    afterCursor D keys bs s = rowBefore D keys r s := by
  induction hr with
  | nil => rfl
  | @cons k b ks bs hb _ ih =>
    have hk := h k (by simp)
    obtain ⟨u, hu⟩ := Option.isSome_iff_exists.mp (hrow k (by simp))
    obtain ⟨v, hv⟩ := Option.isSome_iff_exists.mp (hrow' k (by simp))
    obtain rfl := hb u hu
    have hrec := ih (fun x hx => h x (List.mem_cons_of_mem _ hx)) (fun x hx => hrow x (List.mem_cons_of_mem _ hx))
      (fun x hx => hrow' x (List.mem_cons_of_mem _ hx))
    -- being beyond is sorting behind
    have hbefore : ∀ {x y : Row V} {a c : V}, x k.column = some a → y k.column = some c →
        k.before D x y = k.beyond D c a := by
      intro x y a c hx hy
      unfold SortKey.before SortKey.beyond
      rw [hx, hy]
      cases k.desc with
      | false => exact (hk.gt_eq c a).symm
      | true => exact hk.gt_eq a c
    rw [rowBefore, hbefore hu hv, hbefore hv hu, Bool.eq_iff_iff, afterCursor_cons hk, ← hrec]
    simp only [hv, Option.some_inj, exists_eq_left', Bool.or_eq_true, Bool.and_eq_true, Bool.not_eq_true']
    by_cases heq : v = b
    · subst heq
      simp [SortKey.beyond_irrefl hk]
    · rcases SortKey.beyond_total hk heq with hlt | hlt
      · simp [hlt]
      · simp [heq, hlt]

end Atlantis.Sql
