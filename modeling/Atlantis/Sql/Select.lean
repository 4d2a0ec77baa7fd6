import Atlantis.Lib.Paging
import Atlantis.Sql.Eval

/-!
# `Sql.Select` — what a `SELECT` over one table may return

A table is the list of its rows. `ORDER BY` asks for some arrangement in which no row stands behind one it
sorts before; rows that tie may come in either order, and without `ORDER BY` every arrangement will do. So a
`SELECT` has a set of results, `Select.Returns`, and a program that issues one has to be right for all of
them.

Where the sort columns are compared by a linear order, rows can be put in order (`exists_inOrder`), and a
row that no other sorts before may come first (`Select.exists_first`).
-/

namespace Atlantis.Sql

/-- One column of an `ORDER BY`. -/
structure SortKey where
  column : String
  desc : Bool
  deriving DecidableEq, Repr

variable {V : Type} (D : Dialect V)

/-- `r` sorts strictly before `s` by one key. `NULL` sorts as the greatest value. -/
def SortKey.before (k : SortKey) (r s : Row V) : Bool :=
  match r k.column, s k.column with
  | some a, some b => if k.desc then D.cmp k.column .gt a b else D.cmp k.column .lt a b
  | some _, none => !k.desc
  | none, some _ => k.desc
  | none, none => false

/-- `r` sorts strictly before `s`: the first key that tells them apart decides. -/
def rowBefore : List SortKey → Row V → Row V → Bool
  | [], _, _ => false
  | k :: ks, r, s => k.before D r s || (!k.before D s r && rowBefore ks r s)

/-- The comparisons of a column's type are those of one linear order. -/
structure Dialect.Linear (c : String) : Prop where
  eq_iff : ∀ a b, D.cmp c .eq a b = true ↔ a = b
  gt_eq : ∀ a b, D.cmp c .gt a b = D.cmp c .lt b a
  irrefl : ∀ a, D.cmp c .lt a a = false
  trans : ∀ {x y z}, D.cmp c .lt x y = true → D.cmp c .lt y z = true → D.cmp c .lt x z = true
  total : ∀ {x y}, x ≠ y → D.cmp c .lt x y = true ∨ D.cmp c .lt y x = true

variable {D}

theorem Dialect.Linear.asymm {c : String} (h : D.Linear c) {x y : V} (hxy : D.cmp c .lt x y = true) :
    D.cmp c .lt y x = false := by
  by_contra hyx
  have hxx := h.trans hxy (by simpa using hyx)
  rw [h.irrefl] at hxx
  cases hxx

/-- What is not before `y` is not before anything that `y` is not behind. -/
theorem Dialect.Linear.not_lt_trans {c : String} (h : D.Linear c) {x y z : V}
    (hxy : D.cmp c .lt y x = false) (hyz : D.cmp c .lt z y = false) : D.cmp c .lt z x = false := by
  by_contra hzx
  have hzx : D.cmp c .lt z x = true := by simpa using hzx
  have hyx : y ≠ x := by
    rintro rfl
    rw [hyz] at hzx
    cases hzx
  rcases h.total hyx with hlt | hlt
  · rw [hxy] at hlt
    cases hlt
  · have := h.trans hzx hlt
    rw [hyz] at this
    cases this

variable {k : SortKey} {ks : List SortKey} {r s t : Row V}

theorem SortKey.before_asymm (h : D.Linear k.column) (hrs : k.before D r s = true) :
    k.before D s r = false := by
  unfold SortKey.before at *
  cases hr : r k.column <;> cases hs : s k.column <;> cases hd : k.desc <;>
    simp_all [h.gt_eq, h.asymm]

theorem SortKey.not_before_trans (h : D.Linear k.column) (hrs : k.before D s r = false)
    (hst : k.before D t s = false) : k.before D t r = false := by
  unfold SortKey.before at *
  cases hr : r k.column <;> cases hs : s k.column <;> cases ht : t k.column <;> cases hd : k.desc <;>
    simp_all only [h.gt_eq, reduceCtorEq, if_true, if_false, Bool.not_true, Bool.not_false,
      Bool.false_eq_true]
  · exact h.not_lt_trans hrs hst
  · exact h.not_lt_trans hst hrs

theorem rowBefore_asymm (h : ∀ k ∈ ks, D.Linear k.column) (hrs : rowBefore D ks r s = true) :
    rowBefore D ks s r = false := by
  induction ks with
  | nil => rfl
  | cons k ks ih =>
    have hk := h k (by simp)
    have hrec := ih fun x hx => h x (List.mem_cons_of_mem _ hx)
    simp only [rowBefore, Bool.or_eq_true, Bool.and_eq_true, Bool.not_eq_true'] at hrs
    simp only [rowBefore, Bool.or_eq_false_iff, Bool.and_eq_false_iff, Bool.not_eq_false']
    rcases hrs with hlt | ⟨hnot, hrest⟩
    · exact ⟨SortKey.before_asymm hk hlt, .inl hlt⟩
    · exact ⟨hnot, .inr (hrec hrest)⟩

theorem SortKey.eq_of_not_before (h : D.Linear k.column) (hrs : k.before D r s = false)
    (hsr : k.before D s r = false) : r k.column = s k.column := by
  unfold SortKey.before at hrs hsr
  cases hr : r k.column with
  | none =>
    cases hs : s k.column with
    | none => rfl
    | some b => cases hd : k.desc <;> simp [hr, hs, hd] at hrs hsr
  | some a =>
    cases hs : s k.column with
    | none => cases hd : k.desc <;> simp [hr, hs, hd] at hrs hsr
    | some b =>
      by_contra hne
      have hab : a ≠ b := fun h => hne (congrArg some h)
      rcases h.total hab with hlt | hlt <;> cases hd : k.desc <;> simp [hr, hs, hd, h.gt_eq, hlt] at hrs hsr

/-- Rows that tie have the same coordinates. -/
theorem eq_of_not_rowBefore (h : ∀ k ∈ ks, D.Linear k.column) (hrs : rowBefore D ks r s = false)
    (hsr : rowBefore D ks s r = false) : ∀ k ∈ ks, r k.column = s k.column := by
  induction ks with
  | nil => exact fun k hk => absurd hk List.not_mem_nil
  | cons k ks ih =>
    simp only [rowBefore, Bool.or_eq_false_iff, Bool.and_eq_false_iff, Bool.not_eq_false'] at hrs hsr
    obtain ⟨hbefore, hrs⟩ := hrs
    obtain ⟨hbefore', hsr⟩ := hsr
    rw [hbefore'] at hrs
    rw [hbefore] at hsr
    have hrest := ih (fun x hx => h x (List.mem_cons_of_mem _ hx)) (hrs.resolve_left Bool.false_ne_true)
      (hsr.resolve_left Bool.false_ne_true)
    intro x hx
    rcases List.mem_cons.mp hx with rfl | hx
    · exact SortKey.eq_of_not_before (h x (by simp)) hbefore hbefore'
    · exact hrest x hx

/-- The order of rows is total up to ties. -/
theorem not_rowBefore_trans (h : ∀ k ∈ ks, D.Linear k.column) (hrs : rowBefore D ks s r = false)
    (hst : rowBefore D ks t s = false) : rowBefore D ks t r = false := by
  induction ks with
  | nil => rfl
  | cons k ks ih =>
    have hk := h k (by simp)
    have hrec := ih fun x hx => h x (List.mem_cons_of_mem _ hx)
    simp only [rowBefore, Bool.or_eq_false_iff, Bool.and_eq_false_iff, Bool.not_eq_false'] at hrs hst ⊢
    obtain ⟨hsr, hrs⟩ := hrs
    obtain ⟨hts, hst⟩ := hst
    refine ⟨SortKey.not_before_trans hk hsr hts, ?_⟩
    -- either one of the two steps is strict in this key, or both rest on the keys after it
    by_cases hstrict : k.before D r t = true
    · exact .inl hstrict
    have htr : k.before D r t = false := by simpa using hstrict
    rcases hrs with hlt | hrs
    · rw [SortKey.not_before_trans hk hts htr] at hlt
      cases hlt
    · rcases hst with hlt | hst
      · rw [SortKey.not_before_trans hk htr hsr] at hlt
        cases hlt
      · exact .inr (hrec hrs hst)

/-! ## Statements -/

/-- `SELECT … FROM t [WHERE where_] [ORDER BY orderBy] [LIMIT limit]`. -/
structure Select where
  where_ : List Tok
  orderBy : List SortKey
  limit : Option Nat
  deriving DecidableEq, Repr

variable (D) (ps : Params V)

/-- The rows that meet the condition. -/
def Select.matching (q : Select) (table : List (Row V)) : List (Row V) :=
  table.filter fun r => fragValue D r ps q.where_ == some .true

/-- No row stands behind one it sorts before. -/
def InOrder (keys : List SortKey) (rows : List (Row V)) : Prop :=
  rows.Pairwise fun r s => rowBefore D keys s r = false

/-- The condition is grammatical; a statement with any other is refused. -/
def Select.Parses (q : Select) : Prop := q.where_ = [] ∨ (parse q.where_).isSome

/-- `out` is a result of the statement. -/
def Select.Returns (q : Select) (table out : List (Row V)) : Prop :=
  q.Parses ∧ ∃ rows : List (Row V), rows.Perm (q.matching D ps table) ∧ InOrder D q.orderBy rows ∧
    out = match q.limit with
      | none => rows
      | some n => rows.take n

variable {D ps} {q : Select} {table out : List (Row V)}

theorem Select.mem_matching {r : Row V} :
    r ∈ q.matching D ps table ↔ r ∈ table ∧ fragValue D r ps q.where_ = some .true := by
  unfold Select.matching
  rw [List.mem_filter, beq_iff_eq]

/-- Nothing is returned that does not meet the condition. -/
theorem Select.Returns.mem (h : q.Returns D ps table out) {r : Row V} (hr : r ∈ out) :
    r ∈ table ∧ fragValue D r ps q.where_ = some .true := by
  obtain ⟨_, rows, hperm, _, rfl⟩ := h
  rw [← Select.mem_matching, ← hperm.mem_iff]
  cases hlim : q.limit with
  | none => simpa [hlim] using hr
  | some n =>
    rw [hlim] at hr
    exact List.mem_of_mem_take hr

/-- Rows can be put in order. -/
theorem exists_inOrder {keys : List SortKey} (h : ∀ k ∈ keys, D.Linear k.column) (rows : List (Row V)) :
    ∃ sorted : List (Row V), sorted.Perm rows ∧ InOrder D keys sorted := by
  obtain ⟨sorted, hperm, hsorted, -⟩ := Lib.exists_arranged (rowBefore D keys)
    (fun _ _ => rowBefore_asymm h) (fun _ _ _ => not_rowBefore_trans h) rows
  exact ⟨sorted, hperm, hsorted⟩

/-- Some row is behind no other. -/
theorem exists_last {keys : List SortKey} (h : ∀ k ∈ keys, D.Linear k.column) {rows : List (Row V)}
    (hne : rows ≠ []) : ∃ m ∈ rows, ∀ s ∈ rows, rowBefore D keys m s = false := by
  obtain ⟨sorted, hperm, hsorted⟩ := exists_inOrder h rows
  have hne' : sorted ≠ [] := fun hnil => hne (List.perm_nil.mp (hnil ▸ hperm.symm))
  obtain ⟨front, m, rfl⟩ : ∃ front m, sorted = front ++ [m] :=
    ⟨sorted.dropLast, sorted.getLast hne', (List.dropLast_append_getLast hne').symm⟩
  refine ⟨m, hperm.mem_iff.mp (by simp), fun s hs => ?_⟩
  rcases List.mem_append.mp (hperm.mem_iff.mpr hs) with hs | hs
  · exact (List.pairwise_append.mp hsorted).2.2 s hs m (by simp)
  · rw [List.mem_singleton.mp hs]
    by_contra hmm
    have hmm : rowBefore D keys m m = true := by simpa using hmm
    have hno := rowBefore_asymm h hmm
    rw [hmm] at hno
    cases hno

/-- A row that no other sorts before may come first. -/
theorem Select.exists_first (h : ∀ k ∈ q.orderBy, D.Linear k.column) {r : Row V}
    (hr : r ∈ q.matching D ps table)
    (hfirst : ∀ s ∈ q.matching D ps table, rowBefore D q.orderBy s r = false) :
    ∃ rest, (r :: rest).Perm (q.matching D ps table) ∧ InOrder D q.orderBy (r :: rest) := by
  obtain ⟨before, after, hsplit⟩ := List.append_of_mem hr
  obtain ⟨rest, hperm, hsorted⟩ := exists_inOrder h (before ++ after)
  have hall : (r :: rest).Perm (q.matching D ps table) := by
    rw [hsplit]
    exact (hperm.cons r).trans List.perm_middle.symm
  refine ⟨rest, hall, List.pairwise_cons.mpr ⟨fun s hs => ?_, hsorted⟩⟩
  exact hfirst s (hall.mem_iff.mp (List.mem_cons_of_mem _ hs))

end Atlantis.Sql
