import Mathlib.Data.String.Basic
import Atlantis.Lib.Fold
import Atlantis.Pg.Catalog

/-!
# `Pg.Tables` — what building and growing a table leaves

Adding a column brings the constraints written on it, under the names the database gives them; adding a
constraint needs its name to be free. A `CREATE TABLE` is nothing else, column by column and constraint by
constraint, so a table it makes has the declared columns and exactly the constraints of the declaration
(`buildTable_built`).
-/

namespace Atlantis.Pg

open Lib

/-- The columns a constraint makes `NOT NULL`. -/
def Constraint.keyCols : Constraint → List String
  | .primaryKey cols => cols
  | _ => []

/-- The columns a list of constraints makes `NOT NULL`. -/
def keyCols (l : List (String × Constraint)) : List String := l.flatMap fun nb => nb.2.keyCols

/-- The constraints of a `CREATE TABLE`: first those written on the columns. -/
def declared (t : TableRef) (cols : List ColumnDecl) (constraints : List (String × Constraint)) :
    List (String × Constraint) := cols.flatMap (inlineConstraints t) ++ constraints

/-- The column a declaration makes beside these table constraints. -/
def builtColumn (constraints : List (String × Constraint)) (d : ColumnDecl) : Column :=
  let x := d.spec.column
  if (keyCols constraints).contains d.name then { x with notNull := true } else x

/-- What is left of a declaration. -/
structure Table.Built (t : TableRef) (cols : List ColumnDecl) (constraints : List (String × Constraint))
    (tbl : Table) : Prop where
  columns : IsMap tbl.columns (cols.map fun d => (d.name, builtColumn constraints d))
  constraints : IsMap tbl.constraints (declared t cols constraints)
  triggers : tbl.triggers = fun _ => none
  hypertable : tbl.hypertable = none

/-! ## Constraints -/

variable {c : Catalog} {t : TableRef} {tbl tbl' : Table} {n : String} {b : Constraint} {d : ColumnDecl}
  {cols : List ColumnDecl} {cons : List (String × Constraint)}

/-- The table with one more constraint. -/
def Table.withConstraint (tbl : Table) (n : String) (b : Constraint) : Table :=
  { tbl with constraints := Function.update tbl.constraints n (some b) }.markNotNull true b.keyCols

@[simp] theorem Table.withConstraint_constraints :
    (tbl.withConstraint n b).constraints = Function.update tbl.constraints n (some b) := rfl

/-- A constraint is recorded under a free name only. -/
theorem Table.addConstraint_iff :
    tbl.addConstraint t n b = .ok tbl' ↔ tbl.constraints n = none ∧ tbl' = tbl.withConstraint n b := by
  unfold Table.addConstraint
  cases hn : tbl.constraints n with
  | none => cases b <;> exact ⟨fun h => ⟨rfl, (Except.ok.inj h).symm⟩, fun h => congrArg Except.ok h.2.symm⟩
  | some x => simp

/-- The constraints with some more entries. -/
def addEntries (f : String → Option Constraint) (l : List (String × Constraint)) : String → Option Constraint :=
  l.foldl (fun f nb => Function.update f nb.1 (some nb.2)) f

/-- The table with some more constraints. -/
def Table.withConstraints (tbl : Table) (l : List (String × Constraint)) : Table :=
  { tbl with constraints := addEntries tbl.constraints l }.markNotNull true (keyCols l)

theorem Table.withConstraints_cons (nb : String × Constraint) (l : List (String × Constraint)) :
    tbl.withConstraints (nb :: l) = (tbl.withConstraint nb.1 nb.2).withConstraints l := by
  have hcols : keyCols (nb :: l) = nb.2.keyCols ++ keyCols l := rfl
  unfold Table.withConstraints Table.withConstraint Table.markNotNull
  rw [hcols]
  congr 1
  funext c
  by_cases hc : c ∈ nb.2.keyCols <;> by_cases hl : c ∈ keyCols l <;> simp [hc, hl, Function.comp_def]

/-- Constraints are recorded one after the other under different free names. -/
theorem Table.addConstraints_iff {l : List (String × Constraint)} :
    l.foldlM (fun tbl nb => tbl.addConstraint t nb.1 nb.2) tbl = .ok tbl' ↔
      (l.map Prod.fst).Nodup ∧ (∀ nb ∈ l, tbl.constraints nb.1 = none) ∧ tbl' = tbl.withConstraints l := by
  induction l generalizing tbl with
  | nil => exact ⟨fun h => ⟨.nil, List.forall_mem_nil _, (Except.ok.inj h).symm⟩, fun h => congrArg _ h.2.2.symm⟩
  | cons nb l ih =>
    -- a name still to come is free after this one was taken if it was free and is not this one
    have hother : ∀ n, (tbl.withConstraint nb.1 nb.2).constraints n = none ↔ n ≠ nb.1 ∧ tbl.constraints n = none := by
      intro n
      rw [Table.withConstraint_constraints, Function.update_apply]
      split <;> simp [*]
    simp only [List.foldlM_cons, bind_eq_ok, Table.addConstraint_iff, ih, List.map_cons, List.nodup_cons,
      List.forall_mem_cons, Table.withConstraints_cons]
    constructor
    · rintro ⟨_, ⟨hfree, rfl⟩, hnodup, hrest, rfl⟩
      refine ⟨⟨fun hmem => ?_, hnodup⟩, ⟨hfree, fun x hx => ((hother _).mp (hrest x hx)).2⟩, rfl⟩
      obtain ⟨x, hx, hxn⟩ := List.mem_map.mp hmem
      exact ((hother _).mp (hrest x hx)).1 hxn
    · rintro ⟨⟨hnew, hnodup⟩, ⟨hfree, hrest⟩, rfl⟩
      refine ⟨_, ⟨hfree, rfl⟩, hnodup, fun x hx => (hother _).mpr ⟨?_, hrest x hx⟩, rfl⟩
      exact fun h => hnew (h ▸ List.mem_map_of_mem hx)

/-! ## Columns -/

/-- Names the database gives to different kinds of constraints are different. -/
theorem inlineUniqueName_ne_inlineCheckName (t t' : TableRef) (c c' : String) :
    inlineUniqueName t c ≠ inlineCheckName t' c' := by
  have hkey : ∀ s : String, (s ++ "_key").toList.getLast? = some 'y' := by
    intro s
    rw [String.toList_append, List.getLast?_append]
    rfl
  have hcheck : ∀ s : String, (s ++ "_check").toList.getLast? = some 'k' := by
    intro s
    rw [String.toList_append, List.getLast?_append]
    rfl
  intro h
  have hlast := congrArg (fun s : String => s.toList.getLast?) h
  unfold inlineUniqueName inlineCheckName at hlast
  simp only [hkey, hcheck] at hlast
  revert hlast
  decide

theorem nodup_inlineConstraints (t : TableRef) (d : ColumnDecl) : ((inlineConstraints t d).map Prod.fst).Nodup := by
  unfold inlineConstraints
  by_cases hu : d.unique = true <;> by_cases hc : d.check = "" <;>
    simp [hu, hc, inlineUniqueName_ne_inlineCheckName]

theorem keyCols_inlineConstraints (t : TableRef) (d : ColumnDecl) :
    keyCols (inlineConstraints t d) = [] := by
  unfold inlineConstraints keyCols
  by_cases hu : d.unique = true <;> by_cases hc : d.check = "" <;> simp [hu, hc, Constraint.keyCols]

/-- A table with one more column and what is written on it. -/
def Table.withColumn (t : TableRef) (tbl : Table) (d : ColumnDecl) : Table :=
  { tbl with
    columns := Function.update tbl.columns d.name (some d.spec.column)
    constraints := addEntries tbl.constraints (inlineConstraints t d) }

theorem Table.withConstraints_inline :
    { tbl with columns := Function.update tbl.columns d.name (some d.spec.column) }.withConstraints
      (inlineConstraints t d) = tbl.withColumn t d := by
  unfold Table.withConstraints
  rw [keyCols_inlineConstraints]
  rfl

/-- A column is added under a free name, with free names for its constraints. -/
theorem Table.addColumn_iff : tbl.addColumn t d = .ok tbl' ↔ tbl.columns d.name = none ∧
    (∀ nb ∈ inlineConstraints t d, tbl.constraints nb.1 = none) ∧ tbl' = tbl.withColumn t d := by
  unfold Table.addColumn
  cases hcol : tbl.columns d.name with
  | none => simp [Table.addConstraints_iff, nodup_inlineConstraints, Table.withConstraints_inline]
  | some x => simp

/-! ## Whole tables -/

theorem isMap_addEntries {f : String → Option Constraint} {l l' : List (String × Constraint)} (h : IsMap f l)
    (hnodup : (l'.map Prod.fst).Nodup) (hfree : ∀ nb ∈ l', f nb.1 = none) : IsMap (addEntries f l') (l ++ l') := by
  induction l' generalizing f l with
  | nil => rwa [List.append_nil]
  | cons nb l' ih =>
    rw [List.map_cons, List.nodup_cons] at hnodup
    have hrest : ∀ x ∈ l', Function.update f nb.1 (some nb.2) x.1 = none := by
      intro x hx
      have hne : x.1 ≠ nb.1 := fun h => hnodup.1 (h ▸ List.mem_map_of_mem hx)
      rw [Function.update_of_ne hne]
      exact hfree x (List.mem_cons_of_mem _ hx)
    have hstep := ih (h.add (hfree nb List.mem_cons_self)) hnodup.2 hrest
    rwa [List.append_assoc, List.singleton_append] at hstep

/-- The guards of `ALTER TABLE … ADD CONSTRAINT` only refuse. -/
theorem addConstraintsTo_inv (h : cons.foldlM (fun tbl nb => c.addConstraintTo t tbl nb.1 nb.2) tbl = .ok tbl') :
    (cons.map Prod.fst).Nodup ∧ (∀ nb ∈ cons, tbl.constraints nb.1 = none) ∧ tbl' = tbl.withConstraints cons := by
  apply (Table.addConstraints_iff (t := t)).mp
  induction cons generalizing tbl with
  | nil => exact h
  | cons nb cons ih =>
    rw [List.foldlM_cons] at h ⊢
    obtain ⟨tbl₁, h₁, h⟩ := bind_ok h
    obtain ⟨_, _, h₁⟩ := bind_ok h₁
    rw [h₁]
    exact ih h

/-- The table that a `CREATE TABLE` declares. -/
def Table.ofDecl (t : TableRef) (cols : List ColumnDecl) (cons : List (String × Constraint)) : Table :=
  (cols.foldl (Table.withColumn t) Table.empty).withConstraints cons

/-- Where building a table succeeds it makes the table that is declared. -/
theorem buildTable_eq (h : c.buildTable t cols cons = .ok tbl) : tbl = Table.ofDecl t cols cons := by
  obtain ⟨tbl₀, hcols, hcons⟩ := bind_ok h
  rw [Table.ofDecl, ← foldlM_foldl (fun d tbl tbl' h => (Table.addColumn_iff.mp h).2.2) hcols]
  exact (addConstraintsTo_inv hcons).2.2

/-- **A table that was built has what was declared.** -/
theorem buildTable_built (h : c.buildTable t cols cons = .ok tbl) : tbl.Built t cols cons := by
  obtain ⟨tbl₀, hcols, hcons⟩ := bind_ok h
  -- the column part, column by column
  have h₀ : tbl₀.Built t cols [] := by
    refine foldlM_invariant (I := fun pre tbl => tbl.Built t pre []) ?_ ?_ hcols
    · exact ⟨IsMap.empty, IsMap.empty, rfl, rfl⟩
    · intro pre d rest tbl tbl' _ hI hstep
      obtain ⟨hcol, hfree, rfl⟩ := Table.addColumn_iff.mp hstep
      refine ⟨?_, ?_, hI.triggers, hI.hypertable⟩
      · rw [List.map_append]
        exact hI.columns.add hcol
      · have hcons := hI.constraints
        unfold declared at hcons ⊢
        rw [List.append_nil] at hcons ⊢
        rw [List.flatMap_append, List.flatMap_singleton]
        exact isMap_addEntries hcons (nodup_inlineConstraints t d) hfree
  obtain ⟨hnodup, hfree, rfl⟩ := addConstraintsTo_inv hcons
  refine ⟨?_, ?_, h₀.triggers, h₀.hypertable⟩
  · have hcolumns : (tbl₀.withConstraints cons).columns = fun n => (tbl₀.columns n).map fun x =>
        if (keyCols cons).contains n then { x with notNull := true } else x := by
      funext n
      by_cases hkey : n ∈ keyCols cons <;> simp [Table.withConstraints, Table.markNotNull, hkey]
    rw [hcolumns]
    exact h₀.columns.map _
  · have hinline := h₀.constraints
    unfold declared at hinline ⊢
    rw [List.append_nil] at hinline
    exact isMap_addEntries hinline hnodup hfree

end Atlantis.Pg
