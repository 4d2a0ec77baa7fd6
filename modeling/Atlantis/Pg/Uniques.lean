import Atlantis.Pg.Frame

/-!
# `Pg.Uniques` — the `UNIQUE` constraints of one table under a script

Three things happen to the unique constraints of a table: one is added under a free name, one is dropped by
name, and those over a column go when the column does. `exec_uniques` says which of the three a statement
does; `run_uniques` adds up a script in which no name is both added and dropped.
-/

namespace Atlantis.Pg

open Lib

/-- The columns of a unique constraint. -/
def Constraint.uniqueCols : Constraint → Option (List String)
  | .unique cols => some cols
  | _ => none

/-- The unique constraint of a table under a name. -/
def Catalog.uniqueAt (c : Catalog) (t : TableRef) (n : String) : Option (List String) :=
  (c.tables t).bind fun tbl => (tbl.constraints n).bind Constraint.uniqueCols

/-- The unique constraints a statement adds to a table. -/
def Stmt.addsUnique (t : TableRef) : Stmt → List (String × List String)
  | .addConstraint t' n (.unique cols) => if t' = t then [(n, cols)] else []
  | .addColumn t' d => if t' = t ∧ d.unique = true then [(inlineUniqueName t d.name, [d.name])] else []
  | _ => []

/-- The constraint names a statement drops from a table. -/
def Stmt.dropsName (t : TableRef) : Stmt → List String
  | .dropConstraint t' n => if t' = t then [n] else []
  | _ => []

/-- The columns a statement drops from a table. -/
def Stmt.dropsColumn (t : TableRef) : Stmt → List String
  | .dropColumn t' col => if t' = t then [col] else []
  | _ => []

/-! ## One statement -/

variable {mentions : String → String → Bool} {c c' : Catalog} {t : TableRef} {tbl : Table}

theorem Constraint.uniqueCols_eq_some {b : Constraint} {cols : List String} :
    b.uniqueCols = some cols ↔ b = .unique cols := by
  cases b <;> simp [Constraint.uniqueCols]

theorem Catalog.uniqueAt_eq_some {n : String} {cols : List String} :
    c.uniqueAt t n = some cols ↔ c.get (.inTable t (.constraint n)) = some (.constraint (.unique cols)) := by
  simp [Catalog.uniqueAt, Catalog.get, Table.get, Option.bind_eq_some_iff, Constraint.uniqueCols_eq_some]

theorem Stmt.mem_addsUnique_addColumn {d : ColumnDecl} {t' : TableRef} {n : String} {cols : List String} :
    (n, cols) ∈ (Stmt.addColumn t' d).addsUnique t ↔ t' = t ∧ (n, .unique cols) ∈ inlineConstraints t d := by
  by_cases hcheck : d.check = "" <;> cases hu : d.unique <;>
    simp [Stmt.addsUnique, inlineConstraints, hcheck, hu]

/-- **What a statement does to the unique constraints of a table it does not drop.** -/
theorem exec_uniques {s : Stmt} (htbl : (c.tables t).isSome) (hs : s ≠ .dropTable t) (h : exec mentions c s = .ok c')
    (n : String) (cols : List String) : c'.uniqueAt t n = some cols ↔ (n, cols) ∈ s.addsUnique t ∨
      c.uniqueAt t n = some cols ∧ n ∉ s.dropsName t ∧ ∀ col ∈ s.dropsColumn t, col ∉ cols := by
  rcases exec_cases h with ⟨rfl, hidle⟩ | ⟨ha, hready, hget⟩
  · cases s with
    | createTable _ _ _ | dropTable _ => simp [Stmt.addsUnique, Stmt.dropsName, Stmt.dropsColumn]
    | _ => exact absurd trivial hidle
  rw [Catalog.uniqueAt_eq_some, Catalog.uniqueAt_eq_some, hget]
  cases s with
  | createTable t' cols cons =>
    have ht : t ≠ t' := by
      rintro rfl
      rw [Catalog.tables_eq_none ha] at htbl
      cases htbl
    simp [Stmt.effect, Stmt.addsUnique, Stmt.dropsName, Stmt.dropsColumn, ht]
  | dropTable t' =>
    have ht : t ≠ t' := fun heq => hs (by rw [heq])
    simp [Stmt.effect, Key.table, Obj.lostWithTable, Constraint.pointsTo, Option.filter_eq_some_iff, Stmt.addsUnique,
      Stmt.dropsName, Stmt.dropsColumn, ht]
  | dropColumn t' col =>
    have hne : Key.inTable t (.constraint n) ∉ columnKeys t' col := by simp [columnKeys]
    rw [Stmt.effect, if_neg hne, Option.filter_eq_some_iff]
    by_cases ht : t' = t
    · simp [Key.lostWithColumn, Constraint.involves, Stmt.addsUnique, Stmt.dropsName, Stmt.dropsColumn, ht]
    · simp [Key.lostWithColumn, Stmt.addsUnique, Stmt.dropsName, Stmt.dropsColumn, ht, Ne.symm ht]
  | addColumn t' d =>
    rw [Stmt.mem_addsUnique_addColumn, ← ColumnDecl.get_constraint]
    by_cases hk : Key.inTable t (.constraint n) ∈ (Stmt.addColumn t' d).adds
    · have hfree : c.get (.inTable t (.constraint n)) = none := by
        simpa using hready _ (List.mem_cons_of_mem _ (List.mem_map_of_mem hk))
      obtain ⟨p, heq, _⟩ := Stmt.mem_adds_addColumn.mp hk
      obtain ⟨rfl, _⟩ := Key.inTable.inj heq
      simp [Stmt.effect, hfree]
    · have hnot : ¬ (t' = t ∧ d.get t (.constraint n) = some (.constraint (.unique cols))) := by
        rintro ⟨rfl, hin⟩
        exact hk (Stmt.mem_adds_addColumn.mpr ⟨_, rfl, by rw [hin]; rfl⟩)
      rw [Stmt.effect_addColumn hk]
      simp [hnot, Stmt.dropsName, Stmt.dropsColumn]
  | addConstraint t' m b =>
    rw [Stmt.effect]
    split
    · rename_i hk
      obtain ⟨rfl, hname⟩ := Key.inTable.inj hk
      obtain rfl := Part.constraint.inj hname
      have hfree : c.get (.inTable t (.constraint n)) = none := by
        simpa using hready _ (List.mem_cons_of_mem _ List.mem_cons_self)
      cases b <;> simp [hfree, Stmt.addsUnique, eq_comm]
    · rename_i hk
      have hnot : (n, cols) ∉ (Stmt.addConstraint t' m b).addsUnique t := by
        intro hadd
        cases b with
        | unique cols' =>
          obtain ⟨rfl, hmem⟩ := List.mem_ite_nil_right.mp hadd
          obtain ⟨rfl, rfl⟩ := Prod.mk.inj (List.mem_singleton.mp hmem)
          exact hk rfl
        | _ => cases hadd
      simp [hnot, Stmt.dropsName, Stmt.dropsColumn]
  | dropConstraint t' m =>
    by_cases ht : t' = t
    · by_cases hn : n = m
      · simp [Stmt.effect, Stmt.addsUnique, Stmt.dropsName, ht, hn]
      · simp [Stmt.effect, Stmt.addsUnique, Stmt.dropsName, Stmt.dropsColumn, ht, hn]
    · simp [Stmt.effect, Stmt.addsUnique, Stmt.dropsName, Stmt.dropsColumn, ht, Ne.symm ht]
  | _ => simp [Stmt.effect, Stmt.addsUnique, Stmt.dropsName, Stmt.dropsColumn]

/-! ## A script -/

/-- **What a script does to the unique constraints of a table it does not drop**, when it adds nothing under
    a name it drops and nothing over a column it drops: what it adds is there, and so is what was there and
    lost neither its name nor a column. -/
theorem run_uniques {mentions : String → String → Bool} {c c' : Catalog} {t : TableRef} {stmts : List Stmt}
    (htbl : (c.tables t).isSome) (hkeep : ∀ s ∈ stmts, s ≠ .dropTable t)
    (hapart : ∀ n cols, (n, cols) ∈ stmts.flatMap (Stmt.addsUnique t) →
      n ∉ stmts.flatMap (Stmt.dropsName t) ∧ ∀ col ∈ stmts.flatMap (Stmt.dropsColumn t), col ∉ cols)
    (h : run mentions stmts c = .ok c') :
    (c'.tables t).isSome ∧ ∀ n cols, c'.uniqueAt t n = some cols ↔
      (n, cols) ∈ stmts.flatMap (Stmt.addsUnique t) ∨
      c.uniqueAt t n = some cols ∧ n ∉ stmts.flatMap (Stmt.dropsName t) ∧
        ∀ col ∈ stmts.flatMap (Stmt.dropsColumn t), col ∉ cols := by
  induction stmts generalizing c with
  | nil =>
    cases h
    exact ⟨htbl, by simp⟩
  | cons s stmts ih =>
    obtain ⟨c₁, hstep, h⟩ := bind_ok h
    have htbl₁ := exec_tables_isSome htbl hstep (hkeep s List.mem_cons_self)
    have hstep := exec_uniques htbl (hkeep s List.mem_cons_self) hstep
    simp only [List.flatMap_cons, List.mem_append, not_or, or_imp, forall_and] at hapart ⊢
    obtain ⟨⟨_, hnames⟩, _, hcols⟩ := hapart
    obtain ⟨htbl', hrun⟩ := ih htbl₁ (fun s hs => hkeep s (List.mem_cons_of_mem _ hs))
      (fun n cols hadd => ⟨hnames.2 n cols hadd, hcols.2 n cols hadd⟩) h
    refine ⟨htbl', ?_⟩
    intro n cols
    rw [hrun n cols, hstep n cols]
    constructor
    · rintro (hlater | ⟨hnow | ⟨hbefore, hname, hcol⟩, hname', hcol'⟩)
      · exact .inl (.inr hlater)
      · exact .inl (.inl hnow)
      · exact .inr ⟨hbefore, ⟨hname, hname'⟩, hcol, hcol'⟩
    · rintro ((hnow | hlater) | ⟨hbefore, ⟨hname, hname'⟩, hcol, hcol'⟩)
      · exact .inr ⟨.inl hnow, hnames.1 n cols hnow, hcols.1 n cols hnow⟩
      · exact .inl hlater
      · exact .inr ⟨.inr ⟨hbefore, hname, hcol⟩, hname', hcol'⟩

end Atlantis.Pg
