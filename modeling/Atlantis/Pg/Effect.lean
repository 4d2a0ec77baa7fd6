import Atlantis.Pg.Keys

/-!
# `Pg.Effect` — what a statement looks up and what it leaves

A statement looks some keys up and wants them to be there, or to be free (`Stmt.Ready`); and what it leaves under a key
depends on what was under that key and on nothing else (`Stmt.effect`). `exec_spec` and `exec_ready` say so for every
statement, and what the other modules need to know about a statement they read off these two.

One thing is said here: a change to the catalog that a statement neither looks up nor overwrites can just as well come
after it (`exec_overlay`).
-/

namespace Atlantis.Pg

open Lib

/-! ## What is lost with a table or a column -/

/-- The constraint is a foreign key to the table. -/
def Constraint.pointsTo (t : TableRef) : Constraint → Bool
  | .foreignKey _ target _ _ _ => target == t
  | _ => false

/-- The object goes with the table. -/
def Obj.lostWithTable (t : TableRef) : Obj → Bool
  | .constraint b => b.pointsTo t
  | .index t' _ => t' == t
  | _ => false

/-- The object under the key goes with the column. -/
def Key.lostWithColumn (mentions : String → String → Bool) (t : TableRef) (col : String) : Key → Obj → Bool
  | .inTable t' _, .constraint b => t' == t && b.involves mentions col
  | .index _ _, .index t' b => t' == t && b.involves mentions col
  | _, _ => false

/-- The three parts of a column. -/
def columnKeys (t : TableRef) (col : String) : List Key :=
  [.inTable t (.column col), .inTable t (.notNull col), .inTable t (.default col)]

/-! ## Effects -/

/-- What `ALTER TABLE … ADD COLUMN` and `ADD CONSTRAINT` add. -/
def Stmt.adds : Stmt → List Key
  | .addColumn t d =>
    [.inTable t (.column d.name), .inTable t (.notNull d.name), .inTable t (.default d.name)]
      ++ (inlineConstraints t d).map fun nb => .inTable t (.constraint nb.1)
  | .addConstraint t n _ => [.inTable t (.constraint n)]
  | _ => []

/-- What `ADD COLUMN` adds to its table. -/
def ColumnDecl.get (t : TableRef) (d : ColumnDecl) : Part → Option Obj
  | .column n => if n = d.name then some (.column d.spec.column.type d.spec.column.identity) else none
  | .notNull n => if n = d.name then some (.notNull d.spec.column.notNull) else none
  | .default n => if n = d.name then some (.default d.spec.column.default) else none
  | .constraint n => (addEntries (fun _ => none) (inlineConstraints t d) n).map .constraint
  | .self | .trigger _ => none

def Obj.withType (type : String) : Obj → Obj
  | .column _ identity => .column type identity
  | o => o

/-- The table a key is in. -/
def Key.table : Key → Option TableRef
  | .inTable t _ => some t
  | _ => none

theorem Key.exists_part {k : Key} {t : TableRef} (h : k.table = some t) : ∃ p, k = .inTable t p := by
  cases k with
  | inTable t' p => exact ⟨p, congrArg (Key.inTable · p) (Option.some.inj h)⟩
  | index _ _ | function _ => cases h

/-- **What a statement leaves under a key**, given what was there. -/
def Stmt.effect (mentions : String → String → Bool) : Stmt → Key → Option Obj → Option Obj
  | .createSchema _, _, o => o
  | .createTable t cols cons, .inTable t' p, o => if t' = t then (Table.ofDecl t cols cons).get p else o
  | .createTable _ _ _, _, o => o
  | .dropTable t, k, o => if k.table = some t then none else o.filter fun o => !o.lostWithTable t
  | .addColumn t d, .inTable t' p, o => if t' = t then (d.get t p).or o else o
  | .addColumn _ _, _, o => o
  | .dropColumn t col, k, o =>
    if k ∈ columnKeys t col then none else o.filter fun o => !k.lostWithColumn mentions t col o
  | .setNotNull t col on, k, o => if k = .inTable t (.notNull col) then o.map fun _ => .notNull on else o
  | .setType t col type, k, o => if k = .inTable t (.column col) then o.map (Obj.withType type) else o
  | .setDefault t col d, k, o => if k = .inTable t (.default col) then o.map fun _ => .default (d.map .expr) else o
  | .addConstraint t n b, k, o =>
    if k = .inTable t (.constraint n) then some (.constraint b)
    else if k ∈ b.keyCols.map fun col => .inTable t (.notNull col) then o.map fun _ => .notNull true else o
  | .dropConstraint t n, k, o => if k = .inTable t (.constraint n) then none else o
  | .createIndex t n b, k, o => if k = .index t.schema n then o.or (some (.index t b)) else o
  | .dropIndex schema n, k, o => if k = .index schema n then none else o
  | .createHypertable t col, k, o => if k = .inTable t .self then o.map fun _ => .table (some col) else o
  | .createFunction n col, k, o => if k = .function n then some (.function col) else o
  | .dropFunction n, k, o => if k = .function n then none else o
  | .createTrigger t n fn, k, o => if k = .inTable t (.trigger n) then some (.trigger fn) else o
  | .dropTrigger t n, k, o => if k = .inTable t (.trigger n) then none else o

/-- What a constraint of a table looks up: its columns, and the column a foreign key points to. -/
def Constraint.looks (t : TableRef) : Constraint → List Key
  | .primaryKey cols | .unique cols => cols.map fun col => .inTable t (.column col)
  | .foreignKey col target targetCol _ _ => [.inTable t (.column col), .inTable target (.column targetCol)]
  | .check _ => []

/-- What a statement looks up, and whether it has to be there. -/
def Stmt.looks : Stmt → List (Key × Bool)
  | .createTable t _ cons => (.inTable t .self, false) :: cons.flatMap fun nb => (nb.2.looks t).map (·, true)
  | .dropTable t => [(.inTable t .self, true)]
  | .addColumn t d => (.inTable t .self, true) :: (Stmt.addColumn t d).adds.map (·, false)
  | .dropColumn t col | .setNotNull t col _ | .setType t col _ | .setDefault t col _ | .createHypertable t col =>
    [(.inTable t (.column col), true)]
  | .addConstraint t n b => (.inTable t .self, true) :: (.inTable t (.constraint n), false) :: (b.looks t).map (·, true)
  | .dropConstraint t _ | .dropTrigger t _ => [(.inTable t .self, true)]
  | .createIndex t _ b => (.inTable t .self, true) :: b.columns.map fun col => (.inTable t (.column col), true)
  | .createTrigger t n fn => [(.inTable t .self, true), (.function fn, true), (.inTable t (.trigger n), false)]
  | .createSchema _ | .dropIndex _ _ | .createFunction _ _ | .dropFunction _ => []

/-- The statement finds what it looks up. The constraints of a new table look at the table as well. -/
def Stmt.Ready (c : Catalog) : Stmt → Prop
  | .createTable t cols cons => ∃ tbl, c.buildTable t cols cons = .ok tbl
  | s => ∀ x ∈ s.looks, (c.get x.1).isSome = x.2

/-- The statement does something: no table is created that is there, none is dropped that is not. -/
def Stmt.Acts (c : Catalog) : Stmt → Prop
  | .createTable t _ _ => (c.get (.inTable t .self)).isSome = false
  | .dropTable t => (c.get (.inTable t .self)).isSome = true
  | _ => True

variable {mentions : String → String → Bool} {c c' c₁ : Catalog} {t : TableRef} {tbl tbl' : Table} {k : Key} {s : Stmt}
  {o : Obj} {col : String}

/-! ## Looking up -/

/-- The column is there. -/
def Catalog.HasColumn (c : Catalog) (t : TableRef) (col : String) : Prop :=
  ∃ tbl, c.tables t = some tbl ∧ (tbl.columns col).isSome

/-- A column that is there stands in a table that is there. -/
theorem hasColumn_iff : c.HasColumn t col ↔ (c.get (.inTable t (.column col))).isSome := by
  unfold Catalog.HasColumn
  cases htbl : c.tables t <;> simp [Catalog.get, Table.get, htbl]

theorem Catalog.tables_eq_none (h : (c.get (.inTable t .self)).isSome = false) : c.tables t = none := by
  rw [← Option.not_isSome_iff_eq_none, Catalog.isSome_tables, h]
  exact Bool.false_ne_true

/-- A constraint is checked against the catalog that has its table. -/
theorem checkConstraint_iff {b : Constraint} :
    c.checkConstraint t tbl b = .ok () ↔ ∀ k ∈ b.looks t, ((c.setTable t tbl).get k).isSome := by
  have hself := Catalog.tables_setTable_self c t tbl
  cases b with
  | primaryKey cols | unique cols =>
    simp [Catalog.checkConstraint, Constraint.looks, Table.checkColumns_iff, Catalog.get_of_table hself, Table.get]
  | check expr => simp [Catalog.checkConstraint, Constraint.looks]
  | foreignKey n target targetCol onDelete onUpdate =>
    have hcheck : c.checkConstraint t tbl (.foreignKey n target targetCol onDelete onUpdate) = .ok () ↔
        tbl.checkColumns t [n] = .ok () ∧
          ∃ tbl', (c.setTable t tbl).tables target = some tbl' ∧ tbl'.checkColumns target [targetCol] = .ok () := by
      by_cases h : target = t
      · simp [Catalog.checkConstraint, bind_eq_ok, Unique.exists_iff, h, hself]
      · simp [Catalog.checkConstraint, bind_eq_ok, Unique.exists_iff, h, Catalog.tables_setTable_ne h, Catalog.table_eq_ok]
    rw [hcheck]
    simp [Table.checkColumns_iff, Constraint.looks, ← hasColumn_iff, Catalog.HasColumn, hself]

/-- Whether a statement can run depends on the keys it looks up. -/
theorem Stmt.Ready.congr (hr : s.Ready c) (h : ∀ x ∈ s.looks, (c₁.get x.1).isSome = (c.get x.1).isSome) :
    s.Ready c₁ := by
  cases s with
  | createTable t cols cons =>
    obtain ⟨tbl, hbuild⟩ := hr
    obtain ⟨tbl₀, hcols, hcons⟩ := bind_ok hbuild
    obtain ⟨tbl', hcons', rfl⟩ := foldlM_simulation (R := Eq) rfl (g := fun tbl nb => c₁.addConstraintTo t tbl nb.1 nb.2)
      (fun nb hnb tbl tbl' _ heq hstep => by
        subst heq
        obtain ⟨_, hcheck, hadd⟩ := bind_ok hstep
        rw [checkConstraint_iff] at hcheck
        refine ⟨tbl', bind_eq_ok.mpr ⟨(), checkConstraint_iff.mpr fun k hk => ?_, hadd⟩, rfl⟩
        have hsame := h (k, true) (List.mem_cons_of_mem _ (List.mem_flatMap.mpr ⟨nb, hnb, List.mem_map_of_mem hk⟩))
        have hk := hcheck k hk
        rw [Catalog.get_setTable] at hk ⊢
        cases k with
        | inTable t' p =>
          dsimp only at hk hsame ⊢
          split at hk
          · rwa [if_pos ‹_›]
          · rw [if_neg ‹_›]
            exact hsame.trans hk
        | index _ _ | function _ => exact hsame.trans hk) hcons
    exact ⟨_, bind_eq_ok.mpr ⟨tbl₀, hcols, hcons'⟩⟩
  | _ => exact fun x hx => (h x hx).trans (hr x hx)

theorem Stmt.Acts.congr (h : ∀ x ∈ s.looks, (c₁.get x.1).isSome = (c.get x.1).isSome) : s.Acts c₁ ↔ s.Acts c := by
  cases s with
  | createTable t cols cons | dropTable t => exact iff_of_eq (congrArg (· = _) (h _ List.mem_cons_self))
  | _ => exact Iff.rfl

theorem exec_idle (h : ¬ s.Acts c) : exec mentions c s = .ok c := by
  cases s with
  | createTable t cols cons => exact if_pos (Catalog.isSome_tables.mpr (by simpa [Stmt.Acts, Option.isSome_iff_ne_none] using h))
  | dropTable t => exact if_neg fun htbl => h (Catalog.isSome_tables.mp htbl)
  | _ => exact absurd trivial h

/-- **A statement runs where it finds what it looks up.** -/
theorem exec_ready (ha : s.Acts c) : (∃ c', exec mentions c s = .ok c') ↔ s.Ready c := by
  cases s with
  | createSchema _ | dropIndex _ _ | createFunction _ _ | dropFunction _ =>
    exact iff_of_true ⟨_, rfl⟩ (List.forall_mem_nil _)
  | createTable t cols cons =>
    have hnone : c.tables t = none := Catalog.tables_eq_none ha
    simp [exec, hnone, bind_eq_ok, Stmt.Ready, pure, Except.pure]
  | dropTable t => exact iff_of_true ⟨_, if_pos (Catalog.isSome_tables.mpr ha)⟩ (List.forall_mem_singleton.mpr ha)
  | createTrigger t n fn =>
    cases htbl : c.tables t with
    | none => simp [exec, Catalog.table, htbl, bind_eq_ok, Stmt.Ready, Stmt.looks, Catalog.get]
    | some tbl =>
      cases hfn : c.functions fn <;> cases htrig : tbl.triggers n <;>
        simp [exec, Catalog.table_eq_ok, htbl, hfn, htrig, bind_eq_ok, Stmt.Ready, Stmt.looks, Catalog.get, Table.get, pure,
          Except.pure]
  | addColumn t _ | dropColumn t _ | setNotNull t _ _ | setType t _ _ | setDefault t _ _ | addConstraint t _ _
  | dropConstraint t _ | createIndex t _ _ | createHypertable t _ | dropTrigger t _ =>
    cases htbl : c.tables t with
    | none => simp [exec, Catalog.alterColumn, Catalog.table, htbl, bind_eq_ok, Stmt.Ready, Stmt.looks, Catalog.get]
    | some tbl =>
      -- what it looks up, read in its table
      simp only [Stmt.Ready, Stmt.looks, Stmt.adds, List.map_append, List.map_cons, List.map_nil, List.forall_mem_append,
        List.forall_mem_cons, List.forall_mem_map, Catalog.get_of_table htbl, Table.get]
      simp [exec, Catalog.alterColumn, Catalog.addConstraintTo, bind_eq_ok, Unique.exists_iff, Catalog.table_eq_ok, htbl,
        Table.checkColumns_iff, Table.addColumn_iff, Table.addConstraint_iff, checkConstraint_iff,
        Catalog.setTable_self htbl, pure, Except.pure, and_comm]

/-! ## Tables -/

theorem addEntries_eq (f : String → Option Constraint) (l : List (String × Constraint)) (n : String) :
    addEntries f l n = (addEntries (fun _ => none) l n).or (f n) := by
  unfold addEntries
  induction l generalizing f with
  | nil => rfl
  | cons nb l ih =>
    rw [List.foldl_cons, List.foldl_cons, ih, ih (Function.update (fun _ => none) nb.1 (some nb.2)), Option.or_assoc]
    congr 1
    by_cases hn : n = nb.1
    · rw [hn, Function.update_self, Function.update_self]
      rfl
    · rw [Function.update_of_ne hn, Function.update_of_ne hn]
      rfl

/-- The constraints that come with a column. -/
theorem ColumnDecl.get_constraint {d : ColumnDecl} {n : String} {b : Constraint} :
    d.get t (.constraint n) = some (.constraint b) ↔ (n, b) ∈ inlineConstraints t d := by
  have hmap := isMap_addEntries IsMap.empty (nodup_inlineConstraints t d) fun _ _ => rfl
  rw [← List.nil_append (inlineConstraints t d), ← hmap n b]
  simp [ColumnDecl.get]

theorem Stmt.mem_adds_addColumn {d : ColumnDecl} :
    k ∈ (Stmt.addColumn t d).adds ↔ ∃ p, k = .inTable t p ∧ (d.get t p).isSome := by
  cases k with
  | index _ _ | function _ => simp [Stmt.adds]
  | inTable t' p =>
    cases p with
    | self | trigger n => simp [Stmt.adds, ColumnDecl.get]
    | column n | notNull n | default n => by_cases hn : n = d.name <;> simp [Stmt.adds, ColumnDecl.get, hn]
    | constraint n =>
      constructor
      · intro hk
        simp only [Stmt.adds, List.mem_append, List.mem_cons, Key.inTable.injEq, reduceCtorEq, and_false, List.not_mem_nil,
          or_self, false_or, List.mem_map, Part.constraint.injEq] at hk
        obtain ⟨nb, hnb, rfl, rfl⟩ := hk
        exact ⟨_, rfl, by rw [ColumnDecl.get_constraint.mpr hnb]; rfl⟩
      · rintro ⟨p, heq, hsome⟩
        obtain ⟨rfl, rfl⟩ := Key.inTable.inj heq
        obtain ⟨o, ho⟩ := Option.isSome_iff_exists.mp hsome
        obtain ⟨b, _, rfl⟩ := Option.map_eq_some_iff.mp ho
        exact List.mem_append_right _ (List.mem_map.mpr ⟨_, ColumnDecl.get_constraint.mp ho, rfl⟩)

theorem Stmt.effect_addColumn {d : ColumnDecl} {v : Option Obj} (hk : k ∉ (Stmt.addColumn t d).adds) :
    (Stmt.addColumn t d).effect mentions k v = v := by
  cases k with
  | inTable t' p =>
    by_cases ht : t' = t
    · have hnone : d.get t p = none := by
        rw [← Option.not_isSome_iff_eq_none]
        exact fun hsome => hk (Stmt.mem_adds_addColumn.mpr ⟨p, ht ▸ rfl, hsome⟩)
      simp [Stmt.effect, hnone]
    · exact if_neg ht
  | index _ _ | function _ => rfl

/-- A new column and what is written on it. -/
theorem Table.get_withColumn (d : ColumnDecl) (p : Part) :
    (tbl.withColumn t d).get p = (d.get t p).or (tbl.get p) := by
  cases p with
  | self | trigger n => rfl
  | column n | notNull n | default n =>
    by_cases hn : n = d.name <;> simp [ColumnDecl.get, Table.get, Table.withColumn, hn]
  | constraint n =>
    show (addEntries tbl.constraints (inlineConstraints t d) n).map _ = _
    rw [addEntries_eq, Option.map_or]
    rfl

theorem Catalog.get_setTable_of_ne (h : ∀ p, k ≠ .inTable t p) : (c.setTable t tbl).get k = c.get k := by
  rw [Catalog.get_setTable]
  cases k with
  | inTable t' p =>
    have hne : t' ≠ t := fun heq => h p (heq ▸ rfl)
    simp [hne]
  | index _ _ | function _ => rfl

/-- The table a statement changes, if it changes nothing else. -/
def Stmt.edits : Stmt → Option TableRef
  | .createTable t _ _ | .addColumn t _ | .setNotNull t _ _ | .setType t _ _ | .setDefault t _ _ | .addConstraint t _ _
  | .dropConstraint t _ | .createHypertable t _ | .createTrigger t _ _ | .dropTrigger t _ => some t
  | _ => none

theorem Stmt.effect_outside {v : Option Obj} (hs : s.edits = some t) (hk : k.table ≠ some t) :
    s.effect mentions k v = v := by
  cases k with
  | inTable t' p =>
    have ht : t' ≠ t := fun heq => hk (congrArg some heq)
    cases s <;> cases hs <;> simp [Stmt.effect, ht, ht.symm]
  | index _ _ | function _ => cases s <;> cases hs <;> simp [Stmt.effect]

/-- Replacing a table by what the statement makes of it. -/
theorem Catalog.get_setTable_effect (hs : s.edits = some t) (htbl : c.tables t = some tbl)
    (h : ∀ p, tbl'.get p = s.effect mentions (.inTable t p) (tbl.get p)) (k : Key) :
    (c.setTable t tbl').get k = s.effect mentions k (c.get k) := by
  by_cases hk : k.table = some t
  · obtain ⟨p, rfl⟩ := Key.exists_part hk
    rw [Catalog.get_of_table (Catalog.tables_setTable_self ..), Catalog.get_of_table htbl, h]
  · rw [Stmt.effect_outside hs hk]
    exact Catalog.get_setTable_of_ne fun p hp => hk (hp ▸ rfl)

/-- Nothing is lost where nothing goes. -/
theorem filter_keep {v : Option Obj} {lost : Obj → Bool} (h : ∀ o, v = some o → lost o = false) :
    v.filter (fun o => !lost o) = v := by
  cases v with
  | none => rfl
  | some o => simp [Option.filter_some, h o rfl]

/-- Of what is inside a table only constraints go with another table or a column. -/
theorem Table.not_lost {p : Part} (h : tbl.get p = some o) (hp : ∀ n, p ≠ .constraint n) :
    (∀ t, o.lostWithTable t = false) ∧ ∀ mentions t col, (Key.inTable t p).lostWithColumn mentions t col o = false := by
  cases p with
  | constraint n => exact absurd rfl (hp n)
  | self =>
    cases h
    exact ⟨fun _ => rfl, fun _ _ _ => rfl⟩
  | column n | notNull n | default n | trigger n =>
    obtain ⟨_, _, rfl⟩ := Option.map_eq_some_iff.mp h
    exact ⟨fun _ => rfl, fun _ _ _ => rfl⟩

theorem Table.get_dropRefsTo (p : Part) : (tbl.dropRefsTo t).get p = (tbl.get p).filter fun o => !o.lostWithTable t := by
  cases p with
  | constraint n =>
    show ((tbl.constraints n).filter _).map _ = ((tbl.constraints n).map _).filter _
    rw [Option.filter_map]
    congr 2
    funext b
    cases b <;> rfl
  | _ => exact (filter_keep fun o ho => (Table.not_lost ho (by simp)).1 t).symm

theorem Table.get_dropColumn (p : Part) : (tbl.dropColumn mentions col).get p
    = if Key.inTable t p ∈ columnKeys t col then none
      else (tbl.get p).filter fun o => !(Key.inTable t p).lostWithColumn mentions t col o := by
  split
  · rename_i hp
    simp only [columnKeys, List.mem_cons, Key.inTable.injEq, true_and, List.not_mem_nil, or_false] at hp
    rcases hp with rfl | rfl | rfl <;> simp [Table.get, Table.dropColumn]
  · rename_i hp
    cases p with
    | constraint n =>
      show ((tbl.constraints n).filter _).map _ = ((tbl.constraints n).map _).filter _
      rw [Option.filter_map]
      simp [Function.comp_def, Key.lostWithColumn]
    | column n | notNull n | default n =>
      have hn : n ≠ col := by
        rintro rfl
        simp [columnKeys] at hp
      rw [filter_keep fun o ho => (Table.not_lost ho (by simp)).2 mentions t col]
      simp [Table.get, Table.dropColumn, hn]
    | _ => exact (filter_keep fun o ho => (Table.not_lost ho (by simp)).2 mentions t col).symm

/-- **What a statement that runs has found, and what it leaves.** -/
theorem exec_spec (h : exec mentions c s = .ok c') (ha : s.Acts c) :
    s.Ready c ∧ ∀ k, c'.get k = s.effect mentions k (c.get k) := by
  refine ⟨exec_ready ha |>.mp ⟨c', h⟩, ?_⟩
  cases s with
  | createSchema _ =>
    cases h
    exact fun _ => rfl
  | createTable t cols cons =>
    obtain ⟨tbl, hbuild, rfl⟩ := exec_createTable_inv (Catalog.tables_eq_none ha) h
    intro k
    rw [Catalog.get_setTable, buildTable_eq hbuild]
    cases k <;> rfl
  | dropTable t =>
    cases (if_pos (Catalog.isSome_tables.mpr ha)).symm.trans h
    intro k
    cases k with
    | inTable t' p =>
      by_cases ht : t' = t
      · simp [Stmt.effect, Catalog.get, Key.table, ht]
      · cases hx : c.tables t' <;> simp [Stmt.effect, Catalog.get, Key.table, Table.get_dropRefsTo, ht, hx]
    | index schema n =>
      show ((c.indexes schema n).filter _).map _ = ((c.indexes schema n).map _).filter _
      rw [Option.filter_map]
      rfl
    | function n =>
      refine (filter_keep fun o ho => ?_).symm
      obtain ⟨_, _, rfl⟩ := Option.map_eq_some_iff.mp ho
      rfl
  | addColumn t d =>
    obtain ⟨tbl, htbl, h⟩ := bind_ok h
    obtain ⟨_, hadd, h⟩ := bind_ok h
    obtain ⟨_, _, rfl⟩ := Table.addColumn_iff.mp hadd
    cases h
    refine Catalog.get_setTable_effect rfl (Catalog.table_ok htbl) fun p => ?_
    rw [Table.get_withColumn]
    simp [Stmt.effect]
  | dropColumn t col =>
    obtain ⟨tbl, htbl, h⟩ := bind_ok h
    obtain ⟨_, hcheck, h⟩ := bind_ok h
    cases h
    have htbl := Catalog.table_ok htbl
    intro k
    cases k with
    | inTable t' p =>
      by_cases ht : t' = t
      · subst ht
        show ((c.setTable t' _).tables t').bind _ = _
        rw [Catalog.tables_setTable_self, Catalog.get_of_table htbl]
        exact Table.get_dropColumn p
      · show ((c.setTable t _).tables t').bind _ = _
        rw [Catalog.tables_setTable_ne ht]
        simp only [Stmt.effect, columnKeys, List.mem_cons, Key.inTable.injEq, ht, false_and, List.not_mem_nil, or_self,
          if_false]
        refine (filter_keep fun o _ => ?_).symm
        cases o <;> simp [Key.lostWithColumn, ht]
    | index schema n =>
      show ((c.indexes schema n).filter _).map _ = ((c.indexes schema n).map _).filter _
      rw [Option.filter_map]
      rfl
    | function n =>
      refine (filter_keep fun o _ => ?_).symm
      cases o <;> rfl
  | setNotNull t col _ | setType t col _ | setDefault t col _ | createHypertable t col =>
    obtain ⟨tbl, htbl, h⟩ := bind_ok h
    obtain ⟨_, hcheck, h⟩ := bind_ok h
    cases h
    have htbl := Catalog.table_ok htbl
    obtain ⟨y, hy⟩ := Option.isSome_iff_exists.mp (Table.checkColumns_iff.mp hcheck col List.mem_cons_self)
    refine Catalog.get_setTable_effect rfl htbl fun p => ?_
    cases p with
    | column n | notNull n | default n => by_cases hn : n = col <;> simp [Stmt.effect, Table.get, Obj.withType, hn, hy]
    | _ => simp [Stmt.effect, Table.get]
  | addConstraint t n b =>
    obtain ⟨tbl, htbl, _, _, rfl⟩ := exec_addConstraint_inv h
    refine Catalog.get_setTable_effect rfl htbl fun p => ?_
    cases p with
    | self | trigger m => simp [Stmt.effect, Table.get, Table.withConstraint, Table.markNotNull]
    | constraint m => by_cases hm : m = n <;> simp [Stmt.effect, Table.get, hm]
    | column m | notNull m | default m =>
      by_cases hm : m ∈ b.keyCols <;>
        simp [Stmt.effect, Table.get, Table.withConstraint, Table.markNotNull, Function.comp_def, hm]
  | dropConstraint t n | dropTrigger t n =>
    obtain ⟨tbl, htbl, h⟩ := bind_ok h
    cases h
    have htbl := Catalog.table_ok htbl
    refine Catalog.get_setTable_effect rfl htbl fun p => ?_
    cases p with
    | constraint m | trigger m => by_cases hm : m = n <;> simp [Stmt.effect, Table.get, hm]
    | _ => simp [Stmt.effect, Table.get]
  | createIndex t n b =>
    obtain rfl := exec_createIndex_inv h
    intro k
    cases k with
    | inTable _ _ | function _ => simp [Stmt.effect, Catalog.get]
    | index schema m =>
      by_cases hname : schema = t.schema ∧ m = n
      · obtain ⟨rfl, rfl⟩ := hname
        cases hx : c.indexes t.schema m <;> simp [Stmt.effect, Catalog.get, Indexes.add, hx]
      · have hadd : c.indexes.add t n b schema m = c.indexes schema m := if_neg fun hall => hname ⟨hall.1, hall.2.1⟩
        simp [Stmt.effect, Catalog.get, hadd, hname]
  | dropIndex schema n =>
    cases h
    intro k
    cases k with
    | inTable _ _ | function _ => simp [Stmt.effect, Catalog.get]
    | index schema' m =>
      by_cases hname : schema' = schema ∧ m = n <;> simp [Stmt.effect, Catalog.get, Indexes.erase, hname]
  | createFunction n _ | dropFunction n =>
    cases h
    intro k
    cases k with
    | inTable _ _ | index _ _ => simp [Stmt.effect, Catalog.get]
    | function m => by_cases hm : m = n <;> simp [Stmt.effect, Catalog.get, hm]
  | createTrigger t n fn =>
    obtain ⟨tbl, htbl, rfl⟩ := exec_createTrigger_inv h
    refine Catalog.get_setTable_effect rfl htbl fun p => ?_
    cases p with
    | trigger m => by_cases hm : m = n <;> simp [Stmt.effect, Table.get, hm]
    | _ => simp [Stmt.effect, Table.get]

/-! ## Changes a statement does not see -/

/-- **Catalogs that a statement cannot tell apart**: it runs on both, and they agree where they agreed before. -/
theorem exec_agree {K : Key → Prop} (hK : ∀ k, K k → c₁.get k = c.get k)
    (hlooks : ∀ x ∈ s.looks, (c₁.get x.1).isSome = (c.get x.1).isSome) (h : exec mentions c s = .ok c') :
    ∃ c₂, exec mentions c₁ s = .ok c₂ ∧ ∀ k, K k → c₂.get k = c'.get k := by
  by_cases ha : s.Acts c
  · obtain ⟨hready, hget⟩ := exec_spec h ha
    have ha₁ := (Stmt.Acts.congr hlooks).mpr ha
    obtain ⟨c₂, h₂⟩ := (@exec_ready mentions c₁ s ha₁).mpr (hready.congr hlooks)
    refine ⟨c₂, h₂, fun k hk => ?_⟩
    rw [hget, (exec_spec h₂ ha₁).2, hK k hk]
  · rw [exec_idle ha] at h
    cases h
    exact ⟨c₁, exec_idle fun hc => ha ((Stmt.Acts.congr hlooks).mp hc), hK⟩

theorem run_agree {K : Key → Prop} {ss : List Stmt} (hss : ∀ s ∈ ss, ∀ x ∈ s.looks, K x.1)
    (hK : ∀ k, K k → c₁.get k = c.get k) (h : run mentions ss c = .ok c') :
    ∃ c₂, run mentions ss c₁ = .ok c₂ ∧ ∀ k, K k → c₂.get k = c'.get k :=
  foldlM_simulation (R := fun (c c₁ : Catalog) => ∀ k, K k → c₁.get k = c.get k) hK
    (fun s hs _ _ _ hR hstep => exec_agree hR (fun x hx => by rw [hR _ (hss s hs x hx)]) hstep) h

/-- **A change to the catalog that a statement does not see**: if the statement runs on the changed catalog it runs on
    the catalog itself, and the change can come after it. -/
theorem exec_overlay {φ : Catalog → Catalog} {g : Key → Option Obj → Option Obj}
    (hφ : ∀ c k, (φ c).get k = g k (c.get k)) (hlooks : ∀ x ∈ s.looks, (c.get x.1).isSome = ((φ c).get x.1).isSome)
    (heffect : s.Acts c → s.Ready c → ∀ k, s.effect mentions k (g k (c.get k)) = g k (s.effect mentions k (c.get k)))
    (h : exec mentions (φ c) s = .ok c') : ∃ c₁, exec mentions c s = .ok c₁ ∧ c' = φ c₁ := by
  by_cases ha : s.Acts (φ c)
  · obtain ⟨hready, hget⟩ := exec_spec h ha
    have ha := (Stmt.Acts.congr hlooks).mpr ha
    have hready := hready.congr hlooks
    obtain ⟨c₁, h₁⟩ := (@exec_ready mentions c s ha).mpr hready
    refine ⟨c₁, h₁, Catalog.ext_get fun k => ?_⟩
    rw [hget, hφ, hφ, (exec_spec h₁ ha).2, heffect ha hready]
  · rw [exec_idle ha] at h
    exact ⟨c, exec_idle fun hc => ha ((Stmt.Acts.congr hlooks).mp hc), (Except.ok.inj h).symm⟩

end Atlantis.Pg
