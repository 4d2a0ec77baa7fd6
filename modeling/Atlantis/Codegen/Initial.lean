import Atlantis.Codegen.TopoSort
import Atlantis.Pg.Keys

/-!
# `Codegen.Initial` — the catalog of a schema

What the initial migration leaves behind: for every entity its table, with the columns and constraints the
entity declares, and the indexes and trigger functions of all of them. The statement is for schemas whose
entities live in tables of their own (`TablesApart`); where two entities claim one table, the second
`CREATE TABLE IF NOT EXISTS` does nothing.
-/

namespace Atlantis.Codegen

open Schema Pg Lib

/-- Every entity has a table of its own. -/
def TablesApart (ir : IR) : Prop := ir.entities.Pairwise fun a b => qualifiedTable a ≠ qualifiedTable b

instance (ir : IR) : Decidable (TablesApart ir) := inferInstanceAs (Decidable (List.Pairwise _ _))

theorem TablesApart.inj {ir : IR} (h : TablesApart ir) {a b : Entity} (ha : a ∈ ir.entities) (hb : b ∈ ir.entities)
    (heq : qualifiedTable a = qualifiedTable b) : a = b := by
  have hnodup : (ir.entities.map qualifiedTable).Nodup := by
    rw [List.Nodup, List.pairwise_map]
    exact h
  exact List.inj_on_of_nodup_map hnodup ha hb heq

/-- The constraints of an entity's table, under their names. -/
def entityConstraints (e : Entity) : List (String × Constraint) :=
  declared (qualifiedTable e) (e.fields.map columnDecl) (tableConstraints e)

/-- What an entity's table is constrained by. -/
inductive EntityConstraint (e : Entity) : String → Constraint → Prop where
  | unique : ∀ f ∈ e.fields, f.unique = true → f.primary = false →
      EntityConstraint e (inlineUniqueName (qualifiedTable e) f.name) (.unique [f.name])
  | reference : ∀ f ∈ e.fields, ∀ r, f.ref = some r → EntityConstraint e (fkName e f.name) (fkConstraintBody f.name r)
  | key : ∀ n cols, EntityConstraint e n (.primaryKey cols)
  | composite : ∀ u ∈ e.uniques, EntityConstraint e (compositeUniqueName e u.fields) (.unique u.fields)
  | check : ∀ n expr, EntityConstraint e n (.check expr)

/-- **Every constraint of an entity's table is one of these.** -/
theorem entityConstraint_of_mem {e : Entity} {n : String} {b : Constraint} (h : (n, b) ∈ entityConstraints e) :
    EntityConstraint e n b := by
  unfold entityConstraints declared tableConstraints at h
  simp only [List.mem_append, List.mem_flatMap, List.mem_map] at h
  rcases h with ⟨d, ⟨f, hf, rfl⟩, hd⟩ | ((⟨f, hf, hfc⟩ | hpk) | ⟨u, hu, heq⟩) | ⟨ci, _, heq⟩
  · unfold inlineConstraints at hd
    rw [List.mem_append, List.mem_ite_nil_right, List.mem_ite_nil_left, List.mem_singleton, List.mem_singleton] at hd
    rcases hd with ⟨hunique, heq⟩ | ⟨_, heq⟩
    · cases heq
      simp only [columnDecl, Bool.and_eq_true, Bool.not_eq_true'] at hunique
      exact .unique f hf hunique.1 hunique.2
    · cases heq
      exact .check _ _
  · unfold fieldConstraints at hfc
    rcases List.mem_append.mp hfc with hfc | hfc
    · cases hr : f.ref with
      | none => rw [hr] at hfc; cases hfc
      | some r =>
        rw [hr, List.mem_singleton] at hfc
        cases hfc
        exact .reference f hf r hr
    · cases List.mem_singleton.mp (List.mem_ite_nil_right.mp hfc).2
      exact .key _ _
  · cases List.mem_singleton.mp (List.mem_ite_nil_left.mp hpk).2
    exact .key _ _
  · cases heq
    exact .composite u hu
  · cases heq
    exact .check _ _

/-- The column of a field. -/
def entityColumn (e : Entity) (f : Field) : Column := builtColumn (tableConstraints e) (columnDecl f)

/-- The trigger of an entity. -/
def entityTriggers (e : Entity) : List (String × String) :=
  if e.touchOnUpdateField = "" then [] else [(triggerName e "touch", triggerName e "touch_fn")]

/-- **The table of an entity.** -/
structure TableOf (e : Entity) (tbl : Table) : Prop where
  columns : IsMap tbl.columns (e.fields.map fun f => (f.name, entityColumn e f))
  constraints : IsMap tbl.constraints (entityConstraints e)
  triggers : IsMap tbl.triggers (entityTriggers e)
  hypertable : tbl.hypertable = if e.kind = .hypertable then some e.timeField else none

/-- An entity has one table. -/
theorem TableOf.unique {e : Entity} {tbl tbl' : Table} (ht : TableOf e tbl) (ht' : TableOf e tbl') : tbl = tbl' := by
  have hcols := ht.columns.unique ht'.columns
  have hcons := ht.constraints.unique ht'.constraints
  have htrig := ht.triggers.unique ht'.triggers
  have hhyper := ht.hypertable.trans ht'.hypertable.symm
  cases tbl
  cases tbl'
  simp only at hcols hcons htrig hhyper
  rw [hcols, hcons, htrig, hhyper]

/-- The indexes of entities created one after the other. -/
def createdIndexes (ix : Indexes) (es : List Entity) : Indexes :=
  ix.run (es.flatMap fun e => e.indexes.map (emitIndexCreate e))

/-- The trigger functions of entities created one after the other. -/
def createdFunctions (fs : String → Option String) (es : List Entity) : String → Option String :=
  es.foldl (fun fs e => if e.touchOnUpdateField = "" then fs
    else Function.update fs (triggerName e "touch_fn") (some e.touchOnUpdateField)) fs

variable {mentions : String → String → Bool} {c c' : Catalog} {e : Entity}

theorem run_createIndexes_inv {is : List Index} (h : run mentions (is.map (emitIndexCreate e)) c = .ok c') :
    c' = { c with indexes := c.indexes.run (is.map (emitIndexCreate e)) } := by
  induction is generalizing c with
  | nil => cases h; rfl
  | cons i is ih =>
    obtain ⟨c₁, h₁, h⟩ := bind_ok h
    rw [ih h, exec_createIndex_inv h₁]
    rfl

/-- What the statement for the hypertable does to the table. -/
theorem run_hypertable_inv {t : TableRef} {tbl : Table} (htbl : c.tables t = some tbl)
    (h : run mentions (if e.kind = .hypertable then [.createHypertable t e.timeField] else []) c = .ok c') :
    c' = c.setTable t { tbl with hypertable := if e.kind = .hypertable then some e.timeField else tbl.hypertable } := by
  by_cases hkind : e.kind = .hypertable
  · rw [if_pos hkind] at h
    obtain ⟨c₁, h₁, h⟩ := bind_ok h
    obtain ⟨tbl', htbl', h₁⟩ := bind_ok h₁
    obtain ⟨_, _, h₁⟩ := bind_ok h₁
    cases h₁
    cases h
    rw [Option.some.inj (htbl.symm.trans (Catalog.table_ok htbl')), if_pos hkind]
  · rw [if_neg hkind] at h
    cases h
    rw [if_neg hkind]
    exact (Catalog.setTable_self htbl).symm

/-- What the statements for the touch trigger do. -/
theorem run_emitTouchTrigger_inv {tbl : Table} (htbl : c.tables (qualifiedTable e) = some tbl)
    (hnone : tbl.triggers = fun _ => none) (h : run mentions (emitTouchTrigger e) c = .ok c') :
    ∃ triggers, IsMap triggers (entityTriggers e) ∧
      c' = { c.setTable (qualifiedTable e) { tbl with triggers } with functions := createdFunctions c.functions [e] } := by
  unfold emitTouchTrigger at h
  unfold entityTriggers createdFunctions
  by_cases htouch : e.touchOnUpdateField = ""
  · rw [if_pos htouch] at h
    cases h
    refine ⟨tbl.triggers, ?_, ?_⟩
    · rw [if_pos htouch, hnone]
      exact IsMap.empty
    · simp [htouch, Catalog.setTable_self htbl]
  · rw [if_neg htouch] at h
    obtain ⟨c₁, h₁, h⟩ := bind_ok h
    cases h₁
    obtain ⟨c₂, h₂, h⟩ := bind_ok h
    obtain ⟨tbl₂, htbl₂, h₂⟩ := bind_ok h₂
    cases h₂
    obtain ⟨c₃, h₃, h⟩ := bind_ok h
    obtain ⟨tbl₃, htbl₃, rfl⟩ := exec_createTrigger_inv h₃
    cases h
    obtain rfl : tbl = tbl₂ := Option.some.inj (htbl.symm.trans (Catalog.table_ok htbl₂))
    obtain rfl := Option.some.inj ((Catalog.tables_setTable_self ..).symm.trans htbl₃)
    rw [if_neg htouch]
    exact ⟨_, IsMap.add IsMap.empty rfl, by simp [htouch, Catalog.setTable, hnone]⟩

/-- **Creating an entity whose table is not there** makes its table, its indexes and its function. -/
theorem run_emitEntityCreate_inv (hnone : c.tables (qualifiedTable e) = none)
    (h : run mentions (emitEntityCreate e) c = .ok c') :
    (∃ tbl, c'.tables (qualifiedTable e) = some tbl ∧ TableOf e tbl) ∧
    (∀ t, t ≠ qualifiedTable e → c'.tables t = c.tables t) ∧
    c'.indexes = createdIndexes c.indexes [e] ∧ c'.functions = createdFunctions c.functions [e] := by
  unfold emitEntityCreate at h
  rw [run_append, run_append] at h
  obtain ⟨c₃, h, htouch⟩ := bind_ok h
  obtain ⟨c₂, h, hhyper⟩ := bind_ok h
  obtain ⟨c₁, hcreate, hindexes⟩ := bind_ok h
  obtain ⟨tbl₀, hbuild, rfl⟩ := exec_createTable_inv hnone hcreate
  have hbuilt := buildTable_built hbuild
  obtain rfl := run_createIndexes_inv hindexes
  obtain rfl := run_hypertable_inv (by exact Catalog.tables_setTable_self ..) hhyper
  obtain ⟨triggers, htrig, rfl⟩ :=
    run_emitTouchTrigger_inv (by exact Catalog.tables_setTable_self ..) (by exact hbuilt.triggers) htouch
  have hmap : (e.fields.map columnDecl).map (fun d => (d.name, builtColumn (tableConstraints e) d))
      = e.fields.map fun f => (f.name, entityColumn e f) := by
    rw [List.map_map]
    rfl
  refine ⟨⟨_, Catalog.tables_setTable_self .., hmap ▸ hbuilt.columns, hbuilt.constraints, htrig, ?_⟩, fun t ht => ?_, ?_, rfl⟩
  · simp [hbuilt.hypertable]
  · simp [Catalog.setTable, ht]
  · simp [createdIndexes, Catalog.setTable]

theorem run_createSchemas (names : List String) : run mentions (names.map .createSchema) c = .ok c := by
  induction names with
  | nil => rfl
  | cons n names ih => exact ih

/-- **The tables of a schema**: one for every entity, and no other. -/
structure TablesOf (es : List Entity) (c : Catalog) : Prop where
  each : ∀ e ∈ es, ∃ tbl, c.tables (qualifiedTable e) = some tbl ∧ TableOf e tbl
  only : ∀ t, (∀ e ∈ es, t ≠ qualifiedTable e) → c.tables t = none

/-- Creating entities one after the other, each in a table of its own. -/
theorem run_emitEntityCreates_inv {mentions : String → String → Bool} {c : Catalog} {order : List Entity}
    (hapart : order.Pairwise fun a b => qualifiedTable a ≠ qualifiedTable b)
    (h : run mentions (order.flatMap emitEntityCreate) Catalog.empty = .ok c) :
    TablesOf order c ∧ c.indexes = createdIndexes Indexes.empty order ∧
      c.functions = createdFunctions (fun _ => none) order := by
  rw [run_flatMap] at h
  refine foldlM_invariant (I := fun (pre : List Entity) (c : Catalog) => TablesOf pre c ∧
    c.indexes = createdIndexes Indexes.empty pre ∧ c.functions = createdFunctions (fun _ => none) pre)
    ⟨⟨nofun, fun _ _ => rfl⟩, rfl, rfl⟩ ?_ h
  intro pre e rest c₁ c₂ horder hI hstep
  obtain ⟨htables, hix, hfn⟩ := hI
  have hne : ∀ e' ∈ pre, qualifiedTable e' ≠ qualifiedTable e := by
    rw [horder, List.pairwise_append] at hapart
    intro e' he'
    exact hapart.2.2 e' he' e List.mem_cons_self
  have hnone : c₁.tables (qualifiedTable e) = none := htables.only _ fun e' he' heq => hne e' he' heq.symm
  obtain ⟨hown, hothers, hix₂, hfn₂⟩ := run_emitEntityCreate_inv hnone hstep
  refine ⟨⟨?_, ?_⟩, ?_, ?_⟩
  · intro e' he'
    rcases List.mem_append.mp he' with he' | he'
    · rw [hothers _ (hne e' he')]
      exact htables.each e' he'
    · rw [List.mem_singleton.mp he']
      exact hown
  · intro t ht
    rw [hothers t (ht e (by simp))]
    exact htables.only t fun e' he' => ht e' (List.mem_append_left _ he')
  · rw [hix₂, hix]
    unfold createdIndexes
    rw [List.flatMap_append, Indexes.run_append]
  · rw [hfn₂, hfn]
    simp [createdFunctions]

/-- **What the initial migration leaves.** -/
theorem emitInitial_inv {mentions : String → String → Bool} {ir : IR} {stmts : List Stmt} {c : Catalog}
    (hvalid : Validated ir) (hapart : TablesApart ir) (hemit : emitInitial ir = .ok stmts)
    (hrun : run mentions stmts Catalog.empty = .ok c) :
    TablesOf ir.entities c ∧ ∃ order, order.Perm ir.entities ∧
      c.indexes = createdIndexes Indexes.empty order ∧ c.functions = createdFunctions (fun _ => none) order := by
  obtain ⟨order, hsort, hstmts⟩ := bind_ok hemit
  cases hstmts
  obtain ⟨hperm, _⟩ := topoSortEntities_spec hvalid.nodup hsort
  rw [List.cons_append, run_cons] at hrun
  obtain ⟨c₀, h₀, hrun⟩ := bind_ok hrun
  cases h₀
  rw [run_append, run_createSchemas] at hrun
  have hapart' : order.Pairwise fun a b => qualifiedTable a ≠ qualifiedTable b :=
    (hperm.pairwise_iff fun hab => hab.symm).mpr hapart
  obtain ⟨htables, hix, hfn⟩ := run_emitEntityCreates_inv hapart' hrun
  refine ⟨⟨?_, ?_⟩, order, hperm, hix, hfn⟩
  · intro e he
    exact htables.each e (hperm.mem_iff.mpr he)
  · intro t ht
    exact htables.only t fun e he => ht e (hperm.mem_iff.mp he)

end Atlantis.Codegen
