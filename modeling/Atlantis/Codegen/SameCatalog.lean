import Mathlib.Data.List.Induction
import Atlantis.Codegen.Initial

/-!
# `Codegen.SameCatalog` — a diff without statements

When no change of a diff emits a statement, the attributes the diff compares are the same on both sides. What
the two schemas then make of the database can still differ in what the diff does not compare, in what it
reports by a comment only (a moved table, a column made serial), and in the order of the columns of a
composite unique; `Unseen` is the agreement on these. With it, the two initial migrations leave one catalog.
-/

namespace Atlantis.Codegen

open Schema Pg Lib

/-- **What a silent diff does not say**: the attributes that are reported without a statement, and those that
    are not compared. -/
structure Unseen (oldE newE : Entity) : Prop where
  table : oldE.tableName = newE.tableName
  compositePK : oldE.compositePK = newE.compositePK
  checks : oldE.checks = newE.checks
  kind : oldE.kind = newE.kind
  timeField : oldE.timeField = newE.timeField
  touch : oldE.touchOnUpdateField = newE.touchOnUpdateField
  fields : ∀ f ∈ oldE.fields, ∀ g ∈ newE.fields, f.name = g.name →
    f.primary = g.primary ∧ f.identity = g.identity ∧ f.serial = g.serial ∧ f.check = g.check
  uniques : ∀ u ∈ oldE.uniques, ∀ v ∈ newE.uniques, sameColumns u v → u = v
  indexes : ∀ i ∈ oldE.indexes, ∀ j ∈ newE.indexes, indexKey i = indexKey j →
    indexName oldE i = indexName newE j ∧ indexBody i = indexBody j

/-- No two objects of a schema claim one name. -/
structure NamesApart (ir : IR) : Prop where
  tables : TablesApart ir
  indexes : ∀ a ∈ ir.entities, ∀ b ∈ ir.entities, ∀ i ∈ a.indexes, ∀ j ∈ b.indexes,
    entitySchema a = entitySchema b → indexName a i = indexName b j →
      qualifiedTable a = qualifiedTable b ∧ indexBody i = indexBody j
  functions : ∀ a ∈ ir.entities, ∀ b ∈ ir.entities, a.touchOnUpdateField ≠ "" → b.touchOnUpdateField ≠ "" →
    triggerName a "touch_fn" = triggerName b "touch_fn" → a.touchOnUpdateField = b.touchOnUpdateField

/-- No change of the diff emits a statement. -/
def Silent (old new : IR) (d : Diff) : Prop :=
  ∀ ch ∈ d.additive ++ d.backfillRequired ++ d.breaking, (emitChange new old ch).up = []

instance (old new : IR) (d : Diff) : Decidable (Silent old new d) := inferInstanceAs (Decidable (∀ ch ∈ _, _))

/-! ## What a silent diff says -/

/-- Two versions of an entity with the same physical attributes. -/
structure SamePhysical (a b : Entity) : Prop where
  name : tableName a = tableName b
  table : a.tableName = b.tableName
  compositePK : a.compositePK = b.compositePK
  checks : a.checks = b.checks
  kind : a.kind = b.kind
  timeField : a.timeField = b.timeField
  touch : a.touchOnUpdateField = b.touchOnUpdateField
  fields : ∀ f ∈ a.fields, ∃ g ∈ b.fields, columnDecl f = columnDecl g ∧ f.primary = g.primary ∧ f.ref = g.ref
  fields' : ∀ g ∈ b.fields, ∃ f ∈ a.fields, columnDecl g = columnDecl f ∧ g.primary = f.primary ∧ g.ref = f.ref
  uniques : ∀ u, u ∈ a.uniques ↔ u ∈ b.uniques
  indexes : ∀ i ∈ a.indexes, ∃ j ∈ b.indexes, indexName a i = indexName b j ∧ indexBody i = indexBody j
  indexes' : ∀ j ∈ b.indexes, ∃ i ∈ a.indexes, indexName b j = indexName a i ∧ indexBody j = indexBody i

theorem SamePhysical.symm {a b : Entity} (h : SamePhysical a b) : SamePhysical b a where
  name := h.name.symm
  table := h.table.symm
  compositePK := h.compositePK.symm
  checks := h.checks.symm
  kind := h.kind.symm
  timeField := h.timeField.symm
  touch := h.touch.symm
  fields := h.fields'
  fields' := h.fields
  uniques := fun u => (h.uniques u).symm
  indexes := h.indexes'
  indexes' := h.indexes

variable {ctx : DiffCtx} {ord : RangeOrder} {old new : IR} {oldE newE : Entity}

section Silent

/-- Every change of an entity that both schemas have is one of the diff's. -/
theorem Silent.up_eq_nil (hs : Silent old new (ComputeDiff ctx ord old new)) (h : Versions old new oldE newE)
    {ch : Change} (hch : ch ∈ diffEntity ctx ord oldE newE) : (emitChange new old ch).up = [] := by
  apply hs
  have hall : ch ∈ allChanges ctx ord old new := by
    rw [mem_allChanges, entityID_of_mem_diffEntity hch]
    unfold diffID
    rw [h.oldByID, h.newByID]
    exact hch
  exact (classes_perm _).mem_iff.mpr hall

variable (hs : Silent old new (ComputeDiff ctx ord old new)) (h : Versions old new oldE newE)

include hs h

/-- A field of the old version is still there. -/
theorem Silent.field_kept {f : Field} (hf : f ∈ oldE.fields) : ∃ g ∈ newE.fields, g.name = f.name := by
  have holdL := h.oldValid.lowered h.oldMem
  cases hg : fieldByName newE f.name with
  | some g => exact ⟨g, (lastWith_mem hg).1, (lastWith_mem hg).2⟩
  | none =>
    have hch : ⟨.fieldRemoved, ctx.classifyRemoval newE.id (newE.id ++ "." ++ f.name), newE.id, f.name⟩
        ∈ diffFieldNamed ctx oldE newE f.name := by
      unfold diffFieldNamed
      rw [hg, fieldByName_of_mem holdL hf]
      exact List.mem_singleton.mpr rfl
    have hup := hs.up_eq_nil h (mem_diffEntity_of_field hch)
    simp [emitChange, h.oldByID, withField, findField_of_mem holdL hf] at hup

/-- A field of the new version was there. -/
theorem Silent.field_known {g : Field} (hg : g ∈ newE.fields) : ∃ f ∈ oldE.fields, f.name = g.name := by
  have hnewL := h.newValid.lowered h.newMem
  cases hf : fieldByName oldE g.name with
  | some f => exact ⟨f, (lastWith_mem hf).1, (lastWith_mem hf).2⟩
  | none =>
    have hch : ⟨.fieldAdded, if g.notNull && g.default.isNone then .backfillRequired else .additive, newE.id, g.name⟩
        ∈ diffFieldNamed ctx oldE newE g.name := by
      unfold diffFieldNamed
      rw [hf, fieldByName_of_mem hnewL hg]
      exact List.mem_cons_self
    have hup := hs.up_eq_nil h (mem_diffEntity_of_field hch)
    simp [emitChange, h.newByID, withField, findField_of_mem hnewL hg, emitFieldAdd] at hup

/-- **The compared attributes of a field are the same.** -/
theorem Silent.field_eq {f g : Field} (hf : f ∈ oldE.fields) (hg : g ∈ newE.fields) (hname : f.name = g.name) :
    f.type = g.type ∧ f.notNull = g.notNull ∧ f.unique = g.unique ∧ f.default = g.default ∧ f.ref = g.ref := by
  have holdL := h.oldValid.lowered h.oldMem
  have hnewL := h.newValid.lowered h.newMem
  have hO := h.oldByID
  have hN := h.newByID
  have hfindO : oldE.findField g.name = some f := hname ▸ findField_of_mem holdL hf
  have hfindN : newE.findField g.name = some g := findField_of_mem hnewL hg
  have hup : ∀ ch ∈ diffField newE.id f g, (emitChange new old ch).up = [] := by
    intro ch hch
    refine hs.up_eq_nil h (@mem_diffEntity_of_field ctx ord oldE newE ch g.name ?_)
    unfold diffFieldNamed
    rw [fieldByName_of_mem hnewL hg, ← hname, fieldByName_of_mem holdL hf]
    exact hch
  unfold diffField at hup
  simp only [List.mem_append, or_assoc] at hup
  refine ⟨?_, ?_, ?_, ?_, ?_⟩
  · by_contra hne
    have hnil := hup ⟨.fieldTypeChanged, classifyTypeChange f.type g.type, newE.id, g.name⟩
      (.inl (by simp [diffFieldType, typeEqual, hne]))
    simp [emitChange, hN, hO, withField, hfindN, hfindO] at hnil
  · have hnil := fun ch hch => hup ch (.inr (.inl hch))
    cases ho : f.notNull <;> cases hn : g.notNull <;>
      simp [diffFieldNotNull, ho, hn, emitChange, hN, withEntity] at hnil ⊢
  · have hnil := fun ch hch => hup ch (.inr (.inr (.inl hch)))
    cases ho : f.unique <;> cases hn : g.unique <;>
      simp [diffFieldUnique, ho, hn, emitChange, hN, withEntity] at hnil ⊢
  · by_contra hne
    have hnil := hup ⟨.fieldDefaultChanged, .additive, newE.id, g.name⟩
      (.inr (.inr (.inr (.inl (by simp [diffFieldDefault, hne])))))
    simp [emitChange, hN, hO, withField, hfindN, hfindO] at hnil
  · have hnil := fun ch hch => hup ch (.inr (.inr (.inr (.inr (.inr (.inr hch))))))
    cases ho : f.ref with
    | none => cases hn : g.ref <;> simp [diffFieldRef, ho, hn, emitChange, hN, withField, hfindN] at hnil ⊢
    | some o =>
      cases hn : g.ref with
      | none => simp [diffFieldRef, ho, hn, emitChange, hO, withField, hfindO] at hnil
      | some r =>
        by_contra hne
        simp only [diffFieldRef, ho, hn, if_neg fun heq : o = r => hne (congrArg some heq)] at hnil
        -- whatever the class of the change
        split at hnil <;> [skip; split at hnil] <;>
          simp [emitChange, hN, hO, withField, hfindN, hfindO, ho, hn] at hnil

/-- The composite uniques have the same keys. -/
theorem Silent.unique_keys : (∀ u ∈ oldE.uniques, ∃ v ∈ newE.uniques, uniqueSpecKey v = uniqueSpecKey u) ∧
    ∀ v ∈ newE.uniques, ∃ u ∈ oldE.uniques, uniqueSpecKey u = uniqueSpecKey v := by
  have hN := h.newByID
  constructor
  · refine keys_of_unseen ord ("uniques removed: " ++ newE.id) fun u (hu : u ∈ removedUniques ord oldE newE) => ?_
    have hnil : (emitChange new old ⟨.compositeUniqueRemoved u, .additive, newE.id, ""⟩).up = [] :=
      hs.up_eq_nil h (by simp [diffEntity, diffUniques, hu])
    simp [emitChange, hN, withEntity] at hnil
  · refine keys_of_unseen ord ("uniques added: " ++ newE.id) fun u (hu : u ∈ addedUniques ord oldE newE) => ?_
    have hnil : (emitChange new old ⟨.compositeUniqueAdded u, .backfillRequired, newE.id, ""⟩).up = [] :=
      hs.up_eq_nil h (by simp [diffEntity, diffUniques, hu])
    simp [emitChange, hN, withEntity] at hnil

/-- And so have the indexes. -/
theorem Silent.index_keys : (∀ i ∈ oldE.indexes, ∃ j ∈ newE.indexes, indexKey j = indexKey i) ∧
    ∀ j ∈ newE.indexes, ∃ i ∈ oldE.indexes, indexKey i = indexKey j := by
  have hN := h.newByID
  constructor
  · refine keys_of_unseen ord ("indexes removed: " ++ newE.id) fun i (hi : i ∈ removedIndexes ord oldE newE) => ?_
    have hnil : (emitChange new old ⟨.indexRemoved i, .additive, newE.id, ""⟩).up = [] :=
      hs.up_eq_nil h (by simp [diffEntity, diffIndexes, hi])
    simp [emitChange, hN, withEntity] at hnil
  · refine keys_of_unseen ord ("indexes added: " ++ newE.id) fun i (hi : i ∈ addedIndexes ord oldE newE) => ?_
    have hnil : (emitChange new old ⟨.indexAdded i, .additive, newE.id, ""⟩).up = [] :=
      hs.up_eq_nil h (by simp [diffEntity, diffIndexes, hi])
    simp [emitChange, hN, withEntity] at hnil

/-- **A silent diff, with what it does not say, fixes the physical attributes.** -/
theorem Silent.samePhysical (hunseen : Unseen oldE newE) : SamePhysical oldE newE := by
  have hfield : ∀ f ∈ oldE.fields, ∀ g ∈ newE.fields, f.name = g.name →
      columnDecl f = columnDecl g ∧ f.primary = g.primary ∧ f.ref = g.ref := by
    intro f hf g hg hname
    obtain ⟨htype, hnull, hunique, hdefault, href⟩ := hs.field_eq h hf hg hname
    obtain ⟨hprimary, hidentity, hserial, hcheck⟩ := hunseen.fields f hf g hg hname
    refine ⟨?_, hprimary, href⟩
    unfold columnDecl
    rw [hname, htype, hnull, hunique, hdefault, hprimary, hidentity, hserial, hcheck]
  have hsame : ∀ u ∈ oldE.uniques, ∀ v ∈ newE.uniques, uniqueSpecKey u = uniqueSpecKey v → u = v := by
    intro u hu v hv hkey
    exact hunseen.uniques u hu v hv
      ((uniqueSpecKey_eq_iff h.oldValid h.newValid h.oldMem h.newMem hu hv).mp hkey)
  obtain ⟨huniques, huniques'⟩ := hs.unique_keys h
  obtain ⟨hindexes, hindexes'⟩ := hs.index_keys h
  constructor
  case name => exact h.tableName_eq
  case table => exact hunseen.table
  case compositePK => exact hunseen.compositePK
  case checks => exact hunseen.checks
  case kind => exact hunseen.kind
  case timeField => exact hunseen.timeField
  case touch => exact hunseen.touch
  case fields =>
    intro f hf
    obtain ⟨g, hg, hname⟩ := hs.field_kept h hf
    exact ⟨g, hg, hfield f hf g hg hname.symm⟩
  case fields' =>
    intro g hg
    obtain ⟨f, hf, hname⟩ := hs.field_known h hg
    obtain ⟨hdecl, hprimary, href⟩ := hfield f hf g hg hname
    exact ⟨f, hf, hdecl.symm, hprimary.symm, href.symm⟩
  case uniques =>
    intro u
    constructor
    · intro hu
      obtain ⟨v, hv, hkey⟩ := huniques u hu
      rw [hsame u hu v hv hkey.symm]
      exact hv
    · intro hv
      obtain ⟨v, hu, hkey⟩ := huniques' u hv
      rw [← hsame v hu u hv hkey]
      exact hu
  case indexes =>
    intro i hi
    obtain ⟨j, hj, hkey⟩ := hindexes i hi
    exact ⟨j, hj, hunseen.indexes i hi j hj hkey.symm⟩
  case indexes' =>
    intro j hj
    obtain ⟨i, hi, hkey⟩ := hindexes' j hj
    obtain ⟨hname, hbody⟩ := hunseen.indexes i hi j hj hkey
    exact ⟨i, hi, hname.symm, hbody.symm⟩

end Silent

/-! ## What the physical attributes make -/

variable {a b : Entity}

theorem SamePhysical.qualifiedTable_eq (h : SamePhysical a b) : qualifiedTable a = qualifiedTable b :=
  qualifiedTable_congr h.name h.table

/-- The constraints of the table, one inclusion; the other is by symmetry. -/
theorem SamePhysical.tableConstraints_subset (h : SamePhysical a b) {x : String × Constraint}
    (hx : x ∈ tableConstraints a) : x ∈ tableConstraints b := by
  have hpk : pkName a = pkName b := by
    unfold pkName
    rw [h.name]
  have hcheck : ∀ ci : TableCheck × Nat, checkName a ci.1 ci.2 = checkName b ci.1 ci.2 := by
    intro ci
    unfold checkName
    rw [h.name]
  unfold tableConstraints at hx ⊢
  simp only [List.mem_append] at hx ⊢
  rcases hx with ((hx | hx) | hx) | hx
  · obtain ⟨f, hf, hx⟩ := List.mem_flatMap.mp hx
    obtain ⟨g, hg, hdecl, hprimary, href⟩ := h.fields f hf
    have hname : f.name = g.name := congrArg ColumnDecl.name hdecl
    refine .inl (.inl (.inl (List.mem_flatMap.mpr ⟨g, hg, ?_⟩)))
    unfold fieldConstraints fkName at hx ⊢
    rwa [← hname, ← href, ← hprimary, ← h.compositePK, ← hpk, ← h.name]
  · rw [h.compositePK, hpk] at hx
    exact .inl (.inl (.inr hx))
  · obtain ⟨u, hu, rfl⟩ := List.mem_map.mp hx
    refine .inl (.inr (List.mem_map.mpr ⟨u, (h.uniques u).mp hu, ?_⟩))
    unfold compositeUniqueName
    rw [h.name]
  · obtain ⟨ci, hci, rfl⟩ := List.mem_map.mp hx
    refine .inr (List.mem_map.mpr ⟨ci, h.checks ▸ hci, ?_⟩)
    rw [hcheck]

theorem SamePhysical.mem_tableConstraints (h : SamePhysical a b) {x : String × Constraint} :
    x ∈ tableConstraints a ↔ x ∈ tableConstraints b :=
  ⟨h.tableConstraints_subset, h.symm.tableConstraints_subset⟩

theorem SamePhysical.entityConstraints_subset (h : SamePhysical a b) {x : String × Constraint}
    (hx : x ∈ entityConstraints a) : x ∈ entityConstraints b := by
  unfold entityConstraints declared at hx ⊢
  rcases List.mem_append.mp hx with hx | hx
  · obtain ⟨d, hd, hx⟩ := List.mem_flatMap.mp hx
    obtain ⟨f, hf, rfl⟩ := List.mem_map.mp hd
    obtain ⟨g, hg, hdecl, _⟩ := h.fields f hf
    rw [h.qualifiedTable_eq, hdecl] at hx
    exact List.mem_append_left _ (List.mem_flatMap.mpr ⟨columnDecl g, List.mem_map_of_mem hg, hx⟩)
  · exact List.mem_append_right _ (h.tableConstraints_subset hx)

theorem SamePhysical.builtColumn_eq (h : SamePhysical a b) (d : ColumnDecl) :
    builtColumn (tableConstraints a) d = builtColumn (tableConstraints b) d := by
  have hkeys : (keyCols (tableConstraints a)).contains d.name = (keyCols (tableConstraints b)).contains d.name := by
    rw [Bool.eq_iff_iff]
    simp only [keyCols, List.contains_eq_mem, decide_eq_true_eq, List.mem_flatMap, h.mem_tableConstraints]
  unfold builtColumn
  rw [hkeys]

theorem SamePhysical.columns_subset (h : SamePhysical a b) {x : String × Column}
    (hx : x ∈ a.fields.map fun f => (f.name, entityColumn a f)) :
    x ∈ b.fields.map fun f => (f.name, entityColumn b f) := by
  obtain ⟨f, hf, rfl⟩ := List.mem_map.mp hx
  obtain ⟨g, hg, hdecl, _⟩ := h.fields f hf
  refine List.mem_map.mpr ⟨g, hg, ?_⟩
  have hname : f.name = g.name := congrArg ColumnDecl.name hdecl
  unfold entityColumn
  rw [hname, hdecl, h.builtColumn_eq]

/-- The table of one version is the table of the other. -/
theorem TableOf.congr {tbl : Table} (ht : TableOf a tbl) (h : SamePhysical a b) : TableOf b tbl where
  columns := ht.columns.congr fun _ => ⟨h.columns_subset, h.symm.columns_subset⟩
  constraints := ht.constraints.congr fun _ => ⟨h.entityConstraints_subset, h.symm.entityConstraints_subset⟩
  triggers := by
    have heq : entityTriggers a = entityTriggers b := by
      unfold entityTriggers triggerName
      rw [h.touch, h.name]
    exact heq ▸ ht.triggers
  hypertable := by rw [ht.hypertable, h.kind, h.timeField]

/-! ## Indexes and functions -/

/-- The indexes of a schema, when no two want one name. -/
theorem NamesApart.createdIndexes_eq_some {ir : IR} (h : NamesApart ir) {order : List Entity}
    (hmem : ∀ e ∈ order, e ∈ ir.entities) {s n : String} {x : TableRef × IndexBody} :
    createdIndexes Indexes.empty order s n = some x ↔
      ∃ e ∈ order, ∃ i ∈ e.indexes, entitySchema e = s ∧ indexName e i = n ∧ (qualifiedTable e, indexBody i) = x := by
  have hstmts : (order.flatMap fun e => e.indexes.map (emitIndexCreate e))
      = (order.flatMap fun e => e.indexes.map fun i => (qualifiedTable e, indexName e i, indexBody i)).map
        fun a => .createIndex a.1 a.2.1 a.2.2 := by
    rw [List.map_flatMap]
    simp only [List.map_map]
    rfl
  unfold createdIndexes
  rw [hstmts, Indexes.run_creates_empty]
  · simp only [List.mem_flatMap, List.mem_map]
    constructor
    · rintro ⟨_, ⟨e, he, i, hi, rfl⟩, hs, hn, hx⟩
      exact ⟨e, he, i, hi, hs, hn, hx⟩
    · rintro ⟨e, he, i, hi, hs, hn, hx⟩
      exact ⟨_, ⟨e, he, i, hi, rfl⟩, hs, hn, hx⟩
  · intro a ha b hb hs hn
    simp only [List.mem_flatMap, List.mem_map] at ha hb
    obtain ⟨e, he, i, hi, rfl⟩ := ha
    obtain ⟨e', he', j, hj, rfl⟩ := hb
    obtain ⟨htable, hbody⟩ := h.indexes e (hmem e he) e' (hmem e' he') i hi j hj hs hn
    show (_, _, _) = (_, _, _)
    rw [htable, hbody, show indexName e i = indexName e' j from hn]

/-- The trigger functions of a schema, when no two want one name. -/
theorem NamesApart.createdFunctions_eq_some {ir : IR} (h : NamesApart ir) {order : List Entity}
    (hmem : ∀ e ∈ order, e ∈ ir.entities) {n col : String} :
    createdFunctions (fun _ => none) order n = some col ↔
      ∃ e ∈ order, e.touchOnUpdateField ≠ "" ∧ triggerName e "touch_fn" = n ∧ e.touchOnUpdateField = col := by
  induction order using List.reverseRecOn with
  | nil => simp [createdFunctions]
  | append_singleton es e ih =>
    have ih := ih fun e' he' => hmem e' (List.mem_append_left _ he')
    unfold createdFunctions at ih ⊢
    rw [List.foldl_append, List.foldl_cons, List.foldl_nil]
    have hlast : ∀ {P : Entity → Prop}, ¬ P e → ((∃ e' ∈ es, P e') ↔ ∃ e' ∈ es ++ [e], P e') := by
      intro P hno
      simp [or_and_right, exists_or, hno]
    by_cases htouch : e.touchOnUpdateField = ""
    · rw [if_pos htouch, ih]
      exact hlast fun h => h.1 htouch
    · rw [if_neg htouch]
      by_cases hn : n = triggerName e "touch_fn"
      · rw [hn, Function.update_self]
        constructor
        · intro hcol
          exact ⟨e, by simp, htouch, rfl, Option.some.inj hcol⟩
        · rintro ⟨e', he', htouch', hname, rfl⟩
          rw [h.functions e (hmem e (by simp)) e' (hmem e' he') htouch htouch' hname.symm]
      · rw [Function.update_of_ne hn, ih]
        exact hlast fun h => hn h.2.1.symm

/-- The catalog holds what the schema declares, and nothing else. -/
structure CatalogOf (ir : IR) (c : Catalog) : Prop where
  tables : TablesOf ir.entities c
  indexes : ∀ {s n x}, c.indexes s n = some x ↔ ∃ e ∈ ir.entities, ∃ i ∈ e.indexes,
    entitySchema e = s ∧ indexName e i = n ∧ (qualifiedTable e, indexBody i) = x
  functions : ∀ {n col}, c.functions n = some col → ∃ e ∈ ir.entities, triggerName e "touch_fn" = n

/-- The initial migration leaves the catalog of its schema. -/
theorem catalogOf_initial {mentions : String → String → Bool} {ir : IR} {stmts : List Stmt} {c : Catalog}
    (hvalid : Validated ir) (hapart : NamesApart ir) (hemit : emitInitial ir = .ok stmts)
    (hrun : run mentions stmts Catalog.empty = .ok c) : CatalogOf ir c ∧ ∀ n col, c.functions n = some col ↔
      ∃ e ∈ ir.entities, e.touchOnUpdateField ≠ "" ∧ triggerName e "touch_fn" = n ∧ e.touchOnUpdateField = col := by
  obtain ⟨htables, order, hperm, hix, hfn⟩ := emitInitial_inv hvalid hapart.tables hemit hrun
  have hmem : ∀ e ∈ order, e ∈ ir.entities := fun e he => hperm.mem_iff.mp he
  have hfunctions : ∀ n col, c.functions n = some col ↔ ∃ e ∈ ir.entities, e.touchOnUpdateField ≠ "" ∧
      triggerName e "touch_fn" = n ∧ e.touchOnUpdateField = col := by
    intro n col
    rw [hfn, hapart.createdFunctions_eq_some hmem]
    simp only [hperm.mem_iff]
  refine ⟨⟨htables, ?_, fun h => ?_⟩, hfunctions⟩
  · intro s n x
    rw [hix, hapart.createdIndexes_eq_some hmem]
    simp only [hperm.mem_iff]
  · obtain ⟨e, he, _, hname, _⟩ := (hfunctions _ _).mp h
    exact ⟨e, he, hname⟩

/-! ## The two catalogs -/

/-- The entities of two schemas correspond, with the same physical attributes. -/
structure Alike (old new : IR) : Prop where
  each : ∀ a ∈ old.entities, ∃ b ∈ new.entities, a.id = b.id ∧ SamePhysical a b
  each' : ∀ b ∈ new.entities, ∃ a ∈ old.entities, b.id = a.id ∧ SamePhysical b a

variable {mentions : String → String → Bool} {c c' : Catalog}

theorem Alike.symm (h : Alike old new) : Alike new old := ⟨h.each', h.each⟩

/-- Names that are apart in one schema are apart in the other. -/
theorem Alike.namesApart (h : Alike old new) (hnew : Validated new) (hapart : NamesApart old) : NamesApart new where
  tables := by
    refine hnew.1.imp_of_mem ?_
    intro a b ha hb hlt heq
    obtain ⟨a', ha', hida, hsameA⟩ := h.each' a ha
    obtain ⟨b', hb', hidb, hsameB⟩ := h.each' b hb
    rw [hsameA.qualifiedTable_eq, hsameB.qualifiedTable_eq] at heq
    rw [hida, hidb, hapart.tables.inj ha' hb' heq] at hlt
    exact lt_irrefl _ hlt
  indexes := by
    intro a ha b hb i hi j hj hschema hname
    obtain ⟨a', ha', _, hsameA⟩ := h.each' a ha
    obtain ⟨b', hb', _, hsameB⟩ := h.each' b hb
    obtain ⟨i', hi', hnameI, hbodyI⟩ := hsameA.indexes i hi
    obtain ⟨j', hj', hnameJ, hbodyJ⟩ := hsameB.indexes j hj
    have hschema' : entitySchema a' = entitySchema b' := by
      have hA : entitySchema a = entitySchema a' := congrArg TableRef.schema hsameA.qualifiedTable_eq
      have hB : entitySchema b = entitySchema b' := congrArg TableRef.schema hsameB.qualifiedTable_eq
      rw [← hA, ← hB, hschema]
    rw [hnameI, hnameJ] at hname
    rw [hsameA.qualifiedTable_eq, hsameB.qualifiedTable_eq, hbodyI, hbodyJ]
    exact hapart.indexes a' ha' b' hb' i' hi' j' hj' hschema' hname
  functions := by
    intro a ha b hb htouchA htouchB hname
    obtain ⟨a', ha', _, hsameA⟩ := h.each' a ha
    obtain ⟨b', hb', _, hsameB⟩ := h.each' b hb
    rw [hsameA.touch] at htouchA ⊢
    rw [hsameB.touch] at htouchB ⊢
    unfold triggerName at hname
    rw [hsameA.name, hsameB.name] at hname
    exact hapart.functions a' ha' b' hb' htouchA htouchB hname

/-- One inclusion of the indexes. -/
theorem Alike.indexes_subset (h : Alike old new) (hc : CatalogOf old c) (hc' : CatalogOf new c') {s n : String}
    {x : TableRef × IndexBody} (hx : c.indexes s n = some x) : c'.indexes s n = some x := by
  obtain ⟨a, ha, i, hi, rfl, rfl, rfl⟩ := hc.indexes.mp hx
  obtain ⟨b, hb, _, hsame⟩ := h.each a ha
  obtain ⟨j, hj, hname, hbody⟩ := hsame.indexes i hi
  refine hc'.indexes.mpr ⟨b, hb, j, hj, ?_, hname.symm, ?_⟩
  · exact congrArg TableRef.schema hsame.qualifiedTable_eq.symm
  · rw [hsame.qualifiedTable_eq, hbody]

/-- One inclusion of the functions. -/
theorem Alike.functions_subset (h : Alike old new) {n col : String} (hx : ∃ a ∈ old.entities,
      a.touchOnUpdateField ≠ "" ∧ triggerName a "touch_fn" = n ∧ a.touchOnUpdateField = col) :
    ∃ b ∈ new.entities, b.touchOnUpdateField ≠ "" ∧ triggerName b "touch_fn" = n ∧ b.touchOnUpdateField = col := by
  obtain ⟨a, ha, htouch, rfl, rfl⟩ := hx
  obtain ⟨b, hb, _, hsame⟩ := h.each a ha
  refine ⟨b, hb, hsame.touch ▸ htouch, ?_, hsame.touch.symm⟩
  unfold triggerName
  rw [hsame.name]

/-- **A silent diff misses no physical change** among schemas that agree on what it does not say: the two
    initial migrations leave the same catalog. -/
theorem catalog_eq_of_silent {ctx : DiffCtx} {ord : RangeOrder} {mentions : String → String → Bool} {old new : IR}
    {stmts stmts' : List Stmt} {c c' : Catalog} (hold : Validated old) (hnew : Validated new)
    (hids : ∀ id, id ∈ old.entities.map Entity.id ↔ id ∈ new.entities.map Entity.id)
    (hunseen : ∀ a ∈ old.entities, ∀ b ∈ new.entities, a.id = b.id → Unseen a b) (hapart : NamesApart old)
    (hsilent : Silent old new (ComputeDiff ctx ord old new))
    (hemit : emitInitial old = .ok stmts) (hrun : run mentions stmts Catalog.empty = .ok c)
    (hemit' : emitInitial new = .ok stmts') (hrun' : run mentions stmts' Catalog.empty = .ok c') : c = c' := by
  have hsame : ∀ a ∈ old.entities, ∀ b ∈ new.entities, a.id = b.id → SamePhysical a b := by
    intro a ha b hb hid
    exact hsilent.samePhysical ⟨hold, hnew, ha, hb, hid⟩ (hunseen a ha b hb hid)
  have halike : Alike old new := by
    constructor
    · intro a ha
      obtain ⟨b, hb, hid⟩ := List.mem_map.mp ((hids a.id).mp (List.mem_map_of_mem ha))
      exact ⟨b, hb, hid.symm, hsame a ha b hb hid.symm⟩
    · intro b hb
      obtain ⟨a, ha, hid⟩ := List.mem_map.mp ((hids b.id).mpr (List.mem_map_of_mem hb))
      exact ⟨a, ha, hid.symm, (hsame a ha b hb hid).symm⟩
  obtain ⟨hc, hfn⟩ := catalogOf_initial hold hapart hemit hrun
  obtain ⟨hc', hfn'⟩ := catalogOf_initial hnew (halike.namesApart hnew hapart) hemit' hrun'
  have hindexes : c.indexes = c'.indexes := by
    funext s n
    exact Option.ext fun x => ⟨halike.indexes_subset hc hc', halike.symm.indexes_subset hc' hc⟩
  have hfunctions : c.functions = c'.functions := by
    funext n
    refine Option.ext fun col => ?_
    rw [hfn, hfn']
    exact ⟨halike.functions_subset, halike.symm.functions_subset⟩
  have htables : c.tables = c'.tables := by
    funext t
    by_cases hin : ∃ a ∈ old.entities, t = qualifiedTable a
    · obtain ⟨a, ha, rfl⟩ := hin
      obtain ⟨b, hb, _, hsame⟩ := halike.each a ha
      obtain ⟨tbl, htbl, hof⟩ := hc.tables.each a ha
      obtain ⟨tbl', htbl', hof'⟩ := hc'.tables.each b hb
      rw [htbl, hsame.qualifiedTable_eq, htbl', (hof.congr hsame).unique hof']
    · have hout : ∀ b ∈ new.entities, t ≠ qualifiedTable b := by
        rintro b hb rfl
        obtain ⟨a, ha, _, hsame⟩ := halike.each' b hb
        exact hin ⟨a, ha, hsame.qualifiedTable_eq⟩
      rw [hc.tables.only t fun a ha heq => hin ⟨a, ha, heq⟩, hc'.tables.only t hout]
  exact Catalog.ext htables hindexes hfunctions

/-! ## What a silent diff leaves open -/

/-- Tickets, in the given table, with a number that may be serial and a unique place. -/
def tickets (table : String) (serial : Bool) (unique : List String) : Entity where
  name := "Ticket"
  namespace_ := "shop"
  fields := [idField, { name := "number", type := .simple "bigint", notNull := true, serial := serial },
    { name := "line", type := .simple "int" }, { name := "place", type := .simple "int" }]
  uniques := [⟨unique⟩]
  tableName := table

/-- The diff emits nothing, and the initial migrations leave different catalogs. -/
def Missed (a b : Entity) : Prop :=
  Validated ⟨[a]⟩ ∧ Validated ⟨[b]⟩ ∧ a.id = b.id ∧ Silent ⟨[a]⟩ ⟨[b]⟩ (ComputeDiff {} insertionOrder ⟨[a]⟩ ⟨[b]⟩) ∧
    ∃ stmts stmts' c c', emitInitial ⟨[a]⟩ = .ok stmts ∧ run (fun _ _ => false) stmts Catalog.empty = .ok c ∧
      emitInitial ⟨[b]⟩ = .ok stmts' ∧ run (fun _ _ => false) stmts' Catalog.empty = .ok c' ∧ c ≠ c'

/-- The column of the number and the constraint on the place. -/
def ticketParts (c : Catalog) : Option Column × Option Constraint :=
  ((c.tables ⟨"atlantis", "shop_ticket"⟩).bind (·.columns "number"),
    (c.tables ⟨"atlantis", "shop_ticket"⟩).bind (·.constraints "shop_ticket_line_place_key"))

theorem missed_of_ticketParts {a b : Entity} (ha : Validated ⟨[a]⟩) (hb : Validated ⟨[b]⟩) (hid : a.id = b.id)
    (hsilent : Silent ⟨[a]⟩ ⟨[b]⟩ (ComputeDiff {} insertionOrder ⟨[a]⟩ ⟨[b]⟩))
    (hruns : ∃ stmts, emitInitial ⟨[a]⟩ = .ok stmts ∧ ∃ c, run (fun _ _ => false) stmts Catalog.empty = .ok c ∧
      ∃ stmts', emitInitial ⟨[b]⟩ = .ok stmts' ∧ ∃ c', run (fun _ _ => false) stmts' Catalog.empty = .ok c' ∧
        ticketParts c ≠ ticketParts c') : Missed a b := by
  obtain ⟨stmts, hemit, c, hrun, stmts', hemit', c', hrun', hne⟩ := hruns
  exact ⟨ha, hb, hid, hsilent, stmts, stmts', c, c', hemit, hrun, hemit', hrun', fun h => hne (congrArg ticketParts h)⟩

/-- **Physical changes without a statement**: a table that moves, a column that becomes serial, a composite
    unique whose columns are listed in another order. -/
theorem silent_diffs_miss :
    Missed (tickets "" false ["line", "place"]) (tickets "legacy.tickets" false ["line", "place"]) ∧
    Missed (tickets "" false ["line", "place"]) (tickets "" true ["line", "place"]) ∧
    Missed (tickets "" false ["line", "place"]) (tickets "" false ["place", "line"]) := by
  refine ⟨?_, ?_, ?_⟩
  all_goals
    exact missed_of_ticketParts (by decide +kernel) (by decide +kernel) rfl (by decide +kernel) (by decide +kernel)

/-- The tickets with their fields in another order and another query timeout. -/
def ticketsReordered : Entity :=
  { tickets "" true ["line", "place"] with
    fields := (tickets "" true ["line", "place"]).fields.reverse
    queryTimeoutMS := 500 }

/-- Reordering the fields and changing the timeout leaves the catalog as it is. -/
theorem catalog_eq_of_silent_tickets :
    ∃ stmts stmts' c c', emitInitial ⟨[tickets "" true ["line", "place"]]⟩ = .ok stmts ∧
      run (fun _ _ => false) stmts Catalog.empty = .ok c ∧ emitInitial ⟨[ticketsReordered]⟩ = .ok stmts' ∧
      run (fun _ _ => false) stmts' Catalog.empty = .ok c' ∧ c = c' := by
  obtain ⟨stmts, hemit, c, hrun, stmts', hemit', c', hrun'⟩ :
      ∃ stmts, emitInitial ⟨[tickets "" true ["line", "place"]]⟩ = .ok stmts ∧
      ∃ c, run (fun _ _ => false) stmts Catalog.empty = .ok c ∧ ∃ stmts', emitInitial ⟨[ticketsReordered]⟩ = .ok stmts' ∧
      ∃ c', run (fun _ _ => false) stmts' Catalog.empty = .ok c' := by
    decide +kernel
  refine ⟨stmts, stmts', c, c', hemit, hrun, hemit', hrun', ?_⟩
  have hunseen : Unseen (tickets "" true ["line", "place"]) ticketsReordered :=
    ⟨rfl, rfl, rfl, rfl, rfl, rfl, by decide +kernel, by decide +kernel, nofun⟩
  have hapart : NamesApart ⟨[tickets "" true ["line", "place"]]⟩ :=
    ⟨by decide +kernel, by decide +kernel, by decide +kernel⟩
  have hsilent : Silent ⟨[tickets "" true ["line", "place"]]⟩ ⟨[ticketsReordered]⟩
      (ComputeDiff {} insertionOrder ⟨[tickets "" true ["line", "place"]]⟩ ⟨[ticketsReordered]⟩) := by decide +kernel
  have hids : ([tickets "" true ["line", "place"]].map Entity.id) = [ticketsReordered].map Entity.id := by decide +kernel
  refine catalog_eq_of_silent (by decide +kernel) (by decide +kernel) (fun id => ?_) ?_ hapart hsilent hemit hrun
    hemit' hrun'
  · rw [hids]
  intro a ha b hb _
  rw [List.mem_singleton.mp ha, List.mem_singleton.mp hb]
  exact hunseen

end Atlantis.Codegen
