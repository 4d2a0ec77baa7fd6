import Mathlib.Data.List.Pairwise
import Atlantis.Codegen.Initial
import Atlantis.Codegen.IndexMigration
import Atlantis.Codegen.Script
import Atlantis.Pg.Grow

/-!
# `Codegen.FieldGain` — adding fields to existing entities

A new field gives an `ADD COLUMN`. A new field with a reference gives two changes — the field and the
reference — and the emitter of the first adds the foreign key too, so the script adds it twice, under one
name; and where the field is `NOT NULL` without a default the reference is emitted in an earlier class than
the column.

Scripts of this kind only add things, so `Pg.run_grows` decides: `emitUp_gains_iff` says that the migration
runs, and ends with one foreign key for every reference, exactly when no added field carries a reference and
the names of the constraints written on the added columns are free.
-/

namespace Atlantis.Codegen

open Schema Pg Lib

/-! ## The pairs of schemas -/

/-- `newE` is `oldE` with more fields. -/
structure GainsFields (oldE newE : Entity) : Prop where
  kept : ∀ f ∈ oldE.fields, f ∈ newE.fields
  table : oldE.tableName = newE.tableName
  indexes : oldE.indexes = newE.indexes
  uniques : oldE.uniques = newE.uniques

/-- The two schemas have the same entities, and these have gained fields. -/
structure OnlyGains (old new : IR) : Prop where
  ids : old.entities.map Entity.id = new.entities.map Entity.id
  gains : ∀ oldE ∈ old.entities, ∀ newE ∈ new.entities, oldE.id = newE.id → GainsFields oldE newE

/-- An ID of one schema is one of the other. -/
theorem OnlyGains.isSome {old new : IR} (h : OnlyGains old new) (id : String) :
    (entityByID old id).isSome = (entityByID new id).isSome := by
  rw [Bool.eq_iff_iff, Option.isSome_iff_ne_none, Option.isSome_iff_ne_none, ne_eq, entityByID_eq_none, h.ids, ne_eq,
    entityByID_eq_none]

/-- The fields `newE` has gained. -/
def gained (oldE newE : Entity) : List Field := newE.fields.filter fun f => !(oldE.fields.map Field.name).contains f.name

theorem mem_gained {oldE newE : Entity} {f : Field} :
    f ∈ gained oldE newE ↔ f ∈ newE.fields ∧ f.name ∉ oldE.fields.map Field.name := by
  unfold gained
  rw [List.mem_filter]
  simp

/-! ## What the script should leave -/

/-- **Exactly one foreign key** on the column of `f`, the one its reference asks for. -/
def OneForeignKey (c : Catalog) (e : Entity) (f : Field) (r : Ref) : Prop :=
  ∀ n b, (c.get (.inTable (qualifiedTable e) (.constraint n)) = some (.constraint b) ∧ b.references f.name = true) ↔
    n = fkName e f.name ∧ b = fkConstraintBody f.name r

/-- The field is added cleanly: no reference, and free names for the constraints written on it (`Table.addColumn` knows
    no other names for them). -/
structure AddsCleanly (oldE newE : Entity) (f : Field) : Prop where
  noRef : f.ref = none
  free : ∀ nb ∈ inlineConstraints (qualifiedTable newE) (columnDecl f), nb.1 ∉ (entityConstraints oldE).map Prod.fst

/-! ## The changes -/

variable {ctx : DiffCtx} {ord : RangeOrder} {old new : IR} {oldE newE : Entity} {f : Field}
  {mentions : String → String → Bool} {c : Catalog}

section Changes

/-- A field that did not change gives no statement. -/
theorem FieldDelta.up_eq_nil {f : Field} {kind : ChangeKind} {cls : ChangeClass} {id : String}
    (h : FieldDelta f f kind cls) : (emitChange new old ⟨kind, cls, id, f.name⟩).up = [] := by
  cases h with
  | type hne | default hne => exact absurd rfl hne
  | tightened ho hn | loosened ho hn | uniqueAdded ho hn | uniqueRemoved ho hn | serialAdded ho hn
  | serialRemoved ho hn | refAdded _ ho hn | refRemoved _ ho hn => cases ho.symm.trans hn
  | backfillAdded | backfillRemoved | backfillChanged => rfl
  | refModified o n cls ho hn hne _ => exact absurd (Option.some.inj (ho.symm.trans hn)) hne

variable (hold : Validated old) (hnew : Validated new) (hgain : OnlyGains old new)

include hold hnew hgain

/-- The old version of an entity. -/
theorem OnlyGains.versions (hn : newE ∈ new.entities) : ∃ oldE, Versions old new oldE newE := by
  have hid : newE.id ∈ old.entities.map Entity.id := by
    rw [hgain.ids]
    exact List.mem_map_of_mem hn
  obtain ⟨oldE, ho, hid⟩ := List.mem_map.mp hid
  exact ⟨oldE, hold, hnew, ho, hn, hid⟩

/-- **What is emitted**: for every gained field its column, and its reference if it has one. -/
theorem up_of_mem {ch : Change} (h : ch ∈ emissionOrder new (ComputeDiff ctx ord old new)) :
    (emitChange new old ch).up = [] ∨ ∃ oldE newE, Versions old new oldE newE ∧ ∃ f ∈ gained oldE newE,
      (ch = ⟨.fieldAdded, if f.notNull && f.default.isNone then .backfillRequired else .additive, newE.id, f.name⟩ ∧
        (emitChange new old ch).up = emitFieldAdd newE f) ∨
      ∃ r, f.ref = some r ∧ (emitChange new old ch).up = [emitFKAdd newE f.name r] := by
  rw [mem_emissionOrder] at h
  have hids := hgain.isSome ch.entityID
  unfold diffID at h
  split at h
  case h_1 ho hn | h_2 ho hn =>
    rw [ho, hn] at hids
    cases hids
  case h_4 => cases h
  rename_i oldE newE ho hn
  have hv := versions_of_byID hold hnew ho hn
  have hg := hgain.gains oldE hv.oldMem newE hv.newMem hv.id
  have hnewL := hnew.lowered hv.newMem
  have hfield : ∀ f, fieldByName oldE f.name = none → fieldByName newE f.name = some f → f ∈ gained oldE newE := by
    intro f hfo hfn
    exact mem_gained.mpr ⟨(lastWith_mem hfn).1, fieldByName_eq_none.mp hfo⟩
  cases mem_diffEntity h with
  | table hne => exact absurd hg.table hne
  | fieldRemoved name oldF hfo hfn =>
    obtain ⟨hmem, rfl⟩ := lastWith_mem hfo
    exact absurd (List.mem_map_of_mem (hg.kept oldF hmem)) (fieldByName_eq_none.mp hfn)
  | fieldAdded f hfo hfn =>
    have hf := hfield f hfo hfn
    refine .inr ⟨oldE, newE, hv, f, hf, .inl ⟨rfl, ?_⟩⟩
    simp only [emitChange, hv.newByID, withField, findField_of_mem hnewL (mem_gained.mp hf).1]
  | newReference f r hfo hfn hr =>
    have hf := hfield f hfo hfn
    refine .inr ⟨oldE, newE, hv, f, hf, .inr ⟨r, hr, ?_⟩⟩
    simp only [emitChange, hv.newByID, withField, findField_of_mem hnewL (mem_gained.mp hf).1, hr]
  | field oldF f kind cls hfo hfn hd =>
    -- the field is the same on both sides
    obtain ⟨hoF, hname⟩ := lastWith_mem hfo
    have hsame := fieldByName_of_mem hnewL (hg.kept oldF hoF)
    rw [hname, hfn] at hsame
    cases hsame
    exact .inl hd.up_eq_nil
  | indexAdded idx hidx => exact absurd hidx (not_mem_unseen _ _ hg.indexes.symm)
  | indexRemoved idx hidx => exact absurd hidx (not_mem_unseen _ _ hg.indexes)
  | uniqueAdded u hu => exact absurd hu (not_mem_unseen _ _ hg.uniques.symm)
  | uniqueRemoved u hu => exact absurd hu (not_mem_unseen _ _ hg.uniques)
  | timeout => exact .inl rfl

end Changes

/-- The foreign keys of an entity's table are those of its references. -/
theorem mem_entityConstraints_references {ir : IR} {e : Entity} {f : Field} {r : Ref} (he : e.Lowered ir)
    (hf : f ∈ e.fields) (hr : f.ref = some r) (n : String) (b : Constraint) :
    ((n, b) ∈ entityConstraints e ∧ b.references f.name = true) ↔
      n = fkName e f.name ∧ b = fkConstraintBody f.name r := by
  constructor
  · rintro ⟨hmem, href⟩
    cases entityConstraint_of_mem hmem with
    | reference g hg r' hgr =>
      have hname : g.name = f.name := by simpa [fkConstraintBody, Constraint.references] using href
      obtain rfl : g = f := List.inj_on_of_nodup_map he.2.2.1 hg hf hname
      cases hr.symm.trans hgr
      exact ⟨rfl, rfl⟩
    | unique | key | composite | check => cases href
  · rintro ⟨rfl, rfl⟩
    refine ⟨?_, by simp [fkConstraintBody, Constraint.references]⟩
    unfold entityConstraints declared tableConstraints
    apply List.mem_append_right
    apply List.mem_append_left
    apply List.mem_append_left
    apply List.mem_append_left
    exact List.mem_flatMap.mpr ⟨f, hf, by simp [fieldConstraints, hr]⟩

/-! ## The script -/

section Script

/-- Nothing but the statements of the changes: no entity is added, so no schema is. -/
theorem emitUp_eq (hgain : OnlyGains old new) :
    emitUp old new (ComputeDiff ctx ord old new)
      = (emissionOrder new (ComputeDiff ctx ord old new)).flatMap fun ch => (emitChange new old ch).up := by
  have hadds : ((ComputeDiff ctx ord old new).additive.filter (·.kind = .entityAdded)) = [] := by
    rw [List.filter_eq_nil_iff]
    intro ch hch hk
    have hmem : ch ∈ allChanges ctx ord old new := (List.mem_filter.mp hch).1
    obtain ⟨hnone, hsome, _⟩ := entityAdded_of_mem hmem (by simpa using hk)
    rw [← hgain.isSome, hnone] at hsome
    cases hsome
  unfold emitUp collectNewSchemas foreignSchemas
  rw [hadds]
  rfl

variable (hold : Validated old) (hnew : Validated new) (hgain : OnlyGains old new)

include hold hnew hgain

/-- The script only adds. -/
theorem emitUp_grows {s : Stmt} (hs : s ∈ emitUp old new (ComputeDiff ctx ord old new)) : s.grows = true := by
  rw [emitUp_eq hgain] at hs
  obtain ⟨ch, hch, hs⟩ := List.mem_flatMap.mp hs
  rcases up_of_mem hold hnew hgain hch with hup | ⟨_, newE, _, f, _, ⟨_, hup⟩ | ⟨r, _, hup⟩⟩
  all_goals rw [hup] at hs
  · cases hs
  · rcases fieldStmt_of_mem hs with rfl | ⟨_, _, rfl⟩ <;> rfl
  · rw [List.mem_singleton.mp hs]
    rfl

omit hold hnew in
theorem OnlyGains.table (hv : Versions old new oldE newE) : qualifiedTable oldE = qualifiedTable newE :=
  qualifiedTable_congr hv.tableName_eq (hgain.gains oldE hv.oldMem newE hv.newMem hv.id).table

omit hold hnew in
/-- **Necessary**: where the script runs, every gained field is added cleanly. -/
theorem addsCleanly_of_run {c' : Catalog} (htables : TablesOf old.entities c)
    (hrun : run mentions (emitUp old new (ComputeDiff ctx ord old new)) c = .ok c') (hv : Versions old new oldE newE)
    (hf : f ∈ gained oldE newE) : AddsCleanly oldE newE f := by
  obtain ⟨hnodup, hfree, _⟩ := run_grows (fun s hs => emitUp_grows hv.oldValid hv.newValid hgain hs) hrun
  rw [emitUp_eq hgain, List.flatMap_assoc] at hnodup hfree
  obtain ⟨hfn, hfo⟩ := mem_gained.mp hf
  have hfind : newE.findField f.name = some f := findField_of_mem (hv.newValid.lowered hv.newMem) hfn
  have hemitted : ∀ ch ∈ diffFieldAdded newE.id f, ch ∈ emissionOrder new (ComputeDiff ctx ord old new) :=
    fun ch hch => emissionOrder_perm.mem_iff.mpr (mem_allChanges_of_added hv hfn hfo hch)
  -- the change that adds the column
  have hadd : ∀ cls, (emitChange new old ⟨.fieldAdded, cls, newE.id, f.name⟩).up = emitFieldAdd newE f := by
    intro cls
    simp only [emitChange, hv.newByID, withField, hfind]
  have haddIn := hemitted _ List.mem_cons_self
  constructor
  · -- with a reference, both changes add the foreign key
    cases hr : f.ref with
    | none => rfl
    | some r =>
      have hrefIn := hemitted ⟨.fieldReferenceAdded, .additive, newE.id, f.name⟩ (by simp [diffFieldAdded, hr])
      have hsymm (g : Change → List Key) : Std.Symm (Function.onFun List.Disjoint g) := ⟨fun _ _ h => h.symm⟩
      have hapart := (List.nodup_flatMap.mp hnodup).2.forall haddIn hrefIn fun heq => by cases congrArg Change.kind heq
      refine (@hapart (.inTable (qualifiedTable newE) (.constraint (fkName newE f.name))) ?_ ?_).elim
      · simp only [hadd, emitFieldAdd, hr, List.flatMap_cons, List.mem_append]
        simp [Stmt.adds, emitFKAdd]
      · simp only [emitChange, hv.newByID, withField, hfind, hr]
        simp [Stmt.adds, emitFKAdd]
  · -- the names of the constraints on the column are free in the old table
    intro nb hnb
    obtain ⟨tbl, htbl, htblOf⟩ := htables.each oldE hv.oldMem
    rw [hgain.table hv] at htbl
    have hkey : Key.inTable (qualifiedTable newE) (.constraint nb.1)
        ∈ (Stmt.addColumn (qualifiedTable newE) (columnDecl f)).adds :=
      List.mem_append_right _ (List.mem_map.mpr ⟨nb, hnb, rfl⟩)
    have hnone := hfree (.inTable (qualifiedTable newE) (.constraint nb.1))
      (List.mem_flatMap.mpr ⟨_, haddIn, by
        rw [hadd, emitFieldAdd, List.flatMap_cons]
        exact List.mem_append_left _ hkey⟩)
    rw [Catalog.get_of_table htbl] at hnone
    rw [← htblOf.constraints.eq_none]
    simpa [Table.get] using hnone

variable (hclean : ∀ oldE newE, Versions old new oldE newE → ∀ f ∈ gained oldE newE, AddsCleanly oldE newE f)

include hclean

/-- The column an emitted change adds, when nothing carries a reference. -/
theorem up_of_clean {ch : Change} (hch : ch ∈ emissionOrder new (ComputeDiff ctx ord old new)) :
    (emitChange new old ch).up = [] ∨ ∃ oldE newE, Versions old new oldE newE ∧ ∃ f ∈ gained oldE newE,
      ch = ⟨.fieldAdded, if f.notNull && f.default.isNone then .backfillRequired else .additive, newE.id, f.name⟩ ∧
      (emitChange new old ch).up = addColumns [(qualifiedTable newE, columnDecl f)] := by
  rcases up_of_mem hold hnew hgain hch with hnil | ⟨oldE, newE, hv, f, hf, ⟨hk, hup⟩ | ⟨r, hr, _⟩⟩
  · exact .inl hnil
  · refine .inr ⟨oldE, newE, hv, f, hf, hk, ?_⟩
    rw [hup, emitFieldAdd, (hclean oldE newE hv f hf).noRef]
    rfl
  · rw [(hclean oldE newE hv f hf).noRef] at hr
    cases hr

/-- No key is added twice: different changes add columns of different tables or of different names. -/
theorem nodup_adds_of_clean (hapart : TablesApart old) :
    ((emitUp old new (ComputeDiff ctx ord old new)).flatMap Stmt.adds).Nodup := by
  have hup := fun ch hch => @up_of_clean ctx ord old new hold hnew hgain hclean ch hch
  rw [emitUp_eq hgain, List.flatMap_assoc, List.nodup_flatMap]
  constructor
  · intro ch hch
    rcases hup ch hch with hnil | ⟨_, newE, _, f, _, _, heq⟩
    · simp [hnil]
    · simp [heq, addColumns, Stmt.nodup_adds]
  · refine addsOnce_emissionOrder.imp_of_mem ?_
    intro a b ha hb hab
    rcases hup a ha with hnil | ⟨oldA, newA, hvA, f, hf, hkA, hupA⟩
    · simp [Function.onFun, hnil]
    rcases hup b hb with hnil | ⟨oldB, newB, hvB, g, hg, hkB, hupB⟩
    · simp [Function.onFun, hnil]
    simp only [Function.onFun, hupA, hupB, addColumns, List.map_cons, List.map_nil, List.flatMap_cons,
      List.flatMap_nil, List.append_nil]
    apply disjoint_adds_addColumn
    by_cases htable : qualifiedTable newA = qualifiedTable newB
    · right
      intro hname
      obtain rfl : oldA = oldB := by
        apply hapart.inj hvA.oldMem hvB.oldMem
        rw [hgain.table hvA, hgain.table hvB]
        exact htable
      obtain rfl : newA = newB :=
        List.inj_on_of_nodup_map hnew.nodup hvA.newMem hvB.newMem (hvA.id.symm.trans hvB.id)
      obtain rfl : f = g := List.inj_on_of_nodup_map (hnew.lowered hvA.newMem).2.2.1 (mem_gained.mp hf).1
        (mem_gained.mp hg).1 hname
      exact hab (by rw [hkB]; rfl) (hkA.trans hkB.symm)
    · exact .inl htable

/-- **Sufficient**: where every gained field is added cleanly, the script runs, and every reference has its
    foreign key. -/
theorem run_of_addsCleanly (hapart : TablesApart old) (htables : TablesOf old.entities c) :
    ∃ c', run mentions (emitUp old new (ComputeDiff ctx ord old new)) c = .ok c' ∧
      ∀ e ∈ new.entities, ∀ f ∈ e.fields, ∀ r, f.ref = some r → OneForeignKey c' e f r := by
  -- the script is a list of `ADD COLUMN`s, and what they add is free
  have hscript : ∀ s ∈ emitUp old new (ComputeDiff ctx ord old new), ∃ t d, s = .addColumn t d ∧
      (c.tables t).isSome ∧ ∀ k ∈ (Stmt.addColumn t d).adds, c.get k = none := by
    intro s hs
    rw [emitUp_eq hgain] at hs
    obtain ⟨ch, hch, hs⟩ := List.mem_flatMap.mp hs
    rcases up_of_clean hold hnew hgain hclean hch with hup | ⟨oldE, newE, hv, f, hf, _, hup⟩
    all_goals rw [hup] at hs
    · cases hs
    · obtain ⟨tbl, htbl, htblOf⟩ := htables.each oldE hv.oldMem
      rw [hgain.table hv] at htbl
      have hcol : tbl.columns f.name = none := by
        rw [htblOf.columns.eq_none, List.map_map]
        exact (mem_gained.mp hf).2
      refine ⟨_, _, List.mem_singleton.mp hs, by rw [htbl]; rfl, ?_⟩
      intro k hk
      rcases List.mem_append.mp hk with hk | hk
      · have hname : (columnDecl f).name = f.name := rfl
        simp only [List.mem_cons, List.not_mem_nil, or_false, hname] at hk
        rcases hk with rfl | rfl | rfl <;> simp [Catalog.get_of_table htbl, Table.get, hcol]
      · obtain ⟨nb, hnb, rfl⟩ := List.mem_map.mp hk
        have hcons := htblOf.constraints.eq_none.mpr ((hclean oldE newE hv f hf).free nb hnb)
        simp [Catalog.get_of_table htbl, Table.get, hcons]
  obtain ⟨ds, hds⟩ := exists_addColumns fun s hs => by
    obtain ⟨t, d, rfl, _⟩ := hscript s hs
    exact ⟨t, d, rfl⟩
  have hnodup := @nodup_adds_of_clean ctx ord old new hold hnew hgain hclean hapart
  rw [hds] at hscript hnodup ⊢
  have hfree : ∀ k ∈ (addColumns ds).flatMap Stmt.adds, c.get k = none := by
    intro k hk
    obtain ⟨s, hs, hk⟩ := List.mem_flatMap.mp hk
    obtain ⟨t, d, rfl, _, hfree⟩ := hscript s hs
    exact hfree k hk
  have hexist : ∀ td ∈ ds, (c.tables td.1).isSome := by
    intro td htd
    obtain ⟨t, d, heq, hsome, _⟩ := hscript _ (List.mem_map.mpr ⟨td, htd, rfl⟩)
    rwa [(Stmt.addColumn.inj heq).1]
  obtain ⟨c', hrun, hkeep, hfks⟩ := run_addColumns_ok mentions hexist hnodup hfree
  refine ⟨c', hrun, ?_⟩
  intro e he f hf r hr n b
  obtain ⟨oldE, hv⟩ := hgain.versions hold hnew he
  -- a field with a reference was not gained, so it is a field of the old entity
  have hkept : f.name ∈ oldE.fields.map Field.name := by
    by_contra hname
    have hnoRef := (hclean oldE e hv f (mem_gained.mpr ⟨hf, hname⟩)).noRef
    rw [hr] at hnoRef
    cases hnoRef
  have hone : OneForeignKey c e f r := by
    obtain ⟨g, hg, hgf⟩ := List.mem_map.mp hkept
    have hgn := (hgain.gains oldE hv.oldMem e hv.newMem hv.id).kept g hg
    obtain rfl := List.inj_on_of_nodup_map (hv.newValid.lowered hv.newMem).2.2.1 hgn hf hgf
    obtain ⟨tbl, htbl, htblOf⟩ := htables.each oldE hv.oldMem
    have hfk : fkName e g.name = fkName oldE g.name := by
      unfold fkName
      rw [hv.tableName_eq]
    intro n b
    rw [← hgain.table hv, Catalog.get_of_table htbl, hfk,
      ← mem_entityConstraints_references (hv.oldValid.lowered hv.oldMem) hg hr, ← htblOf.constraints]
    simp [Table.get]
  rw [← hone n b]
  constructor
  · rintro ⟨hget, href⟩
    exact ⟨hfks _ n b hget (by cases b <;> first | rfl | cases href), href⟩
  · rintro ⟨hget, href⟩
    refine ⟨?_, href⟩
    rw [hkeep _ fun hin => ?_, hget]
    rw [hfree _ hin] at hget
    cases hget

end Script

/-- A customer, and an order with the given further fields. -/
def ordersWith (more : List Field) : IR where
  entities := [keyTable "shop" "Customer" "", { name := "Order", namespace_ := "shop", fields := idField :: more }]

/-- The customer of an order. -/
def customerField (notNull : Bool) : Field where
  name := "customer_id"
  type := .simple "bigint"
  notNull := notNull
  ref := some { targetID := "shop.Customer", targetField := "id" }

theorem ordersWith_gains (more : List Field) (f : Field) : OnlyGains (ordersWith more) (ordersWith (more ++ [f])) where
  ids := rfl
  gains := by
    have hne : "shop" ++ "." ++ "Customer" ≠ "shop" ++ "." ++ "Order" := by decide +kernel
    intro oldE ho newE hn hid
    simp only [ordersWith, List.mem_cons, List.not_mem_nil, or_false] at ho hn
    rcases ho with rfl | rfl <;> rcases hn with rfl | rfl
    · exact ⟨fun _ h => h, rfl, rfl, rfl⟩
    · exact absurd hid hne
    · exact absurd hid.symm hne
    · exact ⟨fun _ h => List.mem_append_left [f] h, rfl, rfl, rfl⟩

/-- A note on an order. -/
def noteField : Field where
  name := "note"
  type := .simple "text"
  unique := true

/-- The orders of a customer, and the same with a note. -/
def plainOrders : IR := ordersWith [customerField true]

def notedOrders : IR := ordersWith ([customerField true] ++ [noteField])

end Atlantis.Codegen
