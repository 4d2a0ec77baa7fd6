import Atlantis.Codegen.TopoSort

/-!
# `Codegen.Script` — which statements an up script is made of

Every statement of an up script comes from one change of the diff, and says what the change is about: `UpStmt` lists
the statements with what the two schemas have to say about each. Invariants of a migration are proved by cases on it.

A validated reference has its target in the same schema, under the table the foreign key names (`exists_target`).
-/

namespace Atlantis.Codegen

open Schema Pg

/-! ## References -/

/-- **A validated reference has its target**, in the table its foreign key names. -/
theorem exists_target {ir : IR} {e : Entity} {f : Field} {r : Ref} (h : Validated ir) (he : e ∈ ir.entities)
    (hf : f ∈ e.fields) (hr : f.ref = some r) :
    ∃ target ∈ ir.entities, target.id = r.targetID ∧ qualifiedTable target = fkTargetRef r ∧
      ∃ tf ∈ target.fields, tf.name = r.targetField := by
  have hnil := (h.checks he).2.2.2.2 f hf
  have hthread := ((h.lowered he).2.2.2.1 f hf).2 r hr
  unfold validateRef at hnil
  rw [hr] at hnil
  dsimp only at hnil
  cases htarget : ir.find r.targetID with
  | none => simp [htarget] at hnil
  | some target =>
    rw [htarget] at hnil hthread
    dsimp only at hnil
    have hmem := List.mem_of_find?_eq_some htarget
    have hid : target.id = r.targetID := by simpa using List.find?_some htarget
    refine ⟨target, hmem, hid, ?_, ?_⟩
    · have hname : r.targetTableName = target.tableName := hthread
      unfold qualifiedTable fkTargetRef entitySchema entityPhysicalTable
      rw [hname]
      by_cases hover : target.tableName = ""
      · simp only [hover, ne_eq, not_true_eq_false, if_false]
        rw [← hid, tableNameFromID, Entity.id, cutDot_append (dot_not_mem_of_isIdent (h.lowered hmem).1)]
        rfl
      · simp only [hover, ne_eq, not_false_eq_true, if_true]
        cases cutDot target.tableName <;> rfl
    · cases hfield : target.findField r.targetField with
      | none => simp [hfield] at hnil
      | some tf => exact exists_field_of_findField_isSome (by rw [hfield]; rfl)

/-! ## Unique constraints -/

variable {oldE newE : Entity} {n : String} {cols : List String}

/-- The unique constraints a migration adds, under the names it gives them. -/
def gainedUniques (oldE newE : Entity) : List (String × List String) :=
  (newE.fields.filter fun f => f.unique && (fieldByName oldE f.name).isNone).map
      (fun f => (inlineUniqueName (qualifiedTable newE) f.name, [f.name]))
    ++ (newE.fields.filter fun f => f.unique && (fieldByName oldE f.name).any (!·.unique)).map
      (fun f => (uqName newE f.name, [f.name]))
    ++ (newE.uniques.filter fun u => !oldE.uniques.any fun u' => decide (sameColumns u' u)).map
      fun u => (compositeUniqueName newE u.fields, u.fields)

/-- The unique constraints a migration means to drop, under the names it drops. -/
def lostUniques (oldE newE : Entity) : List (String × List String) :=
  (newE.fields.filter fun f => !f.unique && (fieldByName oldE f.name).any (·.unique)).map
      (fun f => (uqName newE f.name, [f.name]))
    ++ (oldE.uniques.filter fun u => !newE.uniques.any fun u' => decide (sameColumns u' u)).map
      fun u => (compositeUniqueName newE u.fields, u.fields)

theorem mem_gainedUniques :
    (n, cols) ∈ gainedUniques oldE newE ↔
    (∃ f ∈ newE.fields, f.unique = true ∧ fieldByName oldE f.name = none ∧
      inlineUniqueName (qualifiedTable newE) f.name = n ∧ [f.name] = cols) ∨
    (∃ f ∈ newE.fields, f.unique = true ∧ (∃ g, fieldByName oldE f.name = some g ∧ g.unique = false) ∧
      uqName newE f.name = n ∧ [f.name] = cols) ∨
    ∃ u ∈ newE.uniques, (∀ u' ∈ oldE.uniques, ¬ sameColumns u' u) ∧ compositeUniqueName newE u.fields = n ∧
      u.fields = cols := by
  unfold gainedUniques
  simp [and_assoc, Option.any_eq_true]

theorem mem_lostUniques :
    (n, cols) ∈ lostUniques oldE newE ↔
    (∃ f ∈ newE.fields, f.unique = false ∧ (∃ g, fieldByName oldE f.name = some g ∧ g.unique = true) ∧
      uqName newE f.name = n ∧ [f.name] = cols) ∨
    ∃ u ∈ oldE.uniques, (∀ u' ∈ newE.uniques, ¬ sameColumns u' u) ∧ compositeUniqueName newE u.fields = n ∧
      u.fields = cols := by
  unfold lostUniques
  simp [and_assoc, Option.any_eq_true]

/-! ## Statements -/

/-- **The statements of an up script**, with the change each one comes from. -/
inductive UpStmt (old new : IR) (ch : Change) : Stmt → Prop where
  | create : ∀ e s, entityByID old ch.entityID = none → entityByID new ch.entityID = some e →
      ch = ⟨.entityAdded, .additive, ch.entityID, ""⟩ → s ∈ emitEntityCreate e → UpStmt old new ch s
  | drop : ∀ e s, entityByID old ch.entityID = some e → entityByID new ch.entityID = none → s ∈ emitEntityDrop e →
      UpStmt old new ch s
  | addColumn : ∀ oldE newE f, Versions old new oldE newE → newE.id = ch.entityID → f ∈ newE.fields →
      f.name ∉ oldE.fields.map Field.name → ch.kind = .fieldAdded → ch.field = f.name →
      UpStmt old new ch (.addColumn (qualifiedTable newE) (columnDecl f))
  | addForeignKey : ∀ oldE newE f r, Versions old new oldE newE → newE.id = ch.entityID → f ∈ newE.fields →
      f.ref = some r → (f.name ∈ oldE.fields.map Field.name → ch.cls = .additive →
        ∃ oldF ∈ oldE.fields, ∃ o, oldF.ref = some o ∧ o.targetID = r.targetID) →
      UpStmt old new ch (emitFKAdd newE f.name r)
  | dropColumn : ∀ oldE newE f, Versions old new oldE newE → newE.id = ch.entityID → f ∈ oldE.fields →
      f.name ∉ newE.fields.map Field.name → UpStmt old new ch (.dropColumn (qualifiedTable oldE) f.name)
  | tighten : ∀ oldE newE f, Versions old new oldE newE → newE.id = ch.entityID → f ∈ newE.fields →
      f.name ∈ oldE.fields.map Field.name → f.notNull = true → ch.kind = .fieldNotNullTightened → ch.field = f.name →
      UpStmt old new ch (emitNotNull newE f.name true)
  | loosen : ∀ oldE newE f, Versions old new oldE newE → newE.id = ch.entityID → f ∈ newE.fields →
      f.notNull = false → UpStmt old new ch (emitNotNull newE f.name false)
  | setType : ∀ oldE newE n type, Versions old new oldE newE → newE.id = ch.entityID →
      UpStmt old new ch (.setType (qualifiedTable newE) n type)
  | setDefault : ∀ oldE newE n d, Versions old new oldE newE → newE.id = ch.entityID →
      UpStmt old new ch (.setDefault (qualifiedTable newE) n d)
  | addUnique : ∀ oldE newE n cols, Versions old new oldE newE → newE.id = ch.entityID →
      (n, cols) ∈ gainedUniques oldE newE → UpStmt old new ch (.addConstraint (qualifiedTable newE) n (.unique cols))
  | dropUnique : ∀ oldE newE x, Versions old new oldE newE → newE.id = ch.entityID → x ∈ lostUniques oldE newE →
      UpStmt old new ch (.dropConstraint (qualifiedTable newE) x.1)
  | dropForeignKey : ∀ oldE newE name, Versions old new oldE newE → newE.id = ch.entityID →
      UpStmt old new ch (emitFKDrop oldE name)
  | createIndex : ∀ oldE newE idx, Versions old new oldE newE → newE.id = ch.entityID → idx ∈ newE.indexes →
      UpStmt old new ch (emitIndexCreate newE idx)
  | dropIndex : ∀ oldE newE idx, Versions old new oldE newE → newE.id = ch.entityID → idx ∈ oldE.indexes →
      UpStmt old new ch (emitIndexDrop newE idx)

variable {ctx : DiffCtx} {ord : RangeOrder} {old new : IR} {oldE newE : Entity} {ch : Change}

theorem mem_of_fieldByName {e : Entity} {f : Field} {name : String} (h : fieldByName e name = some f) :
    f ∈ e.fields ∧ f.name = name := lastWith_mem h

/-- The statements of a change to a field that stays. -/
theorem FieldDelta.upStmt {oldF newF : Field} {kind : ChangeKind} {cls : ChangeClass} {s : Stmt}
    (hv : Versions old new oldE newE) (ho : fieldByName oldE newF.name = some oldF)
    (hn : fieldByName newE newF.name = some newF)
    (hd : FieldDelta oldF newF kind cls) (hs : s ∈ (emitChange new old ⟨kind, cls, newE.id, newF.name⟩).up) :
    UpStmt old new ⟨kind, cls, newE.id, newF.name⟩ s := by
  obtain ⟨hnf, -⟩ := mem_of_fieldByName hn
  obtain ⟨hof, hname⟩ := mem_of_fieldByName ho
  have hstays : newF.name ∈ oldE.fields.map Field.name := hname ▸ List.mem_map_of_mem hof
  have hnewFind := findField_of_mem (hv.newValid.lowered hv.newMem) hnf
  have holdFind := findField_of_mem (hv.oldValid.lowered hv.oldMem) hof
  rw [hname] at holdFind
  -- the lookups of `emitChange` find the two versions of the field
  simp only [emitChange, hv.newByID, hv.oldByID, withEntity, withField, hnewFind, holdFind] at hs
  cases hd with
  | type hne =>
    rw [List.mem_singleton.mp hs]
    exact .setType oldE newE _ _ hv rfl
  | tightened _ hnotNull =>
    rw [List.mem_singleton.mp hs]
    exact .tighten oldE newE newF hv rfl hnf hstays hnotNull rfl rfl
  | loosened _ hnotNull =>
    rw [List.mem_singleton.mp hs]
    exact .loosen oldE newE newF hv rfl hnf hnotNull
  | uniqueAdded hou hnu =>
    rw [List.mem_singleton.mp hs]
    exact .addUnique oldE newE _ _ hv rfl
      (mem_gainedUniques.mpr (.inr (.inl ⟨newF, hnf, hnu, ⟨oldF, ho, hou⟩, rfl, rfl⟩)))
  | uniqueRemoved hou hnu =>
    rw [List.mem_singleton.mp hs]
    exact .dropUnique oldE newE (uqName newE newF.name, [newF.name]) hv rfl
      (mem_lostUniques.mpr (.inl ⟨newF, hnf, hnu, ⟨oldF, ho, hou⟩, rfl, rfl⟩))
  | default hne =>
    rw [List.mem_singleton.mp hs]
    exact .setDefault oldE newE _ _ hv rfl
  | backfillAdded | backfillRemoved | backfillChanged | serialAdded _ _ | serialRemoved _ _ => cases hs
  | refAdded r hor hnr =>
    rw [hnr] at hs
    rw [List.mem_singleton.mp hs]
    exact .addForeignKey oldE newE newF r hv rfl hnf hnr fun _ hcls => nomatch hcls
  | refRemoved r hor hnr =>
    rw [hor] at hs
    rw [List.mem_singleton.mp hs]
    exact .dropForeignKey oldE newE _ hv rfl
  | refModified o n cls hor hnr hne htarget =>
    simp only [hor, hnr, List.mem_cons, List.not_mem_nil, or_false] at hs
    rcases hs with rfl | rfl
    · exact .dropForeignKey oldE newE _ hv rfl
    · exact .addForeignKey oldE newE newF n hv rfl hnf hnr fun _ hcls => ⟨oldF, hof, o, hor, htarget hcls⟩

/-- A field that only the new version has gives its changes. -/
theorem mem_allChanges_of_added {f : Field} (hv : Versions old new oldE newE) (hf : f ∈ newE.fields)
    (hnot : f.name ∉ oldE.fields.map Field.name) (hch : ch ∈ diffFieldAdded newE.id f) :
    ch ∈ allChanges ctx ord old new := by
  have hnamed : ch ∈ diffFieldNamed ctx oldE newE f.name := by
    unfold diffFieldNamed
    rw [fieldByName_eq_none.mpr hnot, fieldByName_of_mem (hv.newValid.lowered hv.newMem) hf]
    exact hch
  have hentity : ch ∈ diffEntity ctx ord oldE newE := mem_diffEntity_of_field hnamed
  rw [mem_allChanges, entityID_of_mem_diffEntity hentity]
  unfold diffID
  rw [hv.oldByID, hv.newByID]
  exact hentity

/-- **Every statement of an up script is one of these.** -/
theorem upStmt_of_mem {s : Stmt} (hold : Validated old) (hnew : Validated new) (hch : ch ∈ allChanges ctx ord old new)
    (hs : s ∈ (emitChange new old ch).up) : UpStmt old new ch s := by
  rw [mem_allChanges] at hch
  unfold diffID at hch
  split at hch
  · rename_i oldE ho hn
    refine .drop oldE s ho hn ?_
    rw [List.mem_singleton.mp hch] at hs
    simp only [emitChange, ho, withEntity] at hs
    exact hs
  · rename_i newE ho hn
    have heq := List.mem_singleton.mp hch
    refine .create newE s ho hn heq ?_
    rw [heq] at hs
    simp only [emitChange, hn, withEntity] at hs
    exact hs
  · rename_i oldE newE ho hn
    have hv := versions_of_byID hold hnew ho hn
    have hup := hs
    simp only [emitChange, ho, hn, withEntity, withField, Option.some_or] at hup
    cases mem_diffEntity hch with
    | table hne => cases hs
    | fieldRemoved name oldF hfo hfn =>
      obtain ⟨hof, rfl⟩ := mem_of_fieldByName hfo
      rw [findField_of_mem (hold.lowered hv.oldMem) hof] at hup
      rw [List.mem_singleton.mp hup]
      exact .dropColumn oldE newE oldF hv rfl hof (fieldByName_eq_none.mp hfn)
    | fieldAdded newF hfo hfn =>
      obtain ⟨hnf, -⟩ := mem_of_fieldByName hfn
      have hnot := fieldByName_eq_none.mp hfo
      rw [findField_of_mem (hnew.lowered hv.newMem) hnf] at hup
      rcases fieldStmt_of_mem hup with rfl | ⟨r, hr, rfl⟩
      · exact .addColumn oldE newE newF hv rfl hnf hnot rfl rfl
      · exact .addForeignKey oldE newE newF r hv rfl hnf hr fun h => absurd h hnot
    | newReference newF r hfo hfn hr =>
      obtain ⟨hnf, -⟩ := mem_of_fieldByName hfn
      simp only [findField_of_mem (hnew.lowered hv.newMem) hnf, hr, List.mem_singleton] at hup
      rw [hup]
      exact .addForeignKey oldE newE newF r hv rfl hnf hr fun h => absurd h (fieldByName_eq_none.mp hfo)
    | field oldF newF kind cls hfo hfn hd => exact hd.upStmt hv hfo hfn hs
    | indexAdded idx hidx =>
      rw [List.mem_singleton.mp hup]
      exact .createIndex oldE newE idx hv rfl (lastWith_mem (mem_unseen.mp hidx).1).1
    | indexRemoved idx hidx =>
      rw [List.mem_singleton.mp hup]
      exact .dropIndex oldE newE idx hv rfl (lastWith_mem (mem_unseen.mp hidx).1).1
    | uniqueAdded u hu =>
      obtain ⟨hlast, hnot⟩ := mem_unseen.mp hu
      have hmem := (lastWith_mem hlast).1
      rw [List.mem_singleton.mp hup]
      refine .addUnique oldE newE _ _ hv rfl (mem_gainedUniques.mpr (.inr (.inr ⟨u, hmem, ?_, rfl, rfl⟩)))
      intro u' hu' hsame
      exact hnot u' hu' ((uniqueSpecKey_eq_iff hold hnew hv.oldMem hv.newMem hu' hmem).mpr hsame)
    | uniqueRemoved u hu =>
      obtain ⟨hlast, hnot⟩ := mem_unseen.mp hu
      have hmem := (lastWith_mem hlast).1
      rw [List.mem_singleton.mp hup]
      refine .dropUnique oldE newE (compositeUniqueName newE u.fields, u.fields) hv rfl
        (mem_lostUniques.mpr (.inr ⟨u, hmem, ?_, rfl, rfl⟩))
      intro u' hu' hsame
      exact hnot u' hu' ((uniqueSpecKey_eq_iff hnew hold hv.newMem hv.oldMem hu' hmem).mpr hsame)
    | timeout => cases hs
  · cases hch

end Atlantis.Codegen
