import Atlantis.Codegen.Sql
import Atlantis.Schema.Validate

/-!
# `Codegen.Emission` — which changes a script is made of

The changes of one entity stand together in the diff, in the order `diffEntity` finds them, and emission
keeps them in that order: sorting added entities to the front moves nothing else. What a script does to one
entity can therefore be read off `diffID`.
-/

namespace Atlantis.Codegen

open Schema Pg

/-! ## Maps filled from lists -/

variable {α : Type} {key : α → String} {k : String} {l : List α} {x : α}

theorem lastWith_mem (h : lastWith key k l = some x) : x ∈ l ∧ key x = k := by
  unfold lastWith at h
  have hk := List.find?_some h
  exact ⟨List.mem_reverse.mp (List.mem_of_find?_eq_some h), by simpa using hk⟩

theorem lastWith_eq_none : lastWith key k l = none ↔ ∀ x ∈ l, key x ≠ k := by
  unfold lastWith
  rw [List.find?_eq_none]
  simp

theorem lastWith_eq {o : Option α} (h : ∀ x, o = some x ↔ x ∈ l ∧ key x = k) : lastWith key k l = o := by
  cases hl : lastWith key k l with
  | none =>
    symm
    rw [Option.eq_none_iff_forall_ne_some]
    intro x hx
    exact lastWith_eq_none.mp hl x ((h x).mp hx).1 ((h x).mp hx).2
  | some x => exact ((h x).mpr (lastWith_mem hl)).symm

theorem lastWith_isSome_of_mem (h : x ∈ l) : (lastWith key (key x) l).isSome := by
  cases hl : lastWith key (key x) l with
  | some _ => rfl
  | none => exact absurd rfl (lastWith_eq_none.mp hl x h)

/-- With pairwise different keys, the entry of a key is the element that has it. -/
theorem lastWith_of_nodup (hn : (l.map key).Nodup) (hx : x ∈ l) : lastWith key (key x) l = some x := by
  refine lastWith_eq fun y => ⟨?_, fun hy => ?_⟩
  · rintro ⟨⟩
    exact ⟨hx, rfl⟩
  · rw [List.inj_on_of_nodup_map hn hy.1 hx hy.2]

/-- With one entry for each key the order does not matter. -/
theorem lastWith_perm {l' : List α} (hperm : l.Perm l') (hn : (l.map key).Nodup) :
    lastWith key k l = lastWith key k l' := by
  refine lastWith_eq fun x => ?_
  rw [hperm.mem_iff]
  refine ⟨lastWith_mem, ?_⟩
  rintro ⟨hx, rfl⟩
  exact lastWith_of_nodup ((hperm.map key).nodup_iff.mp hn) hx

theorem mem_mapValues : x ∈ mapValues key l ↔ lastWith key (key x) l = some x := by
  unfold mapValues
  rw [List.mem_filterMap]
  constructor
  · rintro ⟨k, _, hk⟩
    rw [(lastWith_mem hk).2]
    exact hk
  · intro h
    exact ⟨key x, List.mem_dedup.mpr (List.mem_map_of_mem (lastWith_mem h).1), h⟩

theorem mem_of_mem_mapValues (h : x ∈ mapValues key l) : x ∈ l := (lastWith_mem (mem_mapValues.mp h)).1

/-! ## Names and IDs -/

variable {s : Stmt} {ir : IR} {e oldE newE : Entity} {f : Field} {ch : Change} {l' : List α}

theorem mem_sortStrings {l : List String} {s : String} : s ∈ sortStrings l ↔ s ∈ l := by
  unfold sortStrings
  exact List.mem_insertionSort _

theorem nodup_mergedNames (a b : List String) : (mergedNames a b).Nodup := by
  unfold mergedNames sortStrings
  exact (List.perm_insertionSort _ _).nodup_iff.mpr (List.nodup_dedup _)

theorem mem_mergedNames {a b : List String} {s : String} : s ∈ mergedNames a b ↔ s ∈ a ∨ s ∈ b := by
  unfold mergedNames
  rw [mem_sortStrings, List.mem_dedup, List.mem_append]

theorem entityByID_mem {id : String} (h : entityByID ir id = some e) : e ∈ ir.entities ∧ e.id = id := lastWith_mem h

/-- In a validated schema an ID has one entity. -/
theorem entityByID_of_mem (h : Validated ir) (he : e ∈ ir.entities) :
    entityByID ir e.id = some e := lastWith_of_nodup h.nodup he

theorem fieldByName_of_mem (h : e.Lowered ir) (hf : f ∈ e.fields) :
    fieldByName e f.name = some f := lastWith_of_nodup h.2.2.1 hf

theorem entityByID_eq_none {id : String} : entityByID ir id = none ↔ id ∉ ir.entities.map Entity.id := by
  unfold entityByID
  rw [lastWith_eq_none, List.mem_map]
  simp

theorem fieldByName_eq_none {n : String} : fieldByName e n = none ↔ n ∉ e.fields.map Field.name := by
  unfold fieldByName
  rw [lastWith_eq_none, List.mem_map]
  simp

theorem findField_of_mem (h : e.Lowered ir) (hf : f ∈ e.fields) : e.findField f.name = some f := by
  obtain ⟨g, hg⟩ : ∃ g, e.findField f.name = some g := by
    rw [← Option.isSome_iff_exists]
    unfold Entity.findField
    rw [List.find?_isSome]
    exact ⟨f, hf, by simp⟩
  have hname : g.name = f.name := by simpa using List.find?_some hg
  rw [hg, List.inj_on_of_nodup_map h.2.2.1 (List.mem_of_find?_eq_some hg) hf hname]

theorem qualifiedTable_congr (hname : tableName oldE = tableName newE)
    (h : oldE.tableName = newE.tableName) : qualifiedTable oldE = qualifiedTable newE := by
  unfold qualifiedTable entitySchema entityPhysicalTable
  rw [h, hname]

/-! ## Keys of column sets -/

/-- The two specifications list the same columns. -/
def sameColumns (u u' : UniqueSpec) : Prop := u.fields.Perm u'.fields

instance (u u' : UniqueSpec) : Decidable (sameColumns u u') := inferInstanceAs (Decidable (List.Perm _ _))

theorem nul_not_mem_of_isIdent {s : String} (h : isIdent s = true) : '\x00' ∉ s.toList := by
  unfold isIdent at h
  rw [Bool.and_eq_true, List.all_eq_true] at h
  intro hnul
  have hbad := h.2 '\x00' hnul
  revert hbad
  decide

/-- Sorted identifiers joined by a separator that occurs in none of them determine each other. -/
theorem uniqueSpecKey_inj {u u' : UniqueSpec} (hu : ∀ n ∈ u.fields, isIdent n = true)
    (hu' : ∀ n ∈ u'.fields, isIdent n = true) (hne : u.fields ≠ []) (hne' : u'.fields ≠ []) :
    uniqueSpecKey u = uniqueSpecKey u' ↔ sameColumns u u' := by
  have hsort : ∀ l : List String, (sortStrings l).Perm l := fun l => List.perm_insertionSort _ _
  constructor
  · intro hkey
    have hsplit : ∀ v : UniqueSpec, (∀ n ∈ v.fields, isIdent n = true) → v.fields ≠ [] →
        (uniqueSpecKey v).toList.splitOn '\x00' = (sortStrings v.fields).map String.toList := by
      intro v hv hvne
      unfold uniqueSpecKey
      rw [String.toList_intercalate]
      apply List.splitOn_intercalate
      · intro l hl
        obtain ⟨n, hn, rfl⟩ := List.mem_map.mp hl
        exact nul_not_mem_of_isIdent (hv n ((hsort _).mem_iff.mp hn))
      · intro hnil
        rw [List.map_eq_nil_iff] at hnil
        have hperm := hsort v.fields
        rw [hnil] at hperm
        exact hvne hperm.nil_eq.symm
    have hlists : (sortStrings u.fields).map String.toList = (sortStrings u'.fields).map String.toList := by
      rw [← hsplit u hu hne, ← hsplit u' hu' hne', hkey]
    have heq : sortStrings u.fields = sortStrings u'.fields :=
      List.map_injective_iff.mpr (fun _ _ h => String.toList_inj.mp h) hlists
    exact (hsort _).symm.trans (heq ▸ hsort _)
  · intro hperm
    have heq : sortStrings u.fields = sortStrings u'.fields :=
      List.Perm.eq_of_sortedLE List.sortedLE_insertionSort List.sortedLE_insertionSort
        ((hsort _).trans (hperm.trans (hsort _).symm))
    unfold uniqueSpecKey
    rw [heq]

/-- Two composite uniques have one key when they list the same columns. -/
theorem uniqueSpecKey_eq_iff {ir' : IR} {e' : Entity} (h : Validated ir) (h' : Validated ir') (he : e ∈ ir.entities)
    (he' : e' ∈ ir'.entities) {u u' : UniqueSpec} (hu : u ∈ e.uniques) (hu' : u' ∈ e'.uniques) :
    uniqueSpecKey u = uniqueSpecKey u' ↔ sameColumns u u' := by
  have hident : ∀ {ir : IR} {e : Entity} {u : UniqueSpec}, Validated ir → e ∈ ir.entities → u ∈ e.uniques →
      ∀ n ∈ u.fields, isIdent n = true := by
    intro ir e u h he hu n hn
    obtain ⟨f, hf, rfl⟩ := (h.unique_fields he hu).2 n hn
    exact ((h.lowered he).2.2.2.1 f hf).1.1
  exact uniqueSpecKey_inj (hident h he hu) (hident h' he' hu') (h.unique_fields he hu).1 (h'.unique_fields he' hu').1

/-! ## One entity of the diff -/

/-- An entity that both schemas have, and its two versions. -/
structure Versions (old new : IR) (oldE newE : Entity) : Prop where
  oldValid : Validated old
  newValid : Validated new
  oldMem : oldE ∈ old.entities
  newMem : newE ∈ new.entities
  id : oldE.id = newE.id

section Versions

variable {old new : IR} (h : Versions old new oldE newE)

include h

theorem Versions.newByID : entityByID new newE.id = some newE := entityByID_of_mem h.newValid h.newMem

theorem Versions.oldByID : entityByID old newE.id = some oldE := h.id ▸ entityByID_of_mem h.oldValid h.oldMem

theorem Versions.tableName_eq : tableName oldE = tableName newE :=
  tableName_congr (h.oldValid.lowered h.oldMem) (h.newValid.lowered h.newMem) h.id

/-- An ID has one version in each schema. -/
theorem Versions.eq_of_id {oldE' newE' : Entity} (h' : Versions old new oldE' newE') (hid : newE'.id = newE.id) :
    oldE' = oldE ∧ newE' = newE := by
  have hn := h'.newByID
  have ho := h'.oldByID
  rw [hid] at hn ho
  exact ⟨Option.some.inj (ho.symm.trans h.oldByID), Option.some.inj (hn.symm.trans h.newByID)⟩

end Versions

/-- What two validated schemas have under one ID. -/
theorem versions_of_byID {old new : IR} {id : String} (hold : Validated old) (hnew : Validated new)
    (ho : entityByID old id = some oldE) (hn : entityByID new id = some newE) : Versions old new oldE newE :=
  ⟨hold, hnew, (entityByID_mem ho).1, (entityByID_mem hn).1, (entityByID_mem ho).2.trans (entityByID_mem hn).2.symm⟩

variable {ctx : DiffCtx} {ord : RangeOrder} {oldIR newIR : IR} {id : String}

/-- An entry of one list whose key the other lacks, whatever the order of the range. -/
theorem mem_unseen {site : String} {key : α → String} {x : α} :
    (x ∈ (ord.order site (mapValues key l)).filter fun x => !(l'.map key).contains (key x)) ↔
      lastWith key (key x) l = some x ∧ ∀ y ∈ l', key y ≠ key x := by
  rw [List.mem_filter, (ord.perm _ _).mem_iff, mem_mapValues]
  simp

/-- Where there is no such entry, every key of the one list is a key of the other. -/
theorem keys_of_unseen (ord : RangeOrder) (site : String) {key : α → String}
    (h : ∀ x, x ∉ (ord.order site (mapValues key l)).filter fun x => !(l'.map key).contains (key x)) :
    ∀ x ∈ l, ∃ y ∈ l', key y = key x := by
  intro x hx
  by_contra hno
  simp only [not_exists, not_and] at hno
  obtain ⟨y, hy⟩ := Option.isSome_iff_exists.mp (@lastWith_isSome_of_mem _ key _ _ hx)
  have hkey : key y = key x := (lastWith_mem hy).2
  refine h y (mem_unseen.mpr ⟨by rw [hkey]; exact hy, ?_⟩)
  intro z hz heq
  exact hno z hz (heq.trans hkey)

/-- No entry of a list has a key that the list lacks. -/
theorem not_mem_unseen (site : String) (key : α → String) {x : α} (h : l = l') :
    x ∉ (ord.order site (mapValues key l)).filter fun x => !(l'.map key).contains (key x) := by
  rw [mem_unseen]
  rintro ⟨hlast, hnot⟩
  exact hnot x (h ▸ (lastWith_mem hlast).1) rfl

/-- What `diffField` can find between two versions of a field. -/
inductive FieldDelta (oldF newF : Field) : ChangeKind → ChangeClass → Prop where
  | type : oldF.type ≠ newF.type →
      FieldDelta oldF newF .fieldTypeChanged (classifyTypeChange oldF.type newF.type)
  | tightened : oldF.notNull = false → newF.notNull = true → FieldDelta oldF newF .fieldNotNullTightened
      (if newF.default.isSome then .additive else .backfillRequired)
  | loosened : oldF.notNull = true → newF.notNull = false → FieldDelta oldF newF .fieldNotNullLoosened .additive
  | uniqueAdded : oldF.unique = false → newF.unique = true →
      FieldDelta oldF newF .fieldUniqueAdded .backfillRequired
  | uniqueRemoved : oldF.unique = true → newF.unique = false →
      FieldDelta oldF newF .fieldUniqueRemoved .additive
  | default : oldF.default ≠ newF.default → FieldDelta oldF newF .fieldDefaultChanged .additive
  | backfillAdded : FieldDelta oldF newF .fieldBackfillAdded .additive
  | backfillRemoved : FieldDelta oldF newF .fieldBackfillRemoved .additive
  | backfillChanged : FieldDelta oldF newF .fieldBackfillChanged .additive
  | serialAdded : oldF.serial = false → newF.serial = true →
      FieldDelta oldF newF .fieldSerialAdded .backfillRequired
  | serialRemoved : oldF.serial = true → newF.serial = false →
      FieldDelta oldF newF .fieldSerialRemoved .backfillRequired
  | refAdded : ∀ r, oldF.ref = none → newF.ref = some r →
      FieldDelta oldF newF .fieldReferenceAdded .backfillRequired
  | refRemoved : ∀ r, oldF.ref = some r → newF.ref = none →
      FieldDelta oldF newF .fieldReferenceRemoved .additive
  | refModified : ∀ o n cls, oldF.ref = some o → newF.ref = some n → o ≠ n →
      (cls = .additive → o.targetID = n.targetID) → FieldDelta oldF newF .fieldReferenceModified cls

theorem mem_ite_singleton {p : Prop} [Decidable p] {a b : α} {l : List α} :
    (b ∈ if p then [a] else l) ↔ p ∧ b = a ∨ ¬ p ∧ b ∈ l := by
  split <;> simp [*]

/-- Every change `diffField` finds is of one of these kinds. -/
theorem mem_diffField {oldF newF : Field} (h : ch ∈ diffField id oldF newF) :
    FieldDelta oldF newF ch.kind ch.cls ∧ ch.entityID = id ∧ ch.field = newF.name := by
  simp only [diffField, List.mem_append] at h
  rcases h with (((((h | h) | h) | h) | h) | h) | h
  · rw [diffFieldType, typeEqual, List.mem_ite_nil_left, List.mem_singleton] at h
    obtain ⟨hne, rfl⟩ := h
    exact ⟨.type (by simpa using hne), rfl, rfl⟩
  · rw [diffFieldNotNull, mem_ite_singleton, List.mem_ite_nil_right, List.mem_singleton] at h
    rcases h with ⟨hc, rfl⟩ | ⟨_, hc, rfl⟩
    · exact ⟨.tightened (by simp_all) (by simp_all), rfl, rfl⟩
    · exact ⟨.loosened (by simp_all) (by simp_all), rfl, rfl⟩
  · rw [diffFieldUnique, mem_ite_singleton, List.mem_ite_nil_right, List.mem_singleton] at h
    rcases h with ⟨hc, rfl⟩ | ⟨_, hc, rfl⟩
    · exact ⟨.uniqueAdded (by simp_all) (by simp_all), rfl, rfl⟩
    · exact ⟨.uniqueRemoved (by simp_all) (by simp_all), rfl, rfl⟩
  · rw [diffFieldDefault, List.mem_ite_nil_left, List.mem_singleton] at h
    obtain ⟨hne, rfl⟩ := h
    exact ⟨.default hne, rfl, rfl⟩
  · rw [diffFieldBackfill, List.mem_ite_nil_left, mem_ite_singleton, mem_ite_singleton, List.mem_singleton] at h
    rcases h with ⟨_, ⟨_, rfl⟩ | ⟨_, ⟨_, rfl⟩ | ⟨_, rfl⟩⟩⟩
    · exact ⟨.backfillAdded, rfl, rfl⟩
    · exact ⟨.backfillRemoved, rfl, rfl⟩
    · exact ⟨.backfillChanged, rfl, rfl⟩
  · rw [diffFieldSerial, mem_ite_singleton, List.mem_ite_nil_right, List.mem_singleton] at h
    rcases h with ⟨hc, rfl⟩ | ⟨_, hc, rfl⟩
    · exact ⟨.serialAdded (by simp_all) (by simp_all), rfl, rfl⟩
    · exact ⟨.serialRemoved (by simp_all) (by simp_all), rfl, rfl⟩
  · unfold diffFieldRef at h
    split at h
    · cases h
    · rename_i r ho hn
      rw [List.mem_singleton.mp h]
      exact ⟨.refAdded r ho hn, rfl, rfl⟩
    · rename_i r ho hn
      rw [List.mem_singleton.mp h]
      exact ⟨.refRemoved r ho hn, rfl, rfl⟩
    · rename_i o n ho hn
      rw [List.mem_ite_nil_left, mem_ite_singleton, mem_ite_singleton, List.mem_singleton, not_or, not_not] at h
      rcases h with ⟨hne, ⟨_, rfl⟩ | ⟨hsame, ⟨_, rfl⟩ | ⟨_, rfl⟩⟩⟩
      · exact ⟨.refModified o n _ ho hn hne nofun, rfl, rfl⟩
      · exact ⟨.refModified o n _ ho hn hne nofun, rfl, rfl⟩
      · exact ⟨.refModified o n _ ho hn hne fun _ => hsame.1, rfl, rfl⟩

/-- What `diffEntity` can find between two versions of an entity. -/
inductive EntityDelta (ctx : DiffCtx) (ord : RangeOrder) (oldE newE : Entity) : Change → Prop where
  | table : oldE.tableName ≠ newE.tableName →
      EntityDelta ctx ord oldE newE ⟨.entityTableChanged, .crossCallerBreaking, newE.id, ""⟩
  | fieldRemoved : ∀ name oldF, fieldByName oldE name = some oldF → fieldByName newE name = none →
      EntityDelta ctx ord oldE newE
        ⟨.fieldRemoved, ctx.classifyRemoval newE.id (newE.id ++ "." ++ name), newE.id, name⟩
  | fieldAdded : ∀ newF, fieldByName oldE newF.name = none → fieldByName newE newF.name = some newF →
      EntityDelta ctx ord oldE newE ⟨.fieldAdded,
        if newF.notNull && newF.default.isNone then .backfillRequired else .additive, newE.id, newF.name⟩
  | newReference : ∀ newF r, fieldByName oldE newF.name = none → fieldByName newE newF.name = some newF →
      newF.ref = some r → EntityDelta ctx ord oldE newE ⟨.fieldReferenceAdded, .additive, newE.id, newF.name⟩
  | field : ∀ oldF newF kind cls, fieldByName oldE newF.name = some oldF →
      fieldByName newE newF.name = some newF → FieldDelta oldF newF kind cls →
      EntityDelta ctx ord oldE newE ⟨kind, cls, newE.id, newF.name⟩
  | indexAdded : ∀ idx ∈ addedIndexes ord oldE newE,
      EntityDelta ctx ord oldE newE ⟨.indexAdded idx, .additive, newE.id, ""⟩
  | indexRemoved : ∀ idx ∈ removedIndexes ord oldE newE,
      EntityDelta ctx ord oldE newE ⟨.indexRemoved idx, .additive, newE.id, ""⟩
  | uniqueAdded : ∀ u ∈ addedUniques ord oldE newE,
      EntityDelta ctx ord oldE newE ⟨.compositeUniqueAdded u, .backfillRequired, newE.id, ""⟩
  | uniqueRemoved : ∀ u ∈ removedUniques ord oldE newE,
      EntityDelta ctx ord oldE newE ⟨.compositeUniqueRemoved u, .additive, newE.id, ""⟩
  | timeout : EntityDelta ctx ord oldE newE ⟨.queryTimeoutChanged, .additive, newE.id, ""⟩

theorem mem_diffFields (h : ch ∈ diffFields ctx oldE newE) : EntityDelta ctx ord oldE newE ch := by
  obtain ⟨name, _, h⟩ := List.mem_flatMap.mp h
  unfold diffFieldNamed at h
  split at h
  · rename_i ho hn
    rw [List.mem_singleton.mp h]
    exact .fieldRemoved name _ ho hn
  · rename_i nf ho hn
    obtain rfl : nf.name = name := (lastWith_mem hn).2
    unfold diffFieldAdded at h
    rw [List.mem_cons, List.mem_ite_nil_right, List.mem_singleton] at h
    rcases h with rfl | ⟨hr, rfl⟩
    · exact .fieldAdded nf ho hn
    · obtain ⟨r, hr⟩ := Option.isSome_iff_exists.mp hr
      exact .newReference nf r ho hn hr
  · rename_i oldF nf ho hn
    obtain rfl : nf.name = name := (lastWith_mem hn).2
    obtain ⟨hd, hid, hfield⟩ := mem_diffField h
    obtain ⟨kind, cls, entityID, field⟩ := ch
    cases hid
    cases hfield
    exact .field oldF nf kind cls ho hn hd
  · simp at h

/-- Every change `diffEntity` finds is of one of these kinds. -/
theorem mem_diffEntity (h : ch ∈ diffEntity ctx ord oldE newE) : EntityDelta ctx ord oldE newE ch := by
  simp only [diffEntity, List.mem_append] at h
  rcases h with (((h | h) | h) | h) | h
  · rw [diffTableName, List.mem_ite_nil_left, List.mem_singleton] at h
    obtain ⟨hne, rfl⟩ := h
    exact .table hne
  · exact mem_diffFields h
  · unfold diffIndexes at h
    rcases List.mem_append.mp h with h | h
    · obtain ⟨idx, hidx, rfl⟩ := List.mem_map.mp h; exact .indexAdded idx hidx
    · obtain ⟨idx, hidx, rfl⟩ := List.mem_map.mp h; exact .indexRemoved idx hidx
  · unfold diffUniques at h
    rcases List.mem_append.mp h with h | h
    · obtain ⟨u, hu, rfl⟩ := List.mem_map.mp h; exact .uniqueAdded u hu
    · obtain ⟨u, hu, rfl⟩ := List.mem_map.mp h; exact .uniqueRemoved u hu
  · rw [diffQueryTimeout, List.mem_ite_nil_left, List.mem_singleton] at h
    rw [h.2]
    exact .timeout

/-- Every change `diffEntity` finds is about the entity. -/
theorem entityID_of_mem_diffEntity (h : ch ∈ diffEntity ctx ord oldE newE) : ch.entityID = newE.id := by
  cases mem_diffEntity h <;> rfl

/-- Every change `ComputeDiff` finds for an ID carries the ID. -/
theorem entityID_of_mem_diffID (h : ch ∈ diffID ctx ord oldIR newIR id) : ch.entityID = id := by
  unfold diffID at h
  split at h
  · simp_all
  · simp_all
  · rename_i hnew
    rw [entityID_of_mem_diffEntity h, (entityByID_mem hnew).2]
  · simp at h

/-- **The changes of one entity** are those `diffID` finds, in that order. -/
theorem filter_allChanges :
    (allChanges ctx ord oldIR newIR).filter (fun ch => ch.entityID = id) = diffID ctx ord oldIR newIR id := by
  have hself : (diffID ctx ord oldIR newIR id).filter (fun ch => ch.entityID = id) = diffID ctx ord oldIR newIR id :=
    List.filter_eq_self.mpr fun ch hch => decide_eq_true (entityID_of_mem_diffID hch)
  have hother : ∀ ids : List String, id ∉ ids →
      ids.flatMap (fun id' => (diffID ctx ord oldIR newIR id').filter fun ch => ch.entityID = id) = [] := by
    intro ids hnot
    simp only [List.flatMap_eq_nil_iff, List.filter_eq_nil_iff, decide_eq_true_eq]
    rintro id' hid' ch hch rfl
    exact hnot (entityID_of_mem_diffID hch ▸ hid')
  unfold allChanges
  rw [List.filter_flatMap]
  have hnodup := nodup_mergedNames (oldIR.entities.map Entity.id) (newIR.entities.map Entity.id)
  by_cases hid : id ∈ mergedNames (oldIR.entities.map Entity.id) (newIR.entities.map Entity.id)
  · -- the IDs are different from one another, so no other contributes
    obtain ⟨before, after, hsplit⟩ := List.append_of_mem hid
    rw [hsplit, List.nodup_middle, List.nodup_cons, List.mem_append, not_or] at hnodup
    rw [hsplit, List.flatMap_append, List.flatMap_cons, hself, hother before hnodup.1.1, hother after hnodup.1.2,
      List.append_nil, List.nil_append]
  · -- an ID on neither side has no changes
    rw [hother _ hid]
    rw [mem_mergedNames, not_or] at hid
    unfold diffID
    rw [entityByID_eq_none.mpr hid.1, entityByID_eq_none.mpr hid.2]

/-! ## The creation of an entity -/

/-- The statements that create an entity. -/
inductive CreateStmt (e : Entity) : Stmt → Prop where
  | table : CreateStmt e (.createTable (qualifiedTable e) (e.fields.map columnDecl) (tableConstraints e))
  | index : ∀ idx ∈ e.indexes, CreateStmt e (emitIndexCreate e idx)
  | hypertable : CreateStmt e (.createHypertable (qualifiedTable e) e.timeField)
  | function : e.touchOnUpdateField ≠ "" →
      CreateStmt e (.createFunction (triggerName e "touch_fn") e.touchOnUpdateField)
  | dropTrigger : CreateStmt e (.dropTrigger (qualifiedTable e) (triggerName e "touch"))
  | createTrigger : e.touchOnUpdateField ≠ "" →
      CreateStmt e (.createTrigger (qualifiedTable e) (triggerName e "touch") (triggerName e "touch_fn"))

theorem dropStmt_of_mem (hs : s ∈ emitEntityDrop e) : s = .dropTable (qualifiedTable e) ∨
    e.touchOnUpdateField ≠ "" ∧ s = .dropFunction (triggerName e "touch_fn") := by
  rcases List.mem_cons.mp hs with hs | hs
  · exact .inl hs
  · obtain ⟨htouch, hs⟩ := List.mem_ite_nil_left.mp hs
    exact .inr ⟨htouch, List.mem_singleton.mp hs⟩

theorem fieldStmt_of_mem {f : Field} (hs : s ∈ emitFieldAdd e f) :
    s = .addColumn (qualifiedTable e) (columnDecl f) ∨ ∃ r, f.ref = some r ∧ s = emitFKAdd e f.name r := by
  rcases List.mem_cons.mp hs with hs | hs
  · exact .inl hs
  · split at hs
    · exact .inr ⟨_, ‹_›, List.mem_singleton.mp hs⟩
    · cases hs

theorem createStmt_of_mem (hs : s ∈ emitEntityCreate e) : CreateStmt e s := by
  unfold emitEntityCreate emitTouchTrigger at hs
  rcases List.mem_append.mp hs with hs | hs
  · rcases List.mem_append.mp hs with hs | hs
    · rcases List.mem_cons.mp hs with rfl | hs
      · exact .table
      · obtain ⟨idx, hidx, rfl⟩ := List.mem_map.mp hs
        exact .index idx hidx
    · split at hs
      · rw [List.mem_singleton.mp hs]
        exact .hypertable
      · cases hs
  · split at hs
    · cases hs
    rename_i htouch
    simp only [List.mem_cons, List.not_mem_nil, or_false] at hs
    rcases hs with rfl | rfl | rfl
    · exact .function htouch
    · exact .dropTrigger
    · exact .createTrigger htouch

/-! ## Every addition once -/

/-- The change adds an entity or a field. -/
def ChangeKind.adds : ChangeKind → Bool
  | .entityAdded | .fieldAdded => true
  | _ => false

theorem nodup_adds_diffFields : ((diffFields ctx oldE newE).filter (·.kind.adds)).Nodup := by
  have hnamed : ∀ name, ((diffFieldNamed ctx oldE newE name).filter (·.kind.adds)).Nodup ∧
      ∀ ch ∈ diffFieldNamed ctx oldE newE name, ch.field = name := by
    intro name
    unfold diffFieldNamed
    split
    · simp [ChangeKind.adds]
    · rename_i nf _ hn
      have hname : nf.name = name := (lastWith_mem hn).2
      unfold diffFieldAdded
      cases nf.ref <;> simp [ChangeKind.adds, hname]
    · rename_i oldF nf _ hn
      have hnone : (diffField newE.id oldF nf).filter (·.kind.adds) = [] := by
        rw [List.filter_eq_nil_iff]
        intro ch hch
        cases ch with
        | mk kind => cases (mem_diffField hch).1 <;> simp [ChangeKind.adds]
      refine ⟨hnone ▸ List.nodup_nil, ?_⟩
      intro ch hch
      exact (mem_diffField hch).2.2.trans (lastWith_mem hn).2
    · simp
  unfold diffFields
  rw [List.filter_flatMap, List.nodup_flatMap]
  refine ⟨fun name _ => (hnamed name).1, (nodup_mergedNames _ _).imp ?_⟩
  intro a b hne ch ha hb
  exact hne (((hnamed a).2 ch (List.mem_of_mem_filter ha)).symm.trans ((hnamed b).2 ch (List.mem_of_mem_filter hb)))

/-- **The diff adds nothing twice.** -/
theorem addsOnce : (allChanges ctx ord oldIR newIR).Pairwise fun a b => b.kind.adds = true → a ≠ b := by
  suffices hnodup : ((allChanges ctx ord oldIR newIR).filter (·.kind.adds)).Nodup by
    refine (List.pairwise_filter.mp hnodup).imp ?_
    rintro a _ hne hadds rfl
    exact hne hadds hadds rfl
  unfold allChanges
  rw [List.filter_flatMap, List.nodup_flatMap]
  constructor
  · intro id _
    unfold diffID
    split
    · exact (List.nodup_singleton _).filter _
    · exact (List.nodup_singleton _).filter _
    · rename_i oldE newE _ _
      -- beside its fields nothing is added to an entity
      have htable : (diffTableName oldE newE).filter (·.kind.adds) = [] := by
        unfold diffTableName
        split <;> simp [ChangeKind.adds]
      have htimeout : (diffQueryTimeout oldE newE).filter (·.kind.adds) = [] := by
        unfold diffQueryTimeout
        split <;> simp [ChangeKind.adds]
      have hindexes : (diffIndexes ord oldE newE).filter (·.kind.adds) = [] := by
        simp [diffIndexes, List.filter_map, Function.comp_def, ChangeKind.adds]
      have huniques : (diffUniques ord oldE newE).filter (·.kind.adds) = [] := by
        simp [diffUniques, List.filter_map, Function.comp_def, ChangeKind.adds]
      simp [diffEntity, htable, hindexes, huniques, htimeout, nodup_adds_diffFields]
    · simp
  · refine (nodup_mergedNames _ _).imp ?_
    intro a b hne ch ha hb
    exact hne ((entityID_of_mem_diffID (List.mem_of_mem_filter ha)).symm.trans
      (entityID_of_mem_diffID (List.mem_of_mem_filter hb)))

/-- A change of the diff is one that `diffID` finds for its entity. -/
theorem mem_allChanges : ch ∈ allChanges ctx ord oldIR newIR ↔ ch ∈ diffID ctx ord oldIR newIR ch.entityID := by
  rw [← filter_allChanges, List.mem_filter]
  simp

/-! ## Emission order -/

/-- Moving added entities to the front keeps everything else in place. -/
theorem filter_reorder {p : Change → Bool} (hp : ∀ ch, p ch = true → ch.kind ≠ .entityAdded)
    (changes : List Change) :
    (reorderEntityAddsByFKDependency newIR changes).filter p = changes.filter p := by
  unfold reorderEntityAddsByFKDependency
  dsimp only
  split
  · rfl
  · split
    · rfl
    · rename_i sorted _
      rw [List.filter_append]
      have hadds : (sorted.filterMap fun e => lastWith Change.entityID e.id
          (changes.filter (·.kind = .entityAdded))).filter p = [] := by
        rw [List.filter_eq_nil_iff]
        intro ch hch hpch
        obtain ⟨e, _, he⟩ := List.mem_filterMap.mp hch
        have hkind := (List.mem_filter.mp (lastWith_mem he).1).2
        exact hp ch hpch (by simpa using hkind)
      rw [hadds, List.nil_append, List.filter_filter]
      apply List.filter_congr
      intro ch _
      by_cases hpch : p ch = true
      · simp [hpch, hp ch hpch]
      · simp [Bool.eq_false_iff.mpr hpch]

/-- **The emitted changes of one entity**, apart from its creation: class by class, as `diffID` has them. -/
theorem filter_emissionOrder {p : Change → Bool}
    (hp : ∀ ch, p ch = true → ch.kind ≠ .entityAdded ∧ ch.entityID = id) :
    (emissionOrder newIR (ComputeDiff ctx ord oldIR newIR)).filter p
      = ((diffID ctx ord oldIR newIR id).filter (·.cls = .additive)).filter p
        ++ ((diffID ctx ord oldIR newIR id).filter (·.cls = .backfillRequired)).filter p
        ++ ((diffID ctx ord oldIR newIR id).filter (·.cls = .crossCallerBreaking)).filter p := by
  have hclass : ∀ cls : ChangeClass,
      ((allChanges ctx ord oldIR newIR).filter (·.cls = cls)).filter p
        = ((diffID ctx ord oldIR newIR id).filter (·.cls = cls)).filter p := by
    intro cls
    rw [← filter_allChanges, List.filter_filter, List.filter_filter, List.filter_filter]
    apply List.filter_congr
    intro ch _
    by_cases hpch : p ch = true
    · simp [hpch, (hp ch hpch).2]
    · simp [Bool.eq_false_iff.mpr hpch]
  have hkind : ∀ ch, p ch = true → ch.kind ≠ .entityAdded := fun ch h => (hp ch h).1
  unfold emissionOrder ComputeDiff
  dsimp only
  rw [List.filter_append, List.filter_append, filter_reorder hkind, filter_reorder hkind,
    filter_reorder hkind, hclass, hclass, hclass]

end Atlantis.Codegen
