import Mathlib.Data.List.Sort
import Atlantis.Custom.Decl
import Atlantis.Lib.Keyed
import Atlantis.Schema.Validate

/-!
# `Schema.Lower` — from declarations to the schema

`Lower` of `internal/dsl/ir.go` takes the parsed files of all callers to one schema: it collects the entities,
refuses an ID that is declared twice, sorts by ID, validates, and writes the `table "…"` value of a target
onto the references to it. These are its first two passes; the third, over the declarations that are no entities, is in
`Custom.Lower`.

A declaration is given by what `lowerDecl` makes of it: an entity and the errors found on the way. `Lower_ok_iff`
says what an accepted set of files is and what comes out. From it follow the two facts the admin service rests on:
the result does not depend on the order of the declarations or on how they are spread over files (`Lower_perm`),
and it determines them (`Lower_eq_iff`). What comes out is `Validated`.
-/

namespace Atlantis.Schema

open Lib

/-! ## Declarations -/

/-- How `lowerMembers` leaves a field: not numbered, its reference not yet resolved. -/
def Field.Declared (f : Field) : Prop :=
  f.Lowered ∧ f.protoNumber = 0 ∧ ∀ r ∈ f.ref, r.targetTableName = ""

instance (f : Field) : Decidable f.Declared := inferInstanceAs (Decidable (_ ∧ _ ∧ ∀ r ∈ f.ref, _))

/-- How `lowerDecl` leaves an entity it has no error about. -/
def Entity.Declared (e : Entity) : Prop :=
  isIdent e.namespace_ = true ∧ isIdent e.name = true ∧ (e.fields.map Field.name).Nodup ∧
    (∀ f ∈ e.fields, f.Declared) ∧ (∀ u ∈ e.uniques, u.fields.length ≠ 1) ∧ e.retiredProtoNumbers = []

instance (e : Entity) : Decidable e.Declared := inferInstanceAs (Decidable (_ ∧ _ ∧ _ ∧ _ ∧ _ ∧ _))

/-- An entity or hypertable declaration, as `lowerDecl` returns it. -/
structure EntityDecl where
  entity : Entity
  errs : List String := []
  declared : errs = [] → entity.Declared := by decide
  deriving DecidableEq

/-- `dsl.File`, with its entities apart from the other declarations. -/
structure File where
  path : String
  decls : List EntityDecl
  customs : List Custom.CustomDecl := []
  deriving DecidableEq

/-! ## Lowering -/

/-- One declaration of pass 1, on the errors and entities so far. -/
def collectDecl (acc : List String × List Entity) (d : EntityDecl) : List String × List Entity :=
  if d.errs ≠ [] then (acc.1 ++ d.errs, acc.2)
  else if acc.2.any (·.id = d.entity.id) then (acc.1 ++ ["duplicate entity " ++ d.entity.id], acc.2)
  else (acc.1, acc.2 ++ [d.entity])

/-- `sort.Slice(ir.Entities, …)`. -/
def sortByID (es : List Entity) : List Entity := sortBy Entity.id es

/-- Pass 2.6 on one reference. -/
def threadRef (byID : String → Option Entity) (r : Ref) : Ref :=
  match byID r.targetID with
  | some target => if target.tableName ≠ "" then { r with targetTableName := target.tableName } else r
  | none => r

def threadField (byID : String → Option Entity) (f : Field) : Field := { f with ref := f.ref.map (threadRef byID) }

def threadEntity (byID : String → Option Entity) (e : Entity) : Entity :=
  { e with fields := e.fields.map (threadField byID) }

/-- Pass 2.6. -/
def threadRefs (ir : IR) : IR := ⟨ir.entities.map (threadEntity ir.find)⟩

/-- The passes over entities: the errors, and the schema. -/
def lowerEntities (files : List File) : List String × IR :=
  let (errs, es) := (files.flatMap File.decls).foldl collectDecl ([], [])
  let ir : IR := ⟨sortByID es⟩
  (errs ++ ir.validate, threadRefs ir)

/-- **`Lower`**, as far as entities go. -/
def Lower (files : List File) : Except (List String) IR :=
  match lowerEntities files with
  | ([], ir) => .ok ir
  | (errs, _) => .error errs

/-- The declarations of a set of files, as entities. -/
def declaredEntities (files : List File) : List Entity := (files.flatMap File.decls).map EntityDecl.entity

variable {files fs gs : List File} {ir : IR}

@[simp] theorem declaredEntities_append (fs gs : List File) :
    declaredEntities (fs ++ gs) = declaredEntities fs ++ declaredEntities gs := by
  simp [declaredEntities]

/-- **Pass 1 without an error**: every declaration is sound, no ID comes twice, and all entities are there. -/
theorem foldl_collectDecl_iff {ds : List EntityDecl} {es : List Entity} :
    ds.foldl collectDecl ([], []) = ([], es) ↔
      (∀ d ∈ ds, d.errs = []) ∧ (es.map Entity.id).Nodup ∧ es = ds.map EntityDecl.entity := by
  have hstep : ∀ acc (d : EntityDecl) out, collectDecl acc d = ([], out) ↔
      acc.1 = [] ∧ d.errs = [] ∧ d.entity.id ∉ acc.2.map Entity.id ∧ out = acc.2 ++ [d.entity] := by
    rintro ⟨errs, es⟩ d out
    have hdup : (es.any (·.id = d.entity.id)) = true ↔ d.entity.id ∈ es.map Entity.id := by
      simp only [List.any_eq_true, decide_eq_true_eq, List.mem_map]
    unfold collectDecl
    by_cases herrs : d.errs = []
    · by_cases hmem : d.entity.id ∈ es.map Entity.id
      · rw [if_neg (not_not_intro herrs), if_pos (hdup.mpr hmem)]
        simp [hmem]
      · rw [if_neg (not_not_intro herrs), if_neg (fun h => hmem (hdup.mp h))]
        simp [herrs, hmem, eq_comm]
    · rw [if_pos herrs]
      simp [herrs]
  refine (foldl_collect_iff hstep ?_).trans ?_
  · exact List.nodup_nil
  · rw [and_iff_right rfl, List.nil_append]

/-- `Lower` succeeds where the passes find no error. -/
theorem Lower_eq_ok : Lower files = .ok ir ↔ lowerEntities files = ([], ir) := by
  unfold Lower
  obtain ⟨errs, ir'⟩ := lowerEntities files
  cases errs <;> simp

/-- **What `Lower` accepts, and what comes out.** -/
theorem Lower_ok_iff :
    Lower files = .ok ir ↔
      (∀ d ∈ files.flatMap File.decls, d.errs = []) ∧ ((declaredEntities files).map Entity.id).Nodup ∧
      IR.validate ⟨sortByID (declaredEntities files)⟩ = [] ∧
      ir = threadRefs ⟨sortByID (declaredEntities files)⟩ := by
  have hiff := fun es => @foldl_collectDecl_iff (files.flatMap File.decls) es
  rw [Lower_eq_ok]
  unfold lowerEntities
  generalize hfold : (files.flatMap File.decls).foldl collectDecl ([], []) = acc at hiff
  obtain ⟨errs, es⟩ := acc
  simp only [Prod.mk.injEq, List.append_eq_nil_iff]
  constructor
  · rintro ⟨⟨rfl, hvalid⟩, rfl⟩
    obtain ⟨hsound, hnodup, rfl⟩ := (hiff es).mp rfl
    exact ⟨hsound, hnodup, hvalid, rfl⟩
  · rintro ⟨hsound, hnodup, hvalid, rfl⟩
    obtain ⟨rfl, rfl⟩ := Prod.mk.inj ((hiff (declaredEntities files)).mpr ⟨hsound, hnodup, rfl⟩)
    exact ⟨⟨rfl, hvalid⟩, rfl⟩

/-! ## Order of declarations -/

theorem sortByID_perm (es : List Entity) : (sortByID es).Perm es := sortBy_perm _ _

/-- **Neither the order of declarations nor their spread over files matters.** -/
theorem Lower_perm (hperm : (fs.flatMap File.decls).Perm (gs.flatMap File.decls))
    (h : Lower fs = .ok ir) : Lower gs = .ok ir := by
  obtain ⟨hsound, hnodup, hvalid, rfl⟩ := Lower_ok_iff.mp h
  have hents : (declaredEntities fs).Perm (declaredEntities gs) := hperm.map _
  have hsort : sortByID (declaredEntities fs) = sortByID (declaredEntities gs) := (sortBy_eq_iff hnodup).mpr hents
  refine Lower_ok_iff.mpr ⟨fun d hd => hsound d (hperm.mem_iff.mpr hd), (hents.map _).nodup_iff.mp hnodup, ?_, ?_⟩
  · rw [← hsort]
    exact hvalid
  · rw [hsort]

/-! ## What the schema says about the declarations -/

/-- A reference before pass 2.6. -/
def unthreadRef (r : Ref) : Ref := { r with targetTableName := "" }

def unthreadField (f : Field) : Field := { f with ref := f.ref.map unthreadRef }

def unthreadEntity (e : Entity) : Entity := { e with fields := e.fields.map unthreadField }

theorem unthreadField_threadField {f : Field} (h : f.Declared) (byID : String → Option Entity) :
    unthreadField (threadField byID f) = f := by
  have href : (f.ref.map (threadRef byID)).map unthreadRef = f.ref := by
    cases hr : f.ref with
    | none => rfl
    | some r =>
      have hempty := h.2.2 r hr
      obtain ⟨targetID, targetField, targetTableName, onDelete, onUpdate⟩ := r
      obtain rfl : targetTableName = "" := hempty
      refine congrArg some ?_
      unfold threadRef
      split
      · split <;> rfl
      · rfl
  unfold unthreadField threadField
  simp only [href]

/-- Entities of accepted files are declared ones. -/
theorem declared_of_mem (hsound : ∀ d ∈ files.flatMap File.decls, d.errs = []) {e : Entity}
    (he : e ∈ declaredEntities files) : e.Declared := by
  obtain ⟨d, hd, rfl⟩ := List.mem_map.mp he
  exact d.declared (hsound d hd)

/-- The sorted declarations, read back from the schema. -/
theorem unthread_Lower (h : Lower files = .ok ir) :
    ir.entities.map unthreadEntity = sortByID (declaredEntities files) := by
  obtain ⟨hsound, _, _, rfl⟩ := Lower_ok_iff.mp h
  unfold threadRefs
  rw [List.map_map]
  refine (List.map_congr_left fun e he => ?_).trans (List.map_id _)
  have hdeclared := declared_of_mem hsound ((sortByID_perm _).mem_iff.mp he)
  have hfields : ∀ byID, (e.fields.map (threadField byID)).map unthreadField = e.fields := by
    intro byID
    rw [List.map_map]
    exact (List.map_congr_left fun f hf => unthreadField_threadField (hdeclared.2.2.2.1 f hf) byID).trans (List.map_id _)
  unfold Function.comp unthreadEntity threadEntity
  simp only [hfields, id]

/-- **The schema determines the declarations**, up to their order, and is determined by them. -/
theorem Lower_eq_iff {ir' : IR} (hf : Lower fs = .ok ir) (hg : Lower gs = .ok ir') :
    ir = ir' ↔ (declaredEntities fs).Perm (declaredEntities gs) := by
  have hnodup := (Lower_ok_iff.mp hf).2.1
  rw [← sortBy_eq_iff hnodup]
  constructor
  · rintro rfl
    exact (unthread_Lower hf).symm.trans (unthread_Lower hg)
  · intro hsort
    obtain ⟨_, _, _, rfl⟩ := Lower_ok_iff.mp hf
    obtain ⟨_, _, _, rfl⟩ := Lower_ok_iff.mp hg
    exact congrArg (fun es => threadRefs ⟨es⟩) hsort

/-! ## What comes out is validated

Pass 2.6 runs after validation and changes nothing that validation reads. -/

variable {g byID : String → Option Entity}

@[simp] theorem threadEntity_id (e : Entity) : (threadEntity g e).id = e.id := rfl

theorem threadEntity_findField (e : Entity) (n : String) :
    (threadEntity g e).findField n = (e.findField n).map (threadField g) := by
  show (e.fields.map (threadField g)).find? _ = _
  rw [List.find?_map]
  rfl

theorem threadEntity_findField_isNone (e : Entity) (n : String) :
    ((threadEntity g e).findField n).isNone = (e.findField n).isNone := by
  rw [threadEntity_findField, Option.isNone_map]

theorem validatePrimaryKey_thread (e : Entity) : validatePrimaryKey (threadEntity g e) = validatePrimaryKey e := by
  have hcount : (threadEntity g e).fields.countP (·.primary) = e.fields.countP (·.primary) := List.countP_map
  unfold validatePrimaryKey
  simp only [hcount, threadEntity_findField_isNone]
  rfl

theorem threadRef_target (r : Ref) : (threadRef g r).targetID = r.targetID ∧ (threadRef g r).targetField = r.targetField := by
  unfold threadRef
  split
  · split <;> exact ⟨rfl, rfl⟩
  · exact ⟨rfl, rfl⟩

theorem validateRef_thread (e : Entity) (f : Field) :
    validateRef (fun id => (byID id).map (threadEntity g)) (threadEntity g e) (threadField g f)
      = validateRef byID e f := by
  unfold validateRef
  cases hr : f.ref with
  | none => simp [threadField, hr]
  | some r =>
    have href : (threadField g f).ref = some (threadRef g r) := by simp [threadField, hr]
    rw [href]
    simp only [(threadRef_target r).1, (threadRef_target r).2]
    cases byID r.targetID with
    | none => rfl
    | some target =>
      simp only [Option.map_some, threadEntity_findField]
      cases target.findField r.targetField with
      | none => rfl
      | some tf => rfl

theorem validateColumns_thread (e : Entity) : validateColumns (threadEntity g e) = validateColumns e := by
  have hsoft : (threadEntity g e).softDeleteField = e.softDeleteField := rfl
  have htouch : (threadEntity g e).touchOnUpdateField = e.touchOnUpdateField := rfl
  have hpartition : (threadEntity g e).partitionField = e.partitionField := rfl
  have htime : (threadEntity g e).timeField = e.timeField := rfl
  unfold validateColumns
  rw [hsoft, htouch, hpartition, htime]
  simp only [threadEntity_findField]
  cases e.findField e.softDeleteField <;> cases e.findField e.touchOnUpdateField <;>
    cases e.findField e.partitionField <;> cases e.findField e.timeField <;> rfl

theorem validateIndex_thread (e : Entity) (idx : Index) : validateIndex (threadEntity g e) idx = validateIndex e idx := by
  have hmissing : ∀ fields, validateIndex.missingFields (threadEntity g e) fields = validateIndex.missingFields e fields := by
    intro fields
    unfold validateIndex.missingFields
    simp only [threadEntity_findField_isNone, threadEntity_id]
  cases idx with
  | btree fields => exact hmissing fields
  | partialBtree fields filter unique =>
    unfold validateIndex
    simp only [hmissing, threadEntity_findField_isNone, threadEntity_id]
  | hnsw field ops | gin field =>
    unfold validateIndex
    simp only [threadEntity_findField]
    cases e.findField field with
    | none => rfl
    | some f => rfl

theorem validateEntity_thread (e : Entity) :
    validateEntity (fun id => (byID id).map (threadEntity g)) (threadEntity g e) = validateEntity byID e := by
  have hunique : validateUnique (threadEntity g e) = validateUnique e := by
    funext u
    unfold validateUnique
    simp only [threadEntity_findField_isNone, threadEntity_id]
  have hfields : (threadEntity g e).fields = e.fields.map (threadField g) := rfl
  have hrefs : validateRef (fun id => (byID id).map (threadEntity g)) (threadEntity g e) ∘ threadField g
      = validateRef byID e := funext (validateRef_thread e)
  have hindex : validateIndex (threadEntity g e) = validateIndex e := funext (validateIndex_thread e)
  unfold validateEntity
  rw [hfields, List.flatMap_map, List.flatMap_map, validatePrimaryKey_thread, validateColumns_thread, hunique, hindex]
  rw [show (fun f => validateRef (fun id => (byID id).map (threadEntity g)) (threadEntity g e) (threadField g f))
    = validateRef byID e from hrefs]
  rfl

theorem threadRefs_find (ir : IR) (id : String) : (threadRefs ir).find id = (ir.find id).map (threadEntity ir.find) := by
  show (ir.entities.map (threadEntity ir.find)).find? _ = _
  rw [List.find?_map]
  rfl

theorem validateUniqueTableNames_thread (es : List Entity) :
    validateUniqueTableNames (es.map (threadEntity g)) = validateUniqueTableNames es := by
  induction es with
  | nil => rfl
  | cons e es ih =>
    rw [List.map_cons]
    unfold validateUniqueTableNames
    rw [ih, List.filter_map, List.map_map]
    rfl

theorem validate_threadRefs (ir : IR) : (threadRefs ir).validate = ir.validate := by
  have hfind : (threadRefs ir).find = fun id => (ir.find id).map (threadEntity ir.find) := funext (threadRefs_find ir)
  unfold IR.validate
  rw [hfind]
  show (ir.entities.map (threadEntity ir.find)).flatMap _ ++ validateUniqueTableNames (ir.entities.map _) = _
  rw [validateUniqueTableNames_thread, List.flatMap_map]
  simp only [validateEntity_thread]

/-- Pass 2.6 resolves a reference as declared. -/
theorem threadField_refThreaded {ir : IR} {f : Field} (h : f.Declared) :
    (threadField ir.find f).RefThreaded (threadRefs ir) := by
  intro r hr
  obtain ⟨r₀, hr₀, rfl⟩ := Option.map_eq_some_iff.mp hr
  have hempty : r₀.targetTableName = "" := h.2.2 r₀ hr₀
  unfold threadRef
  cases htarget : ir.find r₀.targetID with
  | none => simp [threadRefs_find, htarget, hempty]
  | some target =>
    by_cases htable : target.tableName = ""
    · simp [threadRefs_find, htarget, hempty, htable, threadEntity]
    · simp [threadRefs_find, htarget, htable, threadEntity]

/-- **What `Lower` returns is validated.** -/
theorem Lower_validated (h : Lower files = .ok ir) : Validated ir := by
  obtain ⟨hsound, hnodup, hvalid, rfl⟩ := Lower_ok_iff.mp h
  have hmem : ∀ e ∈ sortByID (declaredEntities files), e ∈ declaredEntities files :=
    fun e he => (sortByID_perm _).mem_iff.mp he
  refine ⟨?_, ?_, ?_⟩
  · -- sorted, and no ID twice
    have hne : (sortByID (declaredEntities files)).Pairwise fun a b => a.id ≠ b.id :=
      List.pairwise_map.mp (((sortByID_perm _).map Entity.id).nodup_iff.mpr hnodup)
    have hle : (sortByID (declaredEntities files)).Pairwise fun a b => a.id ≤ b.id := sortBy_pairwise _ _
    exact List.pairwise_map.mpr ((hle.and hne).imp fun hab => lt_of_le_of_ne hab.1 hab.2)
  · intro e he
    obtain ⟨e₀, he₀, rfl⟩ := List.mem_map.mp he
    obtain ⟨hns, hname, hnames, hfields, huniques, _⟩ := declared_of_mem hsound (hmem e₀ he₀)
    refine ⟨hns, hname, ?_, ?_, huniques⟩
    · show ((e₀.fields.map (threadField _)).map Field.name).Nodup
      rw [List.map_map]
      exact hnames
    · intro f hf
      obtain ⟨f₀, hf₀, rfl⟩ := List.mem_map.mp hf
      exact ⟨(hfields f₀ hf₀).1, threadField_refThreaded (hfields f₀ hf₀)⟩
  · rw [validate_threadRefs]
    exact hvalid

end Atlantis.Schema
