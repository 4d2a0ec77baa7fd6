import Mathlib.Data.String.Basic
import Atlantis.Lib.Netstring
import Atlantis.Schema.Names

/-!
# `Schema.Validate` — what `Lower` accepts

`validateEntity` and `validateUniqueTableNames` of `internal/dsl/ir.go` return the list of the errors they
find; the rules about relations and cache tags are about data this model leaves out. `Validated` is what a
schema returned by `Lower` without an error satisfies: no errors, and the shape the lowering of fields,
uniques and references gives to the IR.
-/

namespace Atlantis.Schema

/-- An identifier of the schema language. -/
def isIdent (s : String) : Bool :=
  s ≠ "" && s.toList.all fun c => c == '_' || c.isAlphanum || decide (128 ≤ c.toNat)

private def err (cond : Bool) (msg : String) : List String := if cond then [msg] else []

def quoted (s : String) : String := "\"" ++ s ++ "\""

/-- One segment of a `table "…"` value. -/
def isTableSegment (cs : List Char) : Bool :=
  match cs with
  | [] => false
  | c :: rest => (c == '_' || c.isAlpha) && rest.all fun c => c == '_' || c.isAlphanum

/-- `validateTableNameShape`: `[schema.]table`. -/
def tableNameShape (name : String) : Bool :=
  match cutDot name with
  | some (s, t) => isTableSegment s.toList && isTableSegment t.toList
  | none => isTableSegment name.toList

/-- Rule 1: exactly one primary key. -/
def validatePrimaryKey (e : Entity) : List String :=
  let primaries := e.fields.countP (·.primary)
  if primaries > 1 then
    [e.id ++ ": multiple fields carry primary; use `primary by a, b` for composite keys"]
  else if primaries = 1 ∧ e.compositePK ≠ [] then
    [e.id ++ ": cannot combine field-level `primary` with `primary by`"]
  else if primaries = 0 ∧ e.compositePK = [] then
    [e.id ++ ": must have a primary key (single `primary` field or `primary by ...`)"]
  else
    (e.compositePK.filter fun name => (e.findField name).isNone).map fun name =>
      e.id ++ ": primary by references unknown field " ++ quoted name

/-- Rule 2: a reference resolves to a primary or unique field. -/
def validateRef (byID : String → Option Entity) (e : Entity) (f : Field) : List String :=
  match f.ref with
  | none => []
  | some r =>
    match byID r.targetID with
    | none => [e.id ++ "." ++ f.name ++ " references unknown entity " ++ r.targetID]
    | some target =>
      match target.findField r.targetField with
      | none => [e.id ++ "." ++ f.name ++ " references unknown field " ++ r.targetID ++ "." ++ r.targetField]
      | some tf =>
        err (!tf.primary && !tf.unique) (e.id ++ "." ++ f.name ++ " references " ++ r.targetID ++ "."
          ++ r.targetField ++ " which is neither primary nor unique")

/-- The rules about the columns an entity names: soft delete, touch, partition, time column. -/
def validateColumns (e : Entity) : List String :=
  err (e.tableName ≠ "" && !tableNameShape e.tableName)
    (e.id ++ ": invalid table name " ++ quoted e.tableName
      ++ ": must match [schema.]table where each part is [A-Za-z_][A-Za-z0-9_]*")
  ++ (if e.softDeleteField = "" then [] else
      match e.findField e.softDeleteField with
      | none => [e.id ++ ": soft_delete references unknown field " ++ quoted e.softDeleteField]
      | some f =>
        if f.type.name ≠ "timestamptz" then
          [e.id ++ ": soft_delete field " ++ quoted e.softDeleteField ++ " must be timestamptz, got "
            ++ f.type.name]
        else err f.notNull (e.id ++ ": soft_delete field " ++ quoted e.softDeleteField
          ++ " must be nullable (active rows hold NULL)"))
  ++ (if e.touchOnUpdateField = "" then [] else
      match e.findField e.touchOnUpdateField with
      | none => [e.id ++ ": touch_on_update references unknown field " ++ quoted e.touchOnUpdateField]
      | some f => err (f.type.name ≠ "timestamptz") (e.id ++ ": touch_on_update field "
          ++ quoted e.touchOnUpdateField ++ " must be timestamptz, got " ++ f.type.name))
  ++ (if e.partitionField = "" then [] else
      match e.findField e.partitionField with
      | none => [e.id ++ ": partition by references unknown field " ++ quoted e.partitionField]
      | some f => err (!f.notNull) (e.id ++ ": partition field " ++ quoted e.partitionField
          ++ " must be NOT NULL (nullable partition columns break tenant isolation)"))
  ++ (if e.kind = .hypertable then
      match e.findField e.timeField with
      | none => [e.id ++ " hypertable: time field " ++ quoted e.timeField ++ " not found"]
      | some f => err (f.type.name ≠ "timestamptz") (e.id ++ " hypertable: time field "
          ++ quoted e.timeField ++ " must be timestamptz, got " ++ f.type.name)
    else [])

/-- The fields a composite unique names are there. -/
def validateUnique (e : Entity) (u : UniqueSpec) : List String :=
  err u.fields.isEmpty (e.id ++ ": unique by must list at least one field")
  ++ (u.fields.filter fun n => (e.findField n).isNone).map fun n =>
      e.id ++ ": unique references unknown field " ++ quoted n

/-- Rules 5 and 6: an index fits its columns. -/
def validateIndex (e : Entity) : Index → List String
  | .hnsw field _ =>
    match e.findField field with
    | none => [e.id ++ " hnsw index: field " ++ quoted field ++ " not found"]
    | some f => err (f.type.name ≠ "vector") (e.id ++ " hnsw index: field " ++ quoted field ++ " is "
        ++ f.type.name ++ ", must be vector(N)")
  | .gin field =>
    match e.findField field with
    | none => [e.id ++ " gin index: field " ++ quoted field ++ " not found"]
    | some f => err (f.type.name ≠ "jsonb" && !f.type.isArray) (e.id ++ " gin index: field "
        ++ quoted field ++ " is " ++ f.type.name ++ ", must be jsonb or array")
  | .btree fields => missingFields fields
  | .partialBtree fields filter _ =>
    missingFields fields
    ++ ((filter.map PredExpr.columns).getD [] |>.filter fun c => (e.findField c).isNone).map fun c =>
        e.id ++ " partial index: predicate field " ++ quoted c ++ " not found"
where
  missingFields (fields : List IndexField) : List String :=
    (fields.filter fun f => !f.isExpr && (e.findField f.name).isNone).map fun f =>
      e.id ++ " btree index: field " ++ quoted f.name ++ " not found"

/-- The rules about a single field: serial columns and vector dimensions. -/
def validateField (e : Entity) (f : Field) : List String :=
  err (f.serial && f.type.name ≠ "bigint")
    (e.id ++ "." ++ f.name ++ ": serial is only valid on bigint, got " ++ f.type.name)
  ++ err (f.serial && f.identity) (e.id ++ "." ++ f.name ++ ": cannot combine `serial` and `identity`")
  ++ err (f.type.name = "vector" && f.type.vecDim = 0) (e.id ++ "." ++ f.name ++ ": vector dim must be > 0")
  ++ err (f.type.name = "vector" && decide (f.type.vecDim > 16000))
      (e.id ++ "." ++ f.name ++ ": vector(" ++ toString f.type.vecDim ++ ") exceeds pgvector's 16000 maximum")
  ++ err (f.type.isArray && f.type.name = "vector")
      (e.id ++ "." ++ f.name ++ ": arrays of vectors are not supported")

/-- Rule 10: the query timeout. -/
def validateTimeout (e : Entity) : List String :=
  if e.queryTimeoutMS = 0 then []
  else
    err (e.queryTimeoutMS < 50)
      (e.id ++ " query_timeout " ++ toString e.queryTimeoutMS ++ "ms < 50ms minimum")
    ++ err (e.queryTimeoutMS > 30000)
      (e.id ++ " query_timeout " ++ toString e.queryTimeoutMS ++ "ms > 30s maximum")

/-- `validateEntity`. -/
def validateEntity (byID : String → Option Entity) (e : Entity) : List String :=
  validatePrimaryKey e ++ e.fields.flatMap (validateRef byID e) ++ validateColumns e
    ++ e.uniques.flatMap (validateUnique e) ++ e.indexes.flatMap (validateIndex e) ++ validateTimeout e
    ++ e.fields.flatMap (validateField e)

/-- `validateUniqueTableNames`: each `table "…"` value is claimed once. -/
def validateUniqueTableNames : List Entity → List String
  | [] => []
  | e :: rest =>
    (if e.tableName = "" then [] else
      (rest.filter (·.tableName = e.tableName)).map fun e' =>
        "table " ++ quoted e.tableName ++ " is claimed by both " ++ e.id ++ " and " ++ e'.id)
    ++ validateUniqueTableNames rest

/-- `byID[id]`. -/
def IR.find (ir : IR) (id : String) : Option Entity := ir.entities.find? (·.id == id)

/-- The errors of `Lower`'s second pass. -/
def IR.validate (ir : IR) : List String :=
  ir.entities.flatMap (validateEntity ir.find) ++ validateUniqueTableNames ir.entities

/-- How `lowerMembers` leaves a field: keys and generated columns are `NOT NULL`. -/
def Field.Lowered (f : Field) : Prop :=
  isIdent f.name = true ∧ ((f.primary = true ∨ f.identity = true ∨ f.serial = true) → f.notNull = true)

instance (f : Field) : Decidable f.Lowered := inferInstanceAs (Decidable (_ ∧ _))

/-- Pass 2.6: a reference carries the `table "…"` value of its target. -/
def Field.RefThreaded (ir : IR) (f : Field) : Prop :=
  ∀ r ∈ f.ref, r.targetTableName = ((ir.find r.targetID).map Entity.tableName).getD ""

instance (ir : IR) (f : Field) : Decidable (f.RefThreaded ir) :=
  inferInstanceAs (Decidable (∀ r ∈ f.ref, _))

/-- How `Lower` leaves an entity: identifiers for names, no field twice, no composite unique on one
    column. -/
def Entity.Lowered (ir : IR) (e : Entity) : Prop :=
  isIdent e.namespace_ = true ∧ isIdent e.name = true ∧ (e.fields.map Field.name).Nodup ∧
    (∀ f ∈ e.fields, f.Lowered ∧ f.RefThreaded ir) ∧ ∀ u ∈ e.uniques, u.fields.length ≠ 1

instance (ir : IR) (e : Entity) : Decidable (e.Lowered ir) :=
  inferInstanceAs (Decidable (_ ∧ _ ∧ _ ∧ _ ∧ _))

/-- **A schema that `Lower` returns**: sorted by ID without duplicates, lowered, and without errors. -/
def Validated (ir : IR) : Prop :=
  ir.entities.Pairwise (fun a b => a.id < b.id) ∧ (∀ e ∈ ir.entities, e.Lowered ir) ∧ ir.validate = []

instance (ir : IR) : Decidable (Validated ir) := inferInstanceAs (Decidable (_ ∧ _ ∧ _))

/-! ## What it gives -/

variable {ir ir' : IR} {e e' : Entity}

theorem dot_not_mem_of_isIdent {s : String} (h : isIdent s = true) : '.' ∉ s.toList := by
  unfold isIdent at h
  rw [Bool.and_eq_true, List.all_eq_true] at h
  intro hdot
  have hbad := h.2 '.' hdot
  revert hbad
  decide

theorem cutDot_append {l r : String} (hl : '.' ∉ l.toList) : cutDot (l ++ "." ++ r) = some (l, r) := by
  have hlist : (l ++ "." ++ r).toList = l.toList ++ '.' :: r.toList := by simp
  have hall : ∀ x ∈ l.toList, decide (x ≠ '.') = true := by
    intro x hx
    rw [decide_eq_true_eq]
    rintro rfl
    exact hl hx
  unfold cutDot
  simp only [hlist]
  rw [if_pos (by simp), List.takeWhile_append_of_pos hall, List.dropWhile_append_of_pos hall]
  simp

/-- The ID determines namespace and name, and hence the computed table name. -/
theorem tableName_congr (h : e.Lowered ir) (h' : e'.Lowered ir') (hid : e.id = e'.id) :
    Schema.tableName e = Schema.tableName e' := by
  have hlist : e.namespace_.toList ++ '.' :: e.name.toList = e'.namespace_.toList ++ '.' :: e'.name.toList := by
    have := congrArg String.toList hid
    simpa [Entity.id] using this
  obtain ⟨hns, hname⟩ := Lib.append_cons_inj (dot_not_mem_of_isIdent h.1) (dot_not_mem_of_isIdent h'.1) hlist
  unfold Schema.tableName
  rw [String.toList_inj.mp hns, String.toList_inj.mp hname]

theorem Validated.nodup (h : Validated ir) : (ir.entities.map Entity.id).Nodup := by
  rw [List.Nodup, List.pairwise_map]
  exact h.1.imp fun hlt => ne_of_lt hlt

theorem exists_field_of_findField_isSome {n : String} (h : (e.findField n).isSome) : ∃ f ∈ e.fields, f.name = n := by
  obtain ⟨f, hf⟩ := Option.isSome_iff_exists.mp h
  exact ⟨f, List.mem_of_find?_eq_some hf, by simpa using List.find?_some hf⟩

variable (h : Validated ir) (he : e ∈ ir.entities)

include h he

/-- The checks of an entity find nothing. -/
theorem Validated.checks : validatePrimaryKey e = [] ∧ validateColumns e = [] ∧
    (∀ u ∈ e.uniques, validateUnique e u = []) ∧ (∀ idx ∈ e.indexes, validateIndex e idx = []) ∧
    ∀ f ∈ e.fields, validateRef ir.find e f = [] := by
  have hvalid := h.2.2
  unfold IR.validate at hvalid
  have hall := List.flatMap_eq_nil_iff.mp (List.append_eq_nil_iff.mp hvalid).1 e he
  unfold validateEntity at hall
  simp only [List.append_eq_nil_iff, List.flatMap_eq_nil_iff] at hall
  obtain ⟨⟨⟨⟨⟨⟨hkey, hrefs⟩, hcolumns⟩, huniques⟩, hindexes⟩, -⟩, -⟩ := hall
  exact ⟨hkey, hcolumns, huniques, hindexes, hrefs⟩

/-- The columns an index names are fields of the entity. -/
theorem Validated.index_fields {idx : Index} (hidx : idx ∈ e.indexes) {col : String} (hcol : col ∈ idx.plainColumns) :
    ∃ f ∈ e.fields, f.name = col := by
  have hnil := (h.checks he).2.2.2.1 idx hidx
  apply exists_field_of_findField_isSome
  have hfields : ∀ fields : List IndexField, validateIndex.missingFields e fields = [] →
      ∀ f ∈ fields, f.isExpr = false → (e.findField f.name).isSome := by
    intro fields hmissing f hf hexpr
    unfold validateIndex.missingFields at hmissing
    rw [List.map_eq_nil_iff, List.filter_eq_nil_iff] at hmissing
    simpa [hexpr, Option.isSome_iff_ne_none] using hmissing f hf
  cases idx with
  | btree fields =>
    obtain ⟨f, hf, rfl⟩ := List.mem_map.mp hcol
    obtain ⟨hmem, hexpr⟩ := List.mem_filter.mp hf
    exact hfields fields hnil f hmem (by simpa using hexpr)
  | partialBtree fields filter unique =>
    obtain ⟨f, hf, rfl⟩ := List.mem_map.mp hcol
    obtain ⟨hmem, hexpr⟩ := List.mem_filter.mp hf
    exact hfields fields (List.append_eq_nil_iff.mp hnil).1 f hmem (by simpa using hexpr)
  | hnsw field ops =>
    rw [List.mem_singleton.mp hcol]
    cases hf : e.findField field with
    | none => simp [validateIndex, hf] at hnil
    | some f => rfl
  | gin field =>
    rw [List.mem_singleton.mp hcol]
    cases hf : e.findField field with
    | none => simp [validateIndex, hf] at hnil
    | some f => rfl

/-- A field-level `primary` and `primary by` exclude each other. -/
theorem Validated.primaryField_eq_none (hcomp : e.compositePK ≠ []) : e.primaryField = none := by
  have hnil := (h.checks he).1
  unfold validatePrimaryKey at hnil
  simp only at hnil
  split at hnil
  · cases hnil
  split at hnil
  · cases hnil
  rename_i hmany hone
  have hzero : e.fields.countP (·.primary) = 0 := by
    have hne : e.fields.countP (·.primary) ≠ 1 := fun h1 => hone ⟨h1, hcomp⟩
    omega
  unfold Entity.primaryField
  rw [List.find?_eq_none]
  exact fun f hf => by simpa using List.countP_eq_zero.mp hzero f hf

/-- An entity has a primary key, and its columns are there. -/
theorem Validated.primary_key :
    (e.compositePK ≠ [] ∧ ∀ n ∈ e.compositePK, (e.findField n).isSome) ∨
      (e.compositePK = [] ∧ e.primaryField.isSome) := by
  have hnil := (h.checks he).1
  unfold validatePrimaryKey at hnil
  simp only at hnil
  split at hnil
  · cases hnil
  split at hnil
  · cases hnil
  split at hnil
  · cases hnil
  rename_i hnone
  rw [List.map_eq_nil_iff, List.filter_eq_nil_iff] at hnil
  by_cases hcomp : e.compositePK = []
  · refine .inr ⟨hcomp, ?_⟩
    have hpos : e.fields.countP (·.primary) ≠ 0 := fun h0 => hnone ⟨h0, hcomp⟩
    obtain ⟨f, hf, hprim⟩ := List.countP_pos_iff.mp (Nat.pos_of_ne_zero hpos)
    unfold Entity.primaryField
    rw [List.find?_isSome]
    exact ⟨f, hf, hprim⟩
  · refine .inl ⟨hcomp, fun n hn => ?_⟩
    simpa [Option.isSome_iff_ne_none] using hnil n hn

/-- An override has the shape `[schema.]table`. -/
theorem Validated.tableNameShape (hne : e.tableName ≠ "") : Schema.tableNameShape e.tableName = true := by
  have hnil := (h.checks he).2.1
  unfold validateColumns at hnil
  simp only [List.append_eq_nil_iff] at hnil
  obtain ⟨⟨⟨⟨hshape, _⟩, _⟩, _⟩, _⟩ := hnil
  by_contra hbad
  simp [err, hne, hbad] at hshape

/-- The partition column is never null, the soft-delete column of a live row is: they are two. -/
theorem Validated.partition_ne_softDelete (hpart : e.partitionField ≠ "") : e.partitionField ≠ e.softDeleteField := by
  intro heq
  have hnil := (h.checks he).2.1
  unfold validateColumns at hnil
  rw [← heq] at hnil
  simp only [List.append_eq_nil_iff, if_neg hpart] at hnil
  obtain ⟨⟨⟨⟨_, hsoft⟩, _⟩, hpartition⟩, _⟩ := hnil
  cases hf : e.findField e.partitionField with
  | none => simp [hf] at hsoft
  | some f =>
    simp only [hf, err] at hsoft hpartition
    split at hsoft
    · cases hsoft
    · cases hn : f.notNull <;> simp [hn] at hsoft hpartition

/-- The columns of a composite unique are fields, and there are some. -/
theorem Validated.unique_fields {u : UniqueSpec} (hu : u ∈ e.uniques) :
    u.fields ≠ [] ∧ ∀ n ∈ u.fields, ∃ f ∈ e.fields, f.name = n := by
  have hnil := (h.checks he).2.2.1 u hu
  unfold validateUnique err at hnil
  obtain ⟨hempty, hmissing⟩ := List.append_eq_nil_iff.mp hnil
  constructor
  · intro hnone
    simp [hnone] at hempty
  · intro n hn
    apply exists_field_of_findField_isSome
    rw [List.map_eq_nil_iff, List.filter_eq_nil_iff] at hmissing
    simpa [Option.isSome_iff_ne_none] using hmissing n hn

theorem Validated.field_name_ne_empty {f : Field} (hf : f ∈ e.fields) : f.name ≠ "" := by
  intro hname
  have hident := ((h.2.1 e he).2.2.2.1 f hf).1.1
  rw [hname] at hident
  exact absurd hident (by decide)

theorem Validated.lowered : e.Lowered ir :=
  h.2.1 e he

end Atlantis.Schema
