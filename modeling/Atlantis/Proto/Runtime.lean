import Atlantis.Proto.Emit

/-!
# `Proto.Runtime` — the messages the server builds, and the numbers

`buildProtoDescriptors` of `internal/server/entity/proto.go` builds descriptors for the messages of an entity
from the IR itself, so that compiled clients can talk to a server that was not compiled with them. What
`protodesc.NewFile` does with the result (resolving names, rejecting a number used twice) is the library's.

`AssignProtoNumbers` of `internal/codegen/proto.go` gives the columns their numbers, before either generator
runs. A schema that went through it again and again is `Numbered`.
-/

namespace Atlantis.Proto

open Schema

/-! ## Descriptors at runtime -/

/-- A message descriptor. -/
structure MessageDesc where
  kind : MessageKind
  fields : List FieldDesc
  reserved : List Nat := []
  deriving DecidableEq, Repr

/-- `setProtoType`, by the name of the type: for an array that of its innermost element. -/
def setProtoType (t : FieldType) : WireType :=
  match t.name with
  | "smallint" | "int" => .int32
  | "bigint" => .int64
  | "text" | "varchar" | "citext" | "uuid" | "numeric" => .string
  | "boolean" => .bool
  | "timestamptz" | "date" => .timestamp
  | "bytea" | "jsonb" => .bytes
  | "interval" => .string
  | "vector" => .float
  | _ => .string

/-- `applyProtoFieldType`: the type and whether the field is repeated. -/
def applyProtoFieldType (t : FieldType) : WireType × Bool :=
  match t with
  | .array elem => (setProtoType elem, true)
  | t => if t.name = "vector" then (.float, true) else (setProtoType t, false)

/-- `schema.IsEffectivelyNullable`. -/
def IsEffectivelyNullable (f : Field) : Bool := f.default.isSome || !f.notNull

/-- A singular field; a message has presence anyway, a scalar when it is `proto3_optional`. -/
def singular (name : String) (number : Nat) (t : WireType) (optional : Bool) : FieldDesc :=
  ⟨name, number, t, false, optional || t.isMessage⟩

def repeatedField (name : String) (number : Nat) (t : WireType) : FieldDesc := ⟨name, number, t, true, false⟩

/-- `dslFieldToProtoField`. -/
def dslFieldToProtoField (f : Field) : FieldDesc :=
  let (t, repeated) := applyProtoFieldType f.type
  if repeated then repeatedField f.name f.protoNumber t
  else
    let optional := !f.type.isArray && f.type.name ≠ "vector" && IsEffectivelyNullable f
    singular f.name f.protoNumber t optional

def buildEntityMessage (e : Entity) : MessageDesc :=
  ⟨.entity, e.fields.map dslFieldToProtoField, e.retiredProtoNumbers⟩

/-- The key columns of a message, numbered from 1: the loop of `buildPKMessage`, `buildGetRequest` and
    `buildDeleteRequest`. -/
def keyFields (pkCols : List Field) : List FieldDesc :=
  pkCols.zipIdx.map fun (f, i) => singular f.name (i + 1) (setProtoType f.type) false

def buildPKMessage (pkCols : List Field) : MessageDesc := ⟨.pk, keyFields pkCols, []⟩
def buildGetRequest (pkCols : List Field) : MessageDesc := ⟨.request .get, keyFields pkCols, []⟩
def buildDeleteRequest (pkCols : List Field) : MessageDesc := ⟨.request .delete, keyFields pkCols, []⟩

/-- `buildBatchGetRequest`; without a key column it indexes an empty slice. -/
def buildBatchGetRequest (e : Entity) (pkCols : List Field) : Except String MessageDesc :=
  if pkCols.length > 1 then .ok ⟨.request .batchGet, [repeatedField "ids" 1 (.own (e.name ++ "PK"))], []⟩
  else match pkCols with
    | [] => .error "index out of range [0] with length 0"
    | f :: _ => .ok ⟨.request .batchGet, [repeatedField (f.name ++ "s") 1 (setProtoType f.type)], []⟩

/-- `wrapEntityRequest`, for the requests and responses that carry one entity. -/
def wrapEntity (kind : MessageKind) (e : Entity) : MessageDesc :=
  ⟨kind, [singular "entity" 1 (.own e.name) false], []⟩

def buildQueryRequest (e : Entity) : MessageDesc :=
  ⟨.request .query, [
    singular "filter" 1 (.own (e.name ++ "Filter")) false,
    singular "limit" 3 .int32 false,
    singular "page_token" 4 .string false,
    singular "cache_skip" 7 .bool false], []⟩

def buildQueryResponse (e : Entity) : MessageDesc :=
  ⟨.response .query, [
    repeatedField "entities" 1 (.own e.name),
    singular "next_page_token" 2 .string false,
    singular "total_estimate" 3 .int64 true], []⟩

/-- The loop of `buildFilterMessage`: a counter over the filterable columns, in the order they are
    declared. -/
def filterFieldsFrom : Nat → List Field → List FieldDesc
  | _, [] => []
  | num, f :: fs =>
    match predicateMessageForField f.type with
    | none => filterFieldsFrom num fs
    | some pred => singular f.name num (.predicate pred) false :: filterFieldsFrom (num + 1) fs

def buildFilterMessage (e : Entity) : MessageDesc :=
  ⟨.filter, filterFieldsFrom 1 e.fields ++ [
    repeatedField "and" 100 (.own (e.name ++ "Filter")),
    repeatedField "or" 101 (.own (e.name ++ "Filter")),
    singular "not" 102 (.own (e.name ++ "Filter")) false], []⟩

/-- **`buildProtoDescriptors`**, up to `protodesc.NewFile`. -/
def buildProtoDescriptors (e : Entity) : Except String (List MessageDesc) := do
  let pkCols := PKFields e
  let batchGet ← buildBatchGetRequest e pkCols
  pure ([buildEntityMessage e]
    ++ (if pkCols.length > 1 then [buildPKMessage pkCols] else [])
    ++ [buildGetRequest pkCols, wrapEntity (.response .get) e,
      wrapEntity (.request .create) e, wrapEntity (.response .create) e,
      wrapEntity (.request .update) e, wrapEntity (.response .update) e,
      buildDeleteRequest pkCols, ⟨.response .delete, [], []⟩,
      batchGet, ⟨.response .batchGet, [repeatedField "entities" 1 (.own e.name)], []⟩,
      buildQueryRequest e, buildQueryResponse e, buildFilterMessage e])

/-! ## Numbers -/

/-- `for reserved[next] { next++ }`. One of the `reserved.length + 1` numbers from `next` on is free, so that
    many steps are enough. -/
def nextFree (reserved : List Nat) : (steps : Nat) → Nat → Nat
  | 0, next => next
  | steps + 1, next => if next ∈ reserved then nextFree reserved steps (next + 1) else next

/-- Pass B: fresh numbers for the fields that have none. -/
def assignFresh : (next : Nat) → (reserved : List Nat) → List Field → List Field
  | _, _, [] => []
  | next, reserved, f :: fs =>
    if f.protoNumber ≠ 0 then f :: assignFresh next reserved fs
    else
      let next := nextFree reserved (reserved.length + 1) next
      { f with protoNumber := next } :: assignFresh next (next :: reserved) fs

/-- Pass A: a field keeps the number it had under its name. -/
def keepNumber (oldE : Entity) (f : Field) : Field :=
  match oldE.fields.reverse.find? (·.name == f.name) with
  | some of => if of.protoNumber ≠ 0 then { f with protoNumber := of.protoNumber } else f
  | none => f

/-- The numbers Pass A keeps. -/
def keptNumbers (oldE : Entity) (fields : List Field) : List Nat :=
  fields.filterMap fun f => (oldE.fields.reverse.find? (·.name == f.name)).bind fun of =>
    if of.protoNumber ≠ 0 then some of.protoNumber else none

/-- The end of Pass A: the numbers of fields that are gone, with those reserved so far. -/
def retireGone (fields : List Field) : (retired reserved : List Nat) → List Field → List Nat × List Nat
  | retired, reserved, [] => (retired, reserved)
  | retired, reserved, of :: rest =>
    if (fields.all (·.name ≠ of.name)) ∧ of.protoNumber ≠ 0 ∧ of.protoNumber ∉ reserved then
      retireGone fields (retired ++ [of.protoNumber]) (of.protoNumber :: reserved) rest
    else retireGone fields retired reserved rest

/-- `AssignProtoNumbers` on one entity. -/
def assignNumbers (oldE : Option Entity) (e : Entity) : Entity :=
  match oldE with
  | none => { e with
      fields := assignFresh 1 e.retiredProtoNumbers e.fields
      retiredProtoNumbers := e.retiredProtoNumbers.insertionSort (· ≤ ·) }
  | some oldE =>
    let fields := e.fields.map (keepNumber oldE)
    let kept := keptNumbers oldE e.fields ++ oldE.retiredProtoNumbers
    let (retired, reserved) := retireGone e.fields oldE.retiredProtoNumbers kept oldE.fields
    { e with
      fields := assignFresh 1 reserved fields
      retiredProtoNumbers := retired.insertionSort (· ≤ ·) }

/-- **`AssignProtoNumbers`**; the previous schema is looked up by entity ID. -/
def AssignProtoNumbers (oldIR newIR : IR) : IR where
  entities := newIR.entities.map fun e =>
    assignNumbers (oldIR.entities.reverse.find? (·.id == e.id)) e

end Atlantis.Proto
