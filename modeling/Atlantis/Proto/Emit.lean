import Mathlib.Data.List.Sort
import Mathlib.Data.String.Basic
import Atlantis.Schema.Names

/-!
# `Proto.Emit` — the messages `EmitProto` writes

`internal/codegen/proto.go` and the message part of `query_emit.go`. A `.proto` file is modelled by its
messages and a message by its field lines; a line keeps the shape of its text, so that `repeated repeated
float` can be written although no compiler accepts it. `FieldLine.desc` is what the compiler makes of a
line.

Types are what their names resolve to: `own` is a message of the entity's package, `predicate` one of
`atlantis.common.v1`. Enums, services and imports are left out, since no message field is read off them.
-/

namespace Atlantis.Proto

open Schema

/-! ## Descriptors -/

/-- The messages of `atlantis/common/v1/predicates.proto`. -/
inductive PredicateMessage where
  | string | numeric | int32 | int64 | bool | timestamp | bytes
  deriving DecidableEq, Repr

/-- The type of a field. -/
inductive WireType where
  | int32 | int64 | string | bool | bytes | float
  | timestamp | duration | fieldMask
  | predicate (m : PredicateMessage)
  | own (name : String)
  | ownEnum (name : String)
  deriving DecidableEq, Repr

def WireType.isMessage : WireType → Bool
  | .timestamp | .duration | .fieldMask | .predicate _ | .own _ => true
  | _ => false

/-- A field of a message: what a reader of the wire goes by. `presence` says whether an unset field can be
    told from one with the zero value. -/
structure FieldDesc where
  name : String
  number : Nat
  type : WireType
  repeated : Bool
  presence : Bool
  deriving DecidableEq, Repr

/-- The calls an entity's service has. -/
inductive Method where
  | get | list | create | update | delete | batchGet | query
  deriving DecidableEq, Repr

/-- The messages of an entity; both generators name them by the same rule. -/
inductive MessageKind where
  | entity | pk | filter | orderBy
  | request (m : Method)
  | response (m : Method)
  | searchRequest (field : String)
  | searchResponse (field : String)
  deriving DecidableEq, Repr

/-! ## Field lines -/

/-- The type of a line as text: any number of `repeated` before a name. -/
inductive ProtoText where
  | single (t : WireType)
  | repeated (t : ProtoText)
  deriving DecidableEq, Repr

/-- `[optional ]<type> <name> = <number>;` -/
structure FieldLine where
  optional : Bool := false
  type : ProtoText
  name : String
  number : Nat
  deriving DecidableEq, Repr

/-- The field a line declares; `none` where the compiler rejects it. A message field has presence with or
    without `optional`. -/
def FieldLine.desc (l : FieldLine) : Option FieldDesc :=
  match l.type with
  | .single t => some ⟨l.name, l.number, t, false, l.optional || t.isMessage⟩
  | .repeated (.single t) => if l.optional then none else some ⟨l.name, l.number, t, true, false⟩
  | .repeated (.repeated _) => none

/-- A message of a `.proto` file. -/
structure MessageText where
  kind : MessageKind
  fields : List FieldLine
  reserved : List Nat := []
  deriving DecidableEq, Repr

/-- One emitted file. -/
structure ProtoFile where
  path : String
  messages : List MessageText
  deriving DecidableEq, Repr

/-! ## Types and keys -/

/-- `coltype.ProtoType`. -/
def ProtoType : FieldType → Except String ProtoText
  | .array elem => do
      let inner ← ProtoType elem
      pure (.repeated inner)
  | .scalar name _ _ _ _ _ =>
    match name with
    | "smallint" => .ok (.single .int32)
    | "int" => .ok (.single .int32)
    | "bigint" => .ok (.single .int64)
    | "text" | "varchar" | "citext" => .ok (.single .string)
    | "boolean" => .ok (.single .bool)
    | "timestamptz" | "date" => .ok (.single .timestamp)
    | "interval" => .ok (.single .duration)
    | "uuid" => .ok (.single .string)
    | "bytea" => .ok (.single .bytes)
    | "jsonb" => .ok (.single .bytes)
    | "numeric" => .ok (.single .string)
    | "vector" => .ok (.repeated (.single .float))
    | _ => .error ("unsupported type \"" ++ name ++ "\" for proto")

def isRepeated (t : FieldType) : Bool := t.isArray || t.name == "vector"

/-- `schema.PKColumns`. -/
def PKFields (e : Entity) : List Field :=
  if e.compositePK ≠ [] then e.compositePK.filterMap e.findField
  else match e.primaryField with
    | some pk => [pk]
    | none => []

/-- `resolvePKColumns`, with the fallback of its caller: names and types. -/
def resolvePKColumns (e : Entity) : List (String × ProtoText) :=
  let cols :=
    if e.compositePK ≠ [] then
      (PKFields e).map fun f => (f.name, ((ProtoType f.type).toOption).getD (.single .string))
    else (PKFields e).map fun f => (f.name, ((ProtoType f.type).toOption).getD (.single .int64))
  if cols = [] then [("id", .single .int64)] else cols

/-- `predicateMessageForField`; the server has a copy of its own, with the same table. -/
def predicateMessageForField (t : FieldType) : Option PredicateMessage :=
  if t.isArray then none
  else match t.name with
    | "text" | "varchar" | "citext" | "uuid" => some .string
    | "numeric" => some .numeric
    | "int" | "smallint" => some .int32
    | "bigint" => some .int64
    | "boolean" => some .bool
    | "timestamptz" | "date" => some .timestamp
    | "jsonb" | "bytea" => some .bytes
    | _ => none

/-! ## References to an entity -/

/-- `inboundRef`. -/
structure InboundRef where
  fromEntityID : String
  fromField : String
  deriving DecidableEq, Repr

def InboundRef.le (a b : InboundRef) : Prop :=
  a.fromEntityID < b.fromEntityID ∨ a.fromEntityID = b.fromEntityID ∧ a.fromField ≤ b.fromField

instance (a b : InboundRef) : Decidable (a.le b) := inferInstanceAs (Decidable (_ ∨ _ ∧ _))

/-- `computeInboundRefs`, at one target. -/
def computeInboundRefs (ir : IR) (targetID : String) : List InboundRef :=
  (ir.entities.flatMap fun e => e.fields.filterMap fun f =>
    f.ref.bind fun r =>
      if r.targetID = targetID ∧ r.targetID ≠ "" then some ⟨e.id, f.name⟩ else none).insertionSort InboundRef.le

/-- The entity part of a reference's source, when it is in the target's namespace (`includableSource`). -/
def includableSource (ref : InboundRef) (target : Entity) : Option String :=
  (cutDot ref.fromEntityID).bind fun (ns, ent) => if ns = target.namespace_ then some ent else none

/-- The include slots of an entity message. -/
def includeSlots (e : Entity) (inbound : List InboundRef) : List FieldLine :=
  inbound.zipIdx.filterMap fun (ref, i) => (includableSource ref e).map fun ent =>
    { type := .repeated (.single (.own ent)), name := "included_" ++ snakeCase ent ++ "_by_" ++ ref.fromField,
      number := 1000 + i + 1 }

/-! ## The messages of an entity -/

def byProtoNumber (fields : List Field) : List Field :=
  fields.insertionSort fun a b => a.protoNumber ≤ b.protoNumber

/-- A column's line in the entity message. -/
def columnLine (e : Entity) (f : Field) : Except String FieldLine := do
  let ptype ← (ProtoType f.type).mapError (e.id ++ "." ++ f.name ++ ": " ++ ·)
  pure {
    optional := (!f.notNull || f.default.isSome) && !isRepeated f.type
    type := ptype, name := f.name, number := f.protoNumber }

/-- A column's line in the filter message. -/
def filterLine (f : Field) : Option FieldLine :=
  (predicateMessageForField f.type).map fun pred =>
    { optional := true, type := .single (.predicate pred), name := f.name, number := f.protoNumber }

/-- The key columns, numbered from 1. -/
def keyLines (cols : List (String × ProtoText)) : List FieldLine :=
  cols.zipIdx.map fun ((name, ptype), i) => { type := ptype, name, number := i + 1 }

/-- The composition arms of a filter. -/
def filterArms (e : Entity) : List FieldLine := [
  { type := .repeated (.single (.own (e.name ++ "Filter"))), name := "and", number := 100 },
  { type := .repeated (.single (.own (e.name ++ "Filter"))), name := "or", number := 101 },
  { optional := true, type := .single (.own (e.name ++ "Filter")), name := "not", number := 102 }]

def entityLine (e : Entity) : FieldLine := { type := .single (.own e.name), name := "entity", number := 1 }

def entitiesLine (e : Entity) : FieldLine :=
  { type := .repeated (.single (.own e.name)), name := "entities", number := 1 }

/-- `snakeToCamel`. -/
def snakeToCamel (s : String) : String :=
  String.join ((s.splitOn "_").map fun p =>
    match p.toList with
    | [] => ""
    | c :: cs => String.ofList (c.toUpper :: cs))

/-- The messages of a vector search. -/
def searchMessages (e : Entity) : List MessageText :=
  e.indexes.flatMap fun
    | .hnsw field _ => [
        ⟨.searchRequest (snakeToCamel field), [
          { type := .repeated (.single .float), name := "query_vector", number := 1 },
          { type := .single .int32, name := "limit", number := 2 }], []⟩,
        ⟨.searchResponse (snakeToCamel field), [
          entitiesLine e,
          { type := .repeated (.single .float), name := "distances", number := 2 }], []⟩]
    | _ => []

/-- The messages of `emitProtoQuerySurface`. -/
def querySurface (e : Entity) : List MessageText := [
  ⟨.filter, (byProtoNumber e.fields).filterMap filterLine ++ filterArms e, e.retiredProtoNumbers⟩,
  ⟨.orderBy, [
    { type := .single (.ownEnum (e.name ++ "OrderField")), name := "field", number := 1 },
    { type := .single .bool, name := "desc", number := 2 }], []⟩,
  ⟨.request .query, [
    { type := .single (.own (e.name ++ "Filter")), name := "filter", number := 1 },
    { type := .repeated (.single (.own (e.name ++ "OrderBy"))), name := "order", number := 2 },
    { type := .single .int32, name := "limit", number := 3 },
    { type := .single .string, name := "page_token", number := 4 },
    { type := .single .fieldMask, name := "fields", number := 5 },
    { type := .repeated (.single (.ownEnum (e.name ++ "Include"))), name := "includes", number := 6 },
    { type := .single .bool, name := "cache_skip", number := 7 }], []⟩,
  ⟨.response .query, [
    entitiesLine e,
    { type := .single .string, name := "next_page_token", number := 2 },
    { optional := true, type := .single .int64, name := "total_estimate", number := 3 }], []⟩]

/-- The request of `BatchGet`: the wrapper message for a composite key, the column otherwise. -/
def batchGetLines (e : Entity) : List (String × ProtoText) → List FieldLine
  | [(name, ptype)] => [{ type := .repeated ptype, name := name ++ "s", number := 1 }]
  | _ => [{ type := .repeated (.single (.own (e.name ++ "PK"))), name := "ids", number := 1 }]

/-- **`emitProtoEntity`.** -/
def emitProtoEntity (e : Entity) (inbound : List InboundRef) : Except String ProtoFile := do
  let columns ← (byProtoNumber e.fields).mapM (columnLine e)
  let pkCols := resolvePKColumns e
  pure {
    path := "atlantis/" ++ goNamespace e.namespace_ ++ "/v1/" ++ snakeCase e.name ++ ".proto"
    messages :=
      [⟨.entity, columns ++ includeSlots e inbound, e.retiredProtoNumbers⟩]
      ++ (if pkCols.length > 1 then [⟨.pk, keyLines pkCols, []⟩] else [])
      ++ [⟨.request .get, keyLines pkCols, []⟩, ⟨.response .get, [entityLine e], []⟩,
        ⟨.request .list, [
          { type := .single .int32, name := "limit", number := 1 },
          { type := .single .int32, name := "offset", number := 2 }], []⟩,
        ⟨.response .list, [
          entitiesLine e,
          { type := .single .int64, name := "total", number := 2 },
          { type := .single .string, name := "next_page_token", number := 3 }], []⟩,
        ⟨.request .create, [entityLine e], []⟩, ⟨.response .create, [entityLine e], []⟩,
        ⟨.request .update, [entityLine e], []⟩, ⟨.response .update, [entityLine e], []⟩,
        ⟨.request .delete, keyLines pkCols, []⟩, ⟨.response .delete, [], []⟩,
        ⟨.request .batchGet, batchGetLines e pkCols, []⟩, ⟨.response .batchGet, [entitiesLine e], []⟩]
      ++ searchMessages e ++ querySurface e }
where
  /-- Go reserves directories named `vendor`. -/
  goNamespace (ns : String) : String := if ns = "vendor" then "vendorpkg" else ns

/-- **`EmitProto`.** One file for each entity, sorted by path. -/
def EmitProto (ir : IR) : Except String (List ProtoFile) := do
  let files ← ir.entities.mapM fun e => emitProtoEntity e (computeInboundRefs ir e.id)
  pure (files.insertionSort fun a b => a.path ≤ b.path)

end Atlantis.Proto
