import Mathlib.Data.List.Basic

/-!
# `Schema.IR` — the resolved schema

The part of `internal/dsl/ir.go` that the code generators read: entities with their fields, indexes, unique
specifications and checks. What the parser can produce but no generator of SQL or of messages looks at
(relations, queries, procedures, jobs, positions) is left out.

`Lower` builds the recursive parts of the IR in a few fixed shapes only, and the types here have exactly
these: an array type carries its element type, and a partial-index predicate is one of the two structured
forms or canonical text.
-/

namespace Atlantis.Schema

/-- `dsl.FieldType`. Type names are whatever identifier the schema file has. -/
inductive FieldType where
  | scalar (name : String) (vecDim len numP numS : Nat) (hasNumP : Bool)
  | array (elem : FieldType)
  deriving DecidableEq, Repr

namespace FieldType

/-- A type without parameters. -/
def simple (name : String) : FieldType := .scalar name 0 0 0 0 false

/-- `Name`; for an array, the name of its innermost element. -/
def name : FieldType → String
  | .scalar n _ _ _ _ _ => n
  | .array elem => elem.name

/-- `Array`. -/
def isArray : FieldType → Bool
  | .scalar _ _ _ _ _ _ => false
  | .array _ => true

/-- `VecDim`. -/
def vecDim : FieldType → Nat
  | .scalar _ d _ _ _ _ => d
  | .array _ => 0

/-- `Len`. -/
def len : FieldType → Nat
  | .scalar _ _ l _ _ _ => l
  | .array _ => 0

/-- `NumP`. -/
def numP : FieldType → Nat
  | .scalar _ _ _ p _ _ => p
  | .array _ => 0

/-- `NumS`. -/
def numS : FieldType → Nat
  | .scalar _ _ _ _ s _ => s
  | .array _ => 0

end FieldType

/-- `dsl.Default`, in the kinds `lowerDefault` and the legacy predicate literals have. -/
inductive Default where
  | string (s : String)
  | int (i : Int)
  | bool (b : Bool)
  | now
  | raw (s : String)
  deriving DecidableEq, Repr

/-- `dsl.RefAction`. -/
inductive RefAction where
  | unset | cascade | restrict | setNull
  deriving DecidableEq, Repr

/-- `dsl.Ref`. -/
structure Ref where
  targetID : String
  targetField : String
  targetTableName : String := ""
  onDelete : RefAction := .unset
  onUpdate : RefAction := .unset
  deriving DecidableEq, Repr

/-- `dsl.Field`. -/
structure Field where
  name : String
  type : FieldType
  primary : Bool := false
  identity : Bool := false
  serial : Bool := false
  notNull : Bool := false
  unique : Bool := false
  check : String := ""
  backfill : String := ""
  default : Option Default := none
  ref : Option Ref := none
  protoNumber : Nat := 0
  deriving DecidableEq, Repr

/-- A key as most tables have it. -/
def idField : Field := { name := "id", type := .simple "bigint", primary := true, notNull := true }

/-- `dsl.IndexField`. -/
structure IndexField where
  name : String := ""
  expr : String := ""
  isExpr : Bool := false
  desc : Bool := false
  deriving DecidableEq, Repr

/-- `dsl.VectorOps`. -/
inductive VectorOps where
  | cosine | l2 | ip
  deriving DecidableEq, Repr

/-- The six operators of a structured comparison. -/
inductive LegacyOp where
  | eq | ne | lt | le | gt | ge
  deriving DecidableEq, Repr

/-- `dsl.PredExpr`, as `lowerPredicate` returns it. -/
inductive PredExpr where
  | compare (column : String) (op : LegacyOp) (literal : Default)
  | null (column : String) (negated : Bool)
  | expr (text : String) (cols : List String)
  deriving DecidableEq, Repr

/-- `dsl.Index`, with the fields each kind has. -/
inductive Index where
  | btree (fields : List IndexField)
  | partialBtree (fields : List IndexField) (filter : Option PredExpr) (unique : Bool)
  | hnsw (field : String) (ops : VectorOps)
  | gin (field : String)
  deriving DecidableEq, Repr

/-- `dsl.UniqueSpec`. -/
structure UniqueSpec where
  fields : List String
  deriving DecidableEq, Repr

/-- `dsl.TableCheck`. -/
structure TableCheck where
  name : String := ""
  expr : String
  deriving DecidableEq, Repr

/-- `dsl.EntityKind`. -/
inductive EntityKind where
  | regular | hypertable
  deriving DecidableEq, Repr

/-- `dsl.Entity`. -/
structure Entity where
  name : String
  namespace_ : String
  kind : EntityKind := .regular
  timeField : String := ""
  fields : List Field
  indexes : List Index := []
  uniques : List UniqueSpec := []
  checks : List TableCheck := []
  queryTimeoutMS : Nat := 0
  compositePK : List String := []
  softDeleteField : String := ""
  touchOnUpdateField : String := ""
  partitionField : String := ""
  tableName : String := ""
  retiredProtoNumbers : List Nat := []
  deriving DecidableEq, Repr

/-- A table with a key and no other column. -/
def keyTable (namespace_ name tableName : String) : Entity := { name, namespace_, fields := [idField], tableName }

/-- `dsl.IR`. -/
structure IR where
  entities : List Entity
  deriving DecidableEq, Repr

namespace Entity

/-- `(*Entity).ID`. -/
def id (e : Entity) : String := e.namespace_ ++ "." ++ e.name

/-- `(*Entity).FindField`. -/
def findField (e : Entity) (name : String) : Option Field := e.fields.find? (·.name == name)

/-- `(*Entity).PrimaryField`. -/
def primaryField (e : Entity) : Option Field := e.fields.find? (·.primary)

end Entity

/-- `(*PredExpr).Columns`. -/
def PredExpr.columns : PredExpr → List String
  | .compare column _ _ => [column]
  | .null column _ => [column]
  | .expr _ cols => cols

/-- The columns an index names outside of expressions. -/
def Index.plainColumns : Index → List String
  | .btree fields => (fields.filter (!·.isExpr)).map IndexField.name
  | .partialBtree fields _ _ => (fields.filter (!·.isExpr)).map IndexField.name
  | .hnsw field _ => [field]
  | .gin field => [field]

end Atlantis.Schema
