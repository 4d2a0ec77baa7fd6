import Atlantis.Schema.IR
import Atlantis.Pg.Catalog

/-!
# `Schema.Names` — where an entity lives and what its objects are called

`internal/schema/schema.go` and the naming helpers of `internal/codegen/sql.go`. Two names of a table are
easy to confuse, and the emitters do use both: `tableName`, computed from namespace and entity name, and
`entityPhysicalTable`, which honours a `table "…"` override. Every generated constraint and index name is
built on the first.
-/

namespace Atlantis.Schema

open Pg (TableRef)

/-- Split at the first dot. -/
def cutDot (s : String) : Option (String × String) :=
  let cs := s.toList
  if cs.contains '.' then
    some (String.ofList (cs.takeWhile (· ≠ '.')), String.ofList ((cs.dropWhile (· ≠ '.')).drop 1))
  else none

def isUpperAscii (c : Char) : Bool := decide ('A' ≤ c) && decide (c ≤ 'Z')
def isLowerAscii (c : Char) : Bool := decide ('a' ≤ c) && decide (c ≤ 'z')

/-- The loop of `SnakeCase`, with the character before. -/
def snakeCaseFrom : Option Char → List Char → List Char
  | _, [] => []
  | prev, r :: rest =>
    let lowered := if isUpperAscii r then Char.ofNat (r.toNat + 32) else r
    let breaks :=
      match prev with
      | none => false
      | some p =>
        isUpperAscii r && (isLowerAscii p || ((rest.head?.any isLowerAscii) && isUpperAscii p))
    (if breaks then ['_'] else []) ++ lowered :: snakeCaseFrom (some r) rest

/-- `SnakeCase`. -/
def snakeCase (s : String) : String := String.ofList (snakeCaseFrom none s.toList)

/-- `TableName`: the computed name. -/
def tableName (e : Entity) : String := e.namespace_ ++ "_" ++ snakeCase e.name

/-- `EntitySchema`. -/
def entitySchema (e : Entity) : String :=
  if e.tableName ≠ "" then
    match cutDot e.tableName with
    | some (s, _) => s
    | none => "public"
  else "atlantis"

/-- `EntityPhysicalTable`. -/
def entityPhysicalTable (e : Entity) : String :=
  if e.tableName ≠ "" then
    match cutDot e.tableName with
    | some (_, t) => t
    | none => e.tableName
  else tableName e

/-- `QualifiedTable`. -/
def qualifiedTable (e : Entity) : TableRef := ⟨entitySchema e, entityPhysicalTable e⟩

/-- `tableNameFromID`. -/
def tableNameFromID (id : String) : String :=
  match cutDot id with
  | some (ns, name) => ns ++ "_" ++ snakeCase name
  | none => id

/-- `fkTargetRef`. -/
def fkTargetRef (r : Ref) : TableRef :=
  if r.targetTableName ≠ "" then
    match cutDot r.targetTableName with
    | some (s, t) => ⟨s, t⟩
    | none => ⟨"public", r.targetTableName⟩
  else ⟨"atlantis", tableNameFromID r.targetID⟩

/-! ## Generated names -/

def pkName (e : Entity) : String := tableName e ++ "_pkey"
def fkName (e : Entity) (field : String) : String := tableName e ++ "_" ++ field ++ "_fkey"
def uqName (e : Entity) (field : String) : String := tableName e ++ "_" ++ field ++ "_key"

/-- `compositeUniqueName`. -/
def compositeUniqueName (e : Entity) (fields : List String) : String :=
  tableName e ++ "_" ++ "_".intercalate fields ++ "_key"

/-- `exprSlug`, from the byte written last. -/
def exprSlugFrom : Char → List Char → List Char
  | _, [] => []
  | prev, c :: rest =>
    if isLowerAscii c || c.isDigit then c :: exprSlugFrom c rest
    else if isUpperAscii c then
      let l := Char.ofNat (c.toNat + 32)
      l :: exprSlugFrom l rest
    else if prev ≠ '_' then '_' :: exprSlugFrom '_' rest
    else exprSlugFrom prev rest

/-- `exprSlug`. -/
def exprSlug (expr : String) : String :=
  let out := exprSlugFrom '_' expr.toList
  if out = [] then "expr" else String.ofList out

/-- `joinFieldNames`. -/
def joinFieldNames (fs : List IndexField) : String :=
  "_".intercalate (fs.map fun f => if f.isExpr then exprSlug f.expr else f.name)

/-- `indexName`. -/
def indexName (e : Entity) : Index → String
  | .btree fields => tableName e ++ "_" ++ joinFieldNames fields ++ "_idx"
  | .partialBtree fields _ unique =>
    if unique then tableName e ++ "_" ++ joinFieldNames fields ++ "_unique_partial_idx"
    else tableName e ++ "_" ++ joinFieldNames fields ++ "_partial_idx"
  | .hnsw field _ => tableName e ++ "_" ++ field ++ "_hnsw_idx"
  | .gin field => tableName e ++ "_" ++ field ++ "_gin_idx"

/-- Entities of one computed table name have the same index names. -/
theorem indexName_congr {a b : Entity} (h : tableName a = tableName b) (idx : Index) :
    indexName a idx = indexName b idx := by
  unfold indexName
  rw [h]

/-- `triggerName`. -/
def triggerName (e : Entity) (suffix : String) : String := tableName e ++ "_" ++ suffix

/-! ## Rendered SQL -/

/-- `QuoteIdent`. -/
def quoteIdent (s : String) : String :=
  "\"" ++ String.ofList (s.toList.flatMap fun c => if c = '"' then ['"', '"'] else [c]) ++ "\""

/-- A string literal with its quotes doubled. -/
def quoteLiteral (s : String) : String :=
  "'" ++ String.ofList (s.toList.flatMap fun c => if c = '\'' then ['\'', '\''] else [c]) ++ "'"

/-- `DefaultExpr`. -/
def defaultExpr : Default → String
  | .string s => quoteLiteral s
  | .int i => toString i
  | .bool b => if b then "TRUE" else "FALSE"
  | .now => "now()"
  | .raw s => s

/-- `SQLType`. -/
def sqlType : FieldType → String
  | .array elem => sqlType elem ++ "[]"
  | .scalar name vecDim len numP numS hasNumP =>
    match name with
    | "smallint" => "SMALLINT"
    | "int" => "INTEGER"
    | "bigint" => "BIGINT"
    | "varchar" => "VARCHAR(" ++ toString len ++ ")"
    | "vector" => "vector(" ++ toString vecDim ++ ")"
    | "numeric" =>
      if hasNumP then "NUMERIC(" ++ toString numP ++ ", " ++ toString numS ++ ")" else "NUMERIC"
    | _ => String.ofList (name.toList.map fun c => if isLowerAscii c then Char.ofNat (c.toNat - 32) else c)

/-- `VectorOps.String`. -/
def VectorOps.text : VectorOps → String
  | .cosine => "vector_cosine_ops"
  | .l2 => "vector_l2_ops"
  | .ip => "vector_ip_ops"

/-- The operator as the schema file has it. -/
def LegacyOp.text : LegacyOp → String
  | .eq => "="
  | .ne => "!="
  | .lt => "<"
  | .le => "<="
  | .gt => ">"
  | .ge => ">="

/-- `sqlOp`. -/
def sqlOp (op : LegacyOp) : String := if op = .ne then "<>" else op.text

/-- `predsql.Render`. -/
def renderPred : PredExpr → String
  | .expr text _ => text
  | .compare column op literal => quoteIdent column ++ " " ++ sqlOp op ++ " " ++ defaultExpr literal
  | .null column negated => quoteIdent column ++ (if negated then " IS NOT NULL" else " IS NULL")

/-- `legacyLiteralTag`. -/
def legacyLiteralTag : Default → String
  | .string s => " s:" ++ s
  | .int i => " i:" ++ toString i
  | .bool b => " b:" ++ toString b
  | _ => ""

/-- `predsql.CanonicalKey`. -/
def canonicalKey : Option PredExpr → String
  | none => ""
  | some (.null column negated) => "|" ++ column ++ (if negated then " is not null" else " is null")
  | some (.compare column op literal) => "|" ++ column ++ " " ++ op.text ++ legacyLiteralTag literal
  | some (.expr text _) => "|" ++ text

end Atlantis.Schema
