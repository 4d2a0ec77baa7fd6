import Atlantis.Codegen.Emission
import Atlantis.Schema.Physical

/-!
# `Introspect.Postgres` — a schema read back from a live database

`internal/introspect/postgres.go`. `FromPostgres` takes the declared schema and returns what the database has of it: for
every declared entity a shell with the parts that have no columns copied from the declaration, and, where the table
exists, the fields that `assembleEntity` makes of its columns and constraints. An entity whose table is not there is
returned too, without fields.

The catalog queries are given by their rows. A query that fails fails the call, and is left out.

`fieldByName_assembled` says what becomes of a declared field: the column of its name, or nothing.
-/

namespace Atlantis.Introspect

open Schema Codegen

/-! ## Rows -/

/-- A row of `loadColumns`. -/
structure AttributeRow where
  attname : String
  dataType : String := ""
  typname : String
  atttypmod : Int := -1
  attnotnull : Bool := false
  defaultExpr : Option String := none
  attidentity : String := ""
  deriving DecidableEq, Repr

/-- `contype`. -/
inductive ConType where
  | primary | foreign | unique | check
  deriving DecidableEq, Repr

/-- A row of `loadConstraints`. -/
structure ConstraintRow where
  contype : ConType
  confdeltype : String := ""
  confupdtype : String := ""
  ftargetSchema : Option String := none
  ftargetTable : Option String := none
  colNames : List String := []
  fcolNames : List String := []
  deriving DecidableEq, Repr

/-- What the queries return for a table, in their order. -/
structure LiveTable where
  columns : List AttributeRow := []
  constraints : List ConstraintRow := []
  deriving DecidableEq, Repr

/-- The tables of a database, by schema and name. -/
abbrev Live := String × String → Option LiveTable

/-! ## Columns -/

/-- `colMeta`, without the parts nothing reads. -/
structure ColMeta where
  name : String
  dataType : String
  udtName : String
  charLen : Option Nat
  num : Option (Nat × Nat)
  notNull : Bool
  defaultExpr : Option String
  attIdentity : String
  deriving DecidableEq, Repr

/-- The body of the loop in `loadColumns`. -/
def AttributeRow.colMeta (r : AttributeRow) : ColMeta where
  name := r.attname
  dataType := r.dataType
  udtName := r.typname
  charLen :=
    if (r.typname = "varchar" ∨ r.typname = "bpchar") ∧ r.atttypmod > 4 then some (r.atttypmod - 4).toNat else none
  num :=
    if r.typname = "numeric" ∧ r.atttypmod > 0 then
      some (((r.atttypmod - 4) / 65536).toNat, ((r.atttypmod - 4) % 65536).toNat)
    else none
  notNull := r.attnotnull
  defaultExpr := r.defaultExpr
  attIdentity := r.attidentity

def LiveTable.cols (t : LiveTable) : List ColMeta := t.columns.map AttributeRow.colMeta

/-! ## Constraints -/

/-- `fkSpec`. -/
structure FkSpec where
  col : String := ""
  tgtSchema : String := ""
  tgtTable : String := ""
  tgtCol : String := ""
  onDelete : String := ""
  onUpdate : String := ""
  deriving DecidableEq, Repr

/-- `constraints`; of the checks only their number is read. -/
structure Constraints where
  pk : List String := []
  fks : List FkSpec := []
  uniqs : List (List String) := []
  checks : Nat := 0
  deriving DecidableEq, Repr

/-- `actionFromCode`. -/
def actionFromCode : String → String
  | "a" => "NO ACTION"
  | "r" => "RESTRICT"
  | "c" => "CASCADE"
  | "n" => "SET NULL"
  | "d" => "SET DEFAULT"
  | _ => ""

/-- `refActionFromKeyword`. -/
def refActionFromKeyword : String → RefAction
  | "CASCADE" => .cascade
  | "RESTRICT" => .restrict
  | "SET NULL" => .setNull
  | _ => .unset

/-- The name in a list of one. -/
def only : List String → String
  | [c] => c
  | _ => ""

/-- The body of the loop in `loadConstraints`. -/
def addConstraint (c : Constraints) (r : ConstraintRow) : Constraints :=
  match r.contype with
  | .primary => { c with pk := r.colNames }
  | .foreign => { c with fks := c.fks ++ [
      { col := only r.colNames
        tgtSchema := r.ftargetSchema.getD ""
        tgtTable := r.ftargetTable.getD ""
        tgtCol := only r.fcolNames
        onDelete := actionFromCode r.confdeltype
        onUpdate := actionFromCode r.confupdtype }] }
  | .unique => { c with uniqs := c.uniqs ++ [r.colNames] }
  | .check => { c with checks := c.checks + 1 }

def LiveTable.cons (t : LiveTable) : Constraints := t.constraints.foldl addConstraint {}

/-! ## Types -/

/-- `canonicalUDT`. -/
def canonicalUDT : String → String
  | "int2" => "smallint"
  | "int4" => "int"
  | "int8" => "bigint"
  | "float4" => "real"
  | "float8" => "double precision"
  | "bool" => "boolean"
  | "bpchar" => "char"
  | udt => udt

/-- The value of a text of digits. -/
def digitsValue (cs : List Char) : Nat := cs.foldl (fun n c => n * 10 + (c.toNat - '0'.toNat)) 0

def isDigit (c : Char) : Bool := '0' ≤ c && c ≤ '9'

/-- `parseVectorDim`: the number between the first opening and the last closing bracket. -/
def parseVectorDim (s : String) : Nat :=
  let cs := s.toList
  if cs.contains '(' then
    let rest := (cs.dropWhile (· ≠ '(')).drop 1
    if rest.contains ')' then
      let inner := ((rest.reverse.dropWhile (· ≠ ')')).drop 1).reverse
      if inner.all isDigit then digitsValue inner else 0
    else 0
  else 0

/-- `fieldType`. -/
def fieldType (c : ColMeta) : FieldType :=
  match c.udtName.toList with
  | '_' :: elemUDT => .array (.simple (canonicalUDT (String.ofList elemUDT)))
  | _ =>
    .scalar (canonicalUDT c.udtName) (if c.udtName = "vector" then parseVectorDim c.dataType else 0)
      (c.charLen.getD 0) ((c.num.map Prod.fst).getD 0) ((c.num.map Prod.snd).getD 0) c.num.isSome

/-! ## Defaults -/

/-- `unicode.IsSpace`. -/
def isSpace (c : Char) : Bool :=
  c = ' ' || ('\t' ≤ c && c ≤ '\r') || [0x85, 0xa0, 0x1680, 0x2028, 0x2029, 0x202f, 0x205f, 0x3000].contains c.toNat ||
    (0x2000 ≤ c.toNat && c.toNat ≤ 0x200a)

/-- `strings.TrimSpace`. -/
def trimSpace (s : String) : String :=
  String.ofList (((s.toList.dropWhile isSpace).reverse.dropWhile isSpace).reverse)

/-- `isSerialDefault`. -/
def isSerialDefault (expr : String) : Bool := "nextval(".toList.isPrefixOf (trimSpace expr).toList

/-- A literal after its opening quote, up to the closing one: its body, with doubled quotes collapsed, and the rest. -/
def literalBody : List Char → Option (List Char × List Char)
  | [] => none
  | '\'' :: '\'' :: rest => (literalBody rest).map fun (body, tail) => ('\'' :: body, tail)
  | '\'' :: rest => some ([], rest)
  | c :: rest => (literalBody rest).map fun (body, tail) => (c :: body, tail)

/-- `tryParseInt`, which wraps at 64 bits. -/
def tryParseInt (s : String) : Option Int :=
  let digits := fun (cs : List Char) => if cs ≠ [] ∧ cs.all isDigit then some (digitsValue cs) else none
  match s.toList with
  | '-' :: cs => (digits cs).map fun n => (-(n : Int)).bmod (2 ^ 64)
  | cs => (digits cs).map fun n => (n : Int).bmod (2 ^ 64)

/-- `tryParseDecimalAsInt`. -/
def tryParseDecimalAsInt (s : String) : Option Int :=
  match cutDot s with
  | none => none
  | some (int, frac) => if frac.toList.all (· = '0') then tryParseInt int else none

variable (C : Casing)

/-- `stripStringLiteral`: the body and the type it is cast to. -/
def stripStringLiteral (s : String) : Option (String × String) :=
  match s.toList with
  | '\'' :: cs =>
    match literalBody cs with
    | none => none
    | some (body, after) =>
      let tail := trimSpace (String.ofList after)
      match tail.toList with
      | [] => some (String.ofList body, "")
      | ':' :: ':' :: cast => some (String.ofList body, C.toLower (trimSpace (String.ofList cast)))
      | _ => none
  | _ => none

/-- `isStringCastTarget`. -/
def isStringCastTarget (t : String) : Bool :=
  ["", "text", "bpchar", "character", "character varying", "name"].contains t ||
    ["varchar", "character varying", "character("].any fun p => p.toList.isPrefixOf t.toList

/-- `parseDefault`. -/
def parseDefault (expr : String) : Default :=
  let trimmed := trimSpace expr
  let low := C.toLower trimmed
  if ["now()", "current_timestamp", "transaction_timestamp()"].contains low then .now
  else if low = "true" then .bool true
  else if low = "false" then .bool false
  else
    match stripStringLiteral C trimmed with
    | some (s, castTarget) => if isStringCastTarget castTarget then .string s else .raw trimmed
    | none =>
      match tryParseInt trimmed with
      | some n => .int n
      | none =>
        match tryParseDecimalAsInt trimmed with
        | some n => .int n
        | none => .raw trimmed

/-! ## Entities -/

/-- What `assembleEntity` looks entities up in: those that are declared. -/
def entityByPhys (declared : List Entity) (key : String × String) : String :=
  ((declared.reverse.find? fun e => physical e = key).map Entity.id).getD ""

/-- `tableNameByID`. -/
def tableNameByID (declared : List Entity) (id : String) : String :=
  ((lastWith Entity.id id declared).map Entity.tableName).getD ""

/-- Whether the column has a `UNIQUE` constraint to itself. -/
def Constraints.uniqueOn (cons : Constraints) (col : String) : Bool := cons.uniqs.contains [col]

/-- `fkByCol[col]`. -/
def Constraints.fkOn (cons : Constraints) (col : String) : Option FkSpec :=
  lastWith FkSpec.col col (cons.fks.filter (·.col ≠ ""))

/-- Whether the column is an identity column. -/
def ColMeta.isIdentity (c : ColMeta) : Bool := c.attIdentity = "a" || c.attIdentity = "d"

/-- Whether the column takes its default from a sequence. -/
def ColMeta.isSerial (c : ColMeta) : Bool := !c.isIdentity && c.defaultExpr.any isSerialDefault

/-- The `emit` of `assembleEntity`. -/
def emitField (declared : List Entity) (cons : Constraints) (c : ColMeta) : Field where
  name := c.name
  type := fieldType c
  notNull := c.notNull
  primary := cons.pk = [c.name]
  unique := cons.uniqueOn c.name
  identity := c.isIdentity
  serial := c.isSerial
  default := if c.isIdentity || c.isSerial then none else c.defaultExpr.map (parseDefault C)
  ref := (cons.fkOn c.name).map fun fk =>
    let tgtID := entityByPhys declared (fk.tgtSchema, fk.tgtTable)
    { targetID := tgtID
      targetField := fk.tgtCol
      targetTableName := tableNameByID declared tgtID
      onDelete := refActionFromKeyword fk.onDelete
      onUpdate := refActionFromKeyword fk.onUpdate }

/-- The fields of `assembleEntity`: the declared ones that have a column, in the order of the declaration, and the other
    columns after them. -/
def assembleFields (declared : List Entity) (e : Entity) (cols : List ColMeta) (cons : Constraints) : List Field :=
  (e.fields.filterMap fun df => (lastWith ColMeta.name df.name cols).map (emitField C declared cons)) ++
    (cols.filter fun c => !(e.fields.map Field.name).contains c.name).map (emitField C declared cons)

/-- The shell of a declared entity: what the database does not know. -/
def shell (e : Entity) : Entity :=
  { e with fields := [], compositePK := [], retiredProtoNumbers := [] }

/-- `assembleEntity`. -/
def assembleEntity (declared : List Entity) (e : Entity) (t : LiveTable) : Entity :=
  { shell e with
    compositePK := if t.cons.pk.length > 1 then t.cons.pk else []
    fields := assembleFields C declared e t.cols t.cons }

/-- What `FromPostgres` makes of a declared entity. -/
def introspect (live : Live) (declared : List Entity) (e : Entity) : Entity :=
  match live (physical e) with
  | none => shell e
  | some t => assembleEntity C declared e t

/-! ## Warnings -/

/-- `partitionWarnings`. -/
def partitionWarnings (out declared : Entity) : List String :=
  if declared.partitionField ≠ "" then []
  else
    (out.fields.filter fun f => ["tenant_id", "org_id", "account_id", "workspace_id"].contains f.name).map fun f =>
      declared.id ++ ": column " ++ quoted f.name
        ++ " is present in the live DB but the entity has no `partition_field " ++ f.name
        ++ "` — adopt will baseline as un-partitioned (potential cross-tenant exposure)"

/-- `unverifiedWarnings`. -/
def unverifiedWarnings (declared : Entity) (cons : Constraints) : List String :=
  (if declared.indexes.length > 0 then
    [declared.id ++ ": " ++ toString declared.indexes.length
      ++ " declared index(es) not verified against the live DB (adopt v1 covers tables, columns, PKs, FKs only)"]
  else []) ++
  (if declared.checks.length > 0 ∨ cons.checks > 0 then
    [declared.id ++ ": " ++ toString declared.checks.length ++ " declared CHECK constraint(s), "
      ++ toString cons.checks ++ " live CHECK constraint(s) — not verified"]
  else []) ++
  (if declared.uniques.length > 0 ∨ cons.uniqs.length > 0 then
    [declared.id ++ ": " ++ toString declared.uniques.length ++ " declared composite UNIQUE(s), "
      ++ toString (cons.uniqs.filter (·.length > 1)).length ++ " live composite UNIQUE(s) — not verified"]
  else [])

/-- The warnings about one entity. -/
def warningsOf (live : Live) (declared : List Entity) (e : Entity) : List String :=
  match live (physical e) with
  | none =>
    [e.id ++ ": declared table " ++ (physical e).1 ++ "." ++ (physical e).2 ++ " does not exist in the live DB"]
  | some t => partitionWarnings (introspect C live declared e) e ++ unverifiedWarnings e t.cons

/-! ## The call -/

/-- What `FromPostgres` returns. -/
structure Introspected where
  ir : IR
  existing : List String
  warnings : List String
  deriving DecidableEq, Repr

/-- The first entity whose table an entity before it has. -/
def sharedTable : List Entity → List (String × String) → Option (String × String)
  | [], _ => none
  | e :: es, seen => if seen.contains (physical e) then some (physical e) else sharedTable es (physical e :: seen)

/-- **`FromPostgres`.** -/
def FromPostgres (live : Live) (declared : IR) : Except String Introspected :=
  match sharedTable declared.entities [] with
  | some (schema, table) => .error ("introspect: declared IR maps two entities to " ++ schema ++ "." ++ table)
  | none => .ok
      { ir := ⟨declared.entities.map (introspect C live declared.entities)⟩
        existing := (declared.entities.filter fun e => (live (physical e)).isSome).map Entity.id
        warnings := sortStrings (declared.entities.flatMap (warningsOf C live declared.entities)) }

/-! ## What is read back -/

variable {live : Live} {declared : List Entity} {e : Entity}

@[simp] theorem introspect_id : (introspect C live declared e).id = e.id := by
  unfold introspect
  split <;> rfl

/-- **A declared field is read back from the column of its name**, or not at all. -/
theorem fieldByName_assembled {f : Field} (hf : f ∈ e.fields) {cols : List ColMeta} {cons : Constraints} :
    lastWith Field.name f.name (assembleFields C declared e cols cons)
      = (lastWith ColMeta.name f.name cols).map (emitField C declared cons) := by
  refine lastWith_eq fun x => ?_
  constructor
  · intro hx
    refine ⟨List.mem_append_left _ (List.mem_filterMap.mpr ⟨f, hf, hx⟩), ?_⟩
    obtain ⟨c, hc, rfl⟩ := Option.map_eq_some_iff.mp hx
    exact (lastWith_mem hc).2
  · rintro ⟨hx, hkey⟩
    rcases List.mem_append.mp hx with hx | hx
    · obtain ⟨df, _, hsome⟩ := List.mem_filterMap.mp hx
      obtain ⟨c, hc, rfl⟩ := Option.map_eq_some_iff.mp hsome
      have hsame : df.name = f.name := (lastWith_mem hc).2.symm.trans hkey
      rwa [hsame] at hsome
    · -- the other columns have no declared field
      obtain ⟨c, hc, rfl⟩ := List.mem_map.mp hx
      have hundeclared := (List.mem_filter.mp hc).2
      rw [show c.name = f.name from hkey] at hundeclared
      exact absurd (List.mem_map_of_mem hf) (by simpa using hundeclared)

end Atlantis.Introspect
