import Atlantis.Custom.Decl
import Atlantis.RawSql.Tree
import Atlantis.Schema.Physical

/-!
# `RawSql.Validate` — `internal/dsl/sqlvalidate`

`validateBlock` and what it calls, over the parse tree: the kind of each statement, the names of its `WITH` clauses
(`collectCTENames`), the tables it refers to (`collectTableRefs`), the entities those stand for (`buildTableSet`), and
that `touches(…)` has them all. The parser is a parameter; `normalizeNamedParams` is what it is given.

Errors are the texts that are joined, in the order in which they are found.
-/

namespace Atlantis.RawSql

open Schema

/-- `Mode`. -/
inductive Mode where
  | query
  | procedureStep
  deriving DecidableEq, Repr

/-! ## Placeholders -/

def isLetterOrUnderscore (c : Char) : Bool := ('A' ≤ c && c ≤ 'Z') || ('a' ≤ c && c ≤ 'z') || c == '_'

def isIdentChar (c : Char) : Bool := isLetterOrUnderscore c || ('0' ≤ c && c ≤ '9')

/-- A string, or an identifier in double quotes, up to its closing quote; a doubled quote does not close it. -/
def copyQuoted (quote : Char) : List Char → List Char × List Char
  | [] => ([], [])
  | c :: rest =>
    if c = quote then
      match rest with
      | d :: rest' =>
        if d = quote then
          let (copied, after) := copyQuoted quote rest'
          (c :: d :: copied, after)
        else ([c], rest)
      | [] => ([c], [])
    else
      let (copied, after) := copyQuoted quote rest
      (c :: copied, after)

theorem length_copyQuoted (quote : Char) (cs : List Char) : (copyQuoted quote cs).2.length ≤ cs.length := by
  fun_induction copyQuoted quote cs <;> simp_all <;> omega

/-- The loop of `normalizeNamedParams`. -/
def normalizeFrom : List Char → List Char
  | [] => []
  | c :: rest =>
    if c = '\'' ∨ c = '"' then
      c :: (copyQuoted c rest).1 ++ normalizeFrom (copyQuoted c rest).2
    else if c = '$' ∧ (rest.head?.any isLetterOrUnderscore) then
      '$' :: '1' :: normalizeFrom (rest.dropWhile isIdentChar)
    else c :: normalizeFrom rest
  termination_by cs => cs.length
  decreasing_by
    · have := length_copyQuoted c rest
      simp
      omega
    · have := (List.dropWhile_sublist isIdentChar (l := rest)).length_le
      simp
      omega
    · simp

/-- `normalizeNamedParams`. -/
def normalizeNamedParams (sql : String) : String := String.ofList (normalizeFrom sql.toList)

/-! ## References -/

/-- `normalizeTableRef`. -/
def normalizeTableRef (rv : RangeVar) : String :=
  if rv.schemaname ≠ "" then rv.schemaname ++ "." ++ rv.relname else rv.relname

mutual

/-- `collectTableRefs`. -/
def collectTableRefs : Node → List String
  | .rangeVar rv => [normalizeTableRef rv]
  | .selectStmt with_ _ targets from_ where_ having larg rarg _ _ =>
    collectAll from_ ++ collectAll targets ++ collectAll with_ ++ collectAll where_ ++ collectAll having ++
      collectAll larg ++ collectAll rarg
  | .insertStmt with_ _ relation select _ => normalizeTableRef relation :: collectAll select ++ collectAll with_
  | .updateStmt _ _ relation from_ where_ _ => normalizeTableRef relation :: collectAll from_ ++ collectAll where_
  | .deleteStmt _ _ relation using_ where_ _ => normalizeTableRef relation :: collectAll using_ ++ collectAll where_
  | .joinExpr larg rarg _ => collectTableRefs larg ++ collectTableRefs rarg
  | .rangeSubselect q => collectTableRefs q
  | .commonTableExpr _ q => collectTableRefs q
  | .subLink _ q => collectTableRefs q
  | .resTarget val _ => collectAll val
  | .other _ _ => []

/-- The walk over a list of nodes. -/
def collectAll : List Node → List String
  | [] => []
  | n :: rest => collectTableRefs n ++ collectAll rest

end

mutual

/-- `collectCTENames`. -/
def collectCTENames (C : Casing) : Node → List String
  | .selectStmt with_ _ _ from_ _ _ larg rarg _ _ =>
    withItems C with_ ++ cteNamesAll C from_ ++ cteNamesAll C larg ++ cteNamesAll C rarg
  | .insertStmt with_ _ _ select _ => withItems C with_ ++ cteNamesAll C select
  | .updateStmt with_ _ _ _ _ _ => withItems C with_
  | .deleteStmt with_ _ _ _ _ _ => withItems C with_
  | .rangeSubselect q => collectCTENames C q
  | .joinExpr larg rarg _ => collectCTENames C larg ++ collectCTENames C rarg
  | .rangeVar _ | .commonTableExpr _ _ | .subLink _ _ | .resTarget _ _ | .other _ _ => []

/-- The walk over a list of nodes. -/
def cteNamesAll (C : Casing) : List Node → List String
  | [] => []
  | n :: rest => collectCTENames C n ++ cteNamesAll C rest

/-- The loop over a `WITH` clause. -/
def withItems (C : Casing) : List Node → List String
  | [] => []
  | .commonTableExpr name q :: rest => C.toLower name :: collectCTENames C q ++ withItems C rest
  | _ :: rest => withItems C rest

end

/-! ## Entities -/

/-- `buildTableSet`, newest entry first: a later entity takes over a name of an earlier one. -/
def buildTableSet (C : Casing) (ir : IR) : List (String × String) :=
  ir.entities.foldl (fun out e => ((tableKeys C e).2, e.id) :: ((tableKeys C e).1, e.id) :: out) []

/-- `resolveTable`. -/
def resolveTable (C : Casing) (tables : List (String × String)) (ref : String) : Option String :=
  tables.lookup (C.toLower ref)

/-! ## The block -/

/-- `statementName`. -/
def statementName : Node → String
  | .selectStmt .. => "SELECT"
  | .insertStmt .. => "INSERT"
  | .updateStmt .. => "UPDATE"
  | .deleteStmt .. => "DELETE"
  | .rangeVar _ => "*pg_query.Node_RangeVar"
  | .joinExpr .. => "*pg_query.Node_JoinExpr"
  | .rangeSubselect _ => "*pg_query.Node_RangeSubselect"
  | .commonTableExpr .. => "*pg_query.Node_CommonTableExpr"
  | .subLink .. => "*pg_query.Node_SubLink"
  | .resTarget .. => "*pg_query.Node_ResTarget"
  | .other kind _ => kind

/-- `checkStatementKind`. -/
def checkStatementKind (stmt : Node) (mode : Mode) : Option String :=
  match stmt with
  | .selectStmt .. => none
  | .insertStmt .. | .updateStmt .. | .deleteStmt .. =>
    if mode = .query then some ("query\x7b\x7d bodies must be SELECT statements; got " ++ statementName stmt) else none
  | _ => some ("disallowed statement kind " ++ statementName stmt ++
      " (DDL and other non-DML shapes go through tidectl migrations, not raw SQL)")

/-- `checkTouchesCoverage`. -/
def checkTouchesCoverage (declared referenced : List String) (context : String) : List String :=
  let missing := (referenced.filter fun id => !declared.contains id).eraseDups
  if missing = [] then []
  else [context ++ ": SQL references " ++ String.intercalate ", " missing ++
    " but touches() does not declare them; cache invalidation would be silently stale"]

/-- The references of a statement that are no `WITH` names. -/
def tableRefs (C : Casing) (stmt : Node) : List String :=
  (collectTableRefs stmt).filter fun ref => !(collectCTENames C stmt).contains (C.toLower ref)

/-- What the loop of `validateBlock` finds wrong with a statement, and the entities it refers to. -/
def checkStatement (C : Casing) (mode : Mode) (tables : List (String × String)) (context : String) (i : Nat)
    (stmt : Node) : List String × List String :=
  match checkStatementKind stmt mode with
  | some err => ([context ++ ": statement " ++ toString (i + 1) ++ ": " ++ err], [])
  | none =>
    (((tableRefs C stmt).filter fun ref => (resolveTable C tables ref).isNone).map fun ref =>
        context ++ ": SQL references unknown table " ++ quoted ref ++ " (no entity maps to this name)",
      (tableRefs C stmt).filterMap (resolveTable C tables))

/-- `validateBlock` after parsing. -/
def checkStatements (C : Casing) (stmts : List Node) (mode : Mode) (tables : List (String × String)) (context : String)
    (touches : List String) : List String :=
  let checked := stmts.mapIdx (checkStatement C mode tables context)
  checked.flatMap Prod.fst ++ checkTouchesCoverage touches (checked.flatMap Prod.snd) context

/-- `validateBlock`. -/
def validateBlock (C : Casing) (parse : String → Except String (List Node)) (sql : String) (mode : Mode)
    (tables : List (String × String)) (context : String) (touches : List String) : Except (List String) Unit :=
  match parse (normalizeNamedParams sql) with
  | .error err => .error [context ++ ": SQL parse failed: " ++ err]
  | .ok [] => .error [context ++ ": SQL body is empty"]
  | .ok stmts =>
    match checkStatements C stmts mode tables context touches with
    | [] => .ok ()
    | errs => .error errs

/-! ## Queries and procedures -/

/-- The errors of a check. -/
def errorsOf : Except (List String) Unit → List String
  | .ok () => []
  | .error errs => errs

/-- `ValidateCustomQuery`. -/
def ValidateCustomQuery (C : Casing) (parse : String → Except String (List Node)) (ir : IR) (q : Custom.CustomQuery) :
    List String :=
  errorsOf (validateBlock C parse q.sql .query (buildTableSet C ir) ("query " ++ Custom.customID q.owner q.name) q.touches)

/-- `ValidateCustomProcedure`: its raw steps. -/
def ValidateCustomProcedure (C : Casing) (parse : String → Except String (List Node)) (ir : IR)
    (p : Custom.CustomProcedure) : List String :=
  (p.steps.mapIdx fun i step =>
    match step with
    | .raw sql touches => errorsOf (validateBlock C parse sql .procedureStep (buildTableSet C ir)
        ("procedure " ++ Custom.customID p.owner p.name ++ " step " ++ toString (i + 1)) touches)
    | .typed .. | .enqueue .. => []).flatten

end Atlantis.RawSql
