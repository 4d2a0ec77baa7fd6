import Atlantis.Schema.Names

/-!
# `RawSql.Tree` — parse trees of raw SQL and the tables they stand for

The parse tree that `pg_query` returns, as far as validation can tell its nodes apart: the node types that
`internal/dsl/sqlvalidate` has a case for are constructors, every other node (`BoolExpr`, `A_Expr`, `FuncCall`,
`CaseExpr`, `SortBy`, `RangeFunction`, `OnConflictClause`, DDL …) is `other` with its children. An optional clause is a
list of at most one node. Clauses that validation never looks at stand together in `rest`; the `FOR UPDATE OF` names,
which are aliases and not tables, are left out.

`Reads` is what Postgres does with the names: a `WITH` name is visible in its own statement and, inside the `WITH`
clause, to the queries that follow it (to all of them if the clause is `RECURSIVE`); it hides a table only from
references without a schema, and never from the target of an `INSERT`, `UPDATE` or `DELETE`. A reference without a schema
that is no `WITH` name goes to the first schema of the search path that has such a table (`Postgres.locate`).
-/

namespace Atlantis.RawSql

open Schema
open Pg (TableRef)

/-- `RangeVar`. -/
structure RangeVar where
  schemaname : String := ""
  relname : String
  deriving DecidableEq, Repr

/-- A node of the parse tree. -/
inductive Node where
  | rangeVar (rv : RangeVar)
  /-- `rest`: `DISTINCT`, `GROUP BY`, windows, `VALUES`, `ORDER BY`, `LIMIT`, `OFFSET`. -/
  | selectStmt (withClause : List Node) (recursive : Bool)
      (targetList fromClause whereClause havingClause larg rarg rest : List Node) (into : Option RangeVar)
  /-- `rest`: `ON CONFLICT`, `RETURNING`. -/
  | insertStmt (withClause : List Node) (recursive : Bool) (relation : RangeVar) (selectStmt rest : List Node)
  /-- `rest`: `SET`, `RETURNING`. -/
  | updateStmt (withClause : List Node) (recursive : Bool) (relation : RangeVar) (fromClause whereClause rest : List Node)
  /-- `rest`: `RETURNING`. -/
  | deleteStmt (withClause : List Node) (recursive : Bool) (relation : RangeVar) (usingClause whereClause rest : List Node)
  | joinExpr (larg rarg : Node) (quals : List Node)
  | rangeSubselect (subquery : Node)
  | commonTableExpr (ctename : String) (ctequery : Node)
  | subLink (testexpr : List Node) (subselect : Node)
  | resTarget (val indirection : List Node)
  /-- `kind` is the Go type, as `%T` prints it. -/
  | other (kind : String) (children : List Node)

namespace Node

/-- The table an `INSERT`, `UPDATE` or `DELETE` writes. -/
def relation : Node → Option RangeVar
  | insertStmt _ _ rv _ _ | updateStmt _ _ rv _ _ _ | deleteStmt _ _ rv _ _ _ => some rv
  | _ => none

/-- The `WITH` clause, and whether it is `RECURSIVE`. -/
def withClause : Node → List Node × Bool
  | selectStmt w r _ _ _ _ _ _ _ _ | insertStmt w r _ _ _ | updateStmt w r _ _ _ _ | deleteStmt w r _ _ _ _ => (w, r)
  | _ => ([], false)

/-- All other parts of a node that may hold a query. -/
def clauses : Node → List Node
  | rangeVar _ => []
  | selectStmt _ _ targets from_ where_ having larg rarg rest _ =>
    targets ++ from_ ++ where_ ++ having ++ larg ++ rarg ++ rest
  | insertStmt _ _ _ select rest => select ++ rest
  | updateStmt _ _ _ from_ where_ rest => from_ ++ where_ ++ rest
  | deleteStmt _ _ _ using_ where_ rest => using_ ++ where_ ++ rest
  | joinExpr larg rarg quals => larg :: rarg :: quals
  | rangeSubselect q | commonTableExpr _ q => [q]
  | subLink test q => q :: test
  | resTarget val indirection => val ++ indirection
  | other _ children => children

/-- The name a `WITH` item gives. -/
def ctename : Node → Option String
  | commonTableExpr name _ => some name
  | _ => none

/-- The names of the node's own `WITH` clause. -/
def withNames (n : Node) : List String := n.withClause.1.filterMap ctename

end Node

/-- **Postgres reads or writes the table `rv`** when it runs the node, with the `WITH` names `scope` around it. -/
inductive Reads : List String → Node → RangeVar → Prop where
  | table {scope : List String} {rv : RangeVar} (h : ¬ (rv.schemaname = "" ∧ rv.relname ∈ scope)) :
      Reads scope (.rangeVar rv) rv
  | target {scope : List String} {n : Node} {rv : RangeVar} (h : n.relation = some rv) : Reads scope n rv
  | clause {scope : List String} {n c : Node} {rv : RangeVar} (hc : c ∈ n.clauses)
      (h : Reads (n.withNames ++ scope) c rv) : Reads scope n rv
  | withQuery {scope : List String} {n q : Node} {name : String} {before after : List Node} {rv : RangeVar}
      (hw : n.withClause.1 = before ++ .commonTableExpr name q :: after)
      (h : Reads ((if n.withClause.2 then n.withNames else before.filterMap Node.ctename) ++ scope) q rv) :
      Reads scope n rv

/-- The session: its search path, and which tables there are. -/
structure Postgres where
  searchPath : List String
  hasTable : TableRef → Bool

/-- The table a reference stands for. -/
def Postgres.locate (pg : Postgres) (rv : RangeVar) : Option TableRef :=
  if rv.schemaname ≠ "" then some ⟨rv.schemaname, rv.relname⟩
  else (pg.searchPath.map fun schema => (⟨schema, rv.relname⟩ : TableRef)).find? pg.hasTable

/-- **The statements read or write the entity's table.** -/
def Postgres.Touches (pg : Postgres) (stmts : List Node) (e : Entity) : Prop :=
  ∃ stmt ∈ stmts, ∃ rv, Reads [] stmt rv ∧ pg.locate rv = some (qualifiedTable e)

end Atlantis.RawSql
