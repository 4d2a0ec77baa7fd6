import Mathlib.Data.List.Basic

/-!
# `Pg.Catalog` — data definition statements and the catalog they change

The catalog of a database, as far as schema migrations see it: tables with their columns, named constraints
and triggers, indexes (which live in the schema of their table), and trigger functions. `exec` runs one
statement; it fails where the database would for a reason of the catalog — a table or column that is not
there, a column or constraint name that is taken — and `IF EXISTS` / `IF NOT EXISTS` do what they say.

Names are looked up, never enumerated, so a catalog is a family of functions and two catalogs with the same
objects are equal. Two things stay outside: the rows (see the modules that need them), and dependencies the
database would refuse to break (a key that a foreign key still points to). The columns an SQL expression
mentions are an oracle, `mentions`.
-/

namespace Atlantis.Pg

/-- A schema-qualified table. -/
structure TableRef where
  schema : String
  table : String
  deriving DecidableEq, Repr

/-- What a foreign key does to the referencing rows. -/
inductive FkAction where
  | noAction | cascade | restrict | setNull
  deriving DecidableEq, Repr

/-- A column default: an expression, or the sequence of a serial column. -/
inductive ColDefault where
  | expr (sql : String)
  | nextval
  deriving DecidableEq, Repr

structure Column where
  type : String
  notNull : Bool
  default : Option ColDefault
  identity : Bool
  deriving DecidableEq, Repr

inductive Constraint where
  | primaryKey (cols : List String)
  | unique (cols : List String)
  | foreignKey (col : String) (target : TableRef) (targetCol : String) (onDelete onUpdate : FkAction)
  | check (expr : String)
  deriving DecidableEq, Repr

/-- One item of an index: a column or an expression, and its direction. -/
structure IndexItem where
  isExpr : Bool
  text : String
  desc : Bool
  deriving DecidableEq, Repr

inductive IndexMethod where
  | btree
  | hnsw (ops : String)
  | gin
  deriving DecidableEq, Repr

/-- What an index is, apart from its name. -/
structure IndexBody where
  method : IndexMethod
  unique : Bool
  items : List IndexItem
  filter : Option String
  deriving DecidableEq, Repr

structure Table where
  columns : String → Option Column
  constraints : String → Option Constraint
  triggers : String → Option String
  hypertable : Option String

/-- The indexes of each schema, by name. -/
def Indexes := String → String → Option (TableRef × IndexBody)

/-- `CREATE INDEX IF NOT EXISTS`: nothing happens when the name is taken, whatever it stands for. -/
def Indexes.add (ix : Indexes) (t : TableRef) (name : String) (body : IndexBody) : Indexes := fun s n =>
  if s = t.schema ∧ n = name ∧ (ix s n).isNone then some (t, body) else ix s n

/-- `DROP INDEX IF EXISTS`. -/
def Indexes.erase (ix : Indexes) (schema name : String) : Indexes := fun s n =>
  if s = schema ∧ n = name then none else ix s n

@[ext]
structure Catalog where
  tables : TableRef → Option Table
  indexes : Indexes
  functions : String → Option String

/-- A table without columns. -/
def Table.empty : Table := ⟨fun _ => none, fun _ => none, fun _ => none, none⟩

def Indexes.empty : Indexes := fun _ _ => none

/-- A database without tables. -/
def Catalog.empty : Catalog := ⟨fun _ => none, Indexes.empty, fun _ => none⟩

/-! ## Statements -/

/-- The type part of a column declaration. -/
inductive ColumnSpec where
  | bigserial
  | identity (type : String)
  | plain (type : String) (notNull : Bool) (default : Option String)
  deriving DecidableEq, Repr

structure ColumnDecl where
  name : String
  spec : ColumnSpec
  unique : Bool
  check : String
  deriving DecidableEq, Repr

/-- The statements migrations are made of. `createTable`, `createIndex` and `createSchema` carry
    `IF NOT EXISTS`; `dropTable` carries `IF EXISTS … CASCADE`; `dropConstraint`, `dropIndex`, `dropTrigger`
    and `dropFunction` carry `IF EXISTS`; `createFunction` is `CREATE OR REPLACE`. -/
inductive Stmt where
  | createSchema (name : String)
  | createTable (t : TableRef) (cols : List ColumnDecl) (constraints : List (String × Constraint))
  | dropTable (t : TableRef)
  | addColumn (t : TableRef) (d : ColumnDecl)
  | dropColumn (t : TableRef) (col : String)
  | setNotNull (t : TableRef) (col : String) (on : Bool)
  | setType (t : TableRef) (col : String) (type : String)
  | setDefault (t : TableRef) (col : String) (default : Option String)
  | addConstraint (t : TableRef) (name : String) (body : Constraint)
  | dropConstraint (t : TableRef) (name : String)
  | createIndex (t : TableRef) (name : String) (body : IndexBody)
  | dropIndex (schema name : String)
  | createHypertable (t : TableRef) (col : String)
  | createFunction (name col : String)
  | dropFunction (name : String)
  | createTrigger (t : TableRef) (name fn : String)
  | dropTrigger (t : TableRef) (name : String)
  deriving DecidableEq, Repr

/-- Why a statement fails. -/
inductive Err where
  | noTable (t : TableRef)
  | noColumn (t : TableRef) (col : String)
  | columnExists (t : TableRef) (col : String)
  | constraintExists (t : TableRef) (name : String)
  | noFunction (name : String)
  | triggerExists (t : TableRef) (name : String)
  deriving DecidableEq, Repr

/-! ## Running them -/

/-- The column a declaration makes. -/
def ColumnSpec.column : ColumnSpec → Column
  | .bigserial => ⟨"BIGINT", true, some .nextval, false⟩
  | .identity type => ⟨type, true, none, true⟩
  | .plain type notNull default => ⟨type, notNull, default.map .expr, false⟩

/-- The name the database gives to a `UNIQUE` written on a column. -/
def inlineUniqueName (t : TableRef) (col : String) : String := t.table ++ "_" ++ col ++ "_key"

/-- The name the database gives to a `CHECK` written on a column. -/
def inlineCheckName (t : TableRef) (col : String) : String := t.table ++ "_" ++ col ++ "_check"

/-- The constraint goes when the column does. -/
def Constraint.involves (mentions : String → String → Bool) (col : String) : Constraint → Bool
  | .primaryKey cols => cols.contains col
  | .unique cols => cols.contains col
  | .foreignKey c _ _ _ _ => c == col
  | .check expr => mentions expr col

/-- The index goes when the column does. -/
def IndexBody.involves (mentions : String → String → Bool) (col : String) (b : IndexBody) : Bool :=
  b.items.any (fun i => if i.isExpr then mentions i.text col else i.text == col)
    || b.filter.any (mentions · col)

/-- The column is `NOT NULL` from now on, or no longer. -/
def Table.markNotNull (tbl : Table) (on : Bool) (cols : List String) : Table :=
  { tbl with columns := fun c =>
      if cols.contains c then (tbl.columns c).map fun x => { x with notNull := on } else tbl.columns c }

/-- Record a constraint; a primary key makes its columns `NOT NULL`. -/
def Table.addConstraint (t : TableRef) (tbl : Table) (name : String) (body : Constraint) :
    Except Err Table :=
  if (tbl.constraints name).isSome then .error (.constraintExists t name)
  else
    let tbl := { tbl with constraints := Function.update tbl.constraints name (some body) }
    match body with
    | .primaryKey cols => .ok (tbl.markNotNull true cols)
    | _ => .ok tbl

/-- The constraints written on a column, under their names. -/
def inlineConstraints (t : TableRef) (d : ColumnDecl) : List (String × Constraint) :=
  (if d.unique then [(inlineUniqueName t d.name, .unique [d.name])] else [])
    ++ (if d.check = "" then [] else [(inlineCheckName t d.name, .check d.check)])

/-- Add a column and then the constraints written on it. Where the name of one is taken Postgres would pick another; such
    a statement is refused here. -/
def Table.addColumn (t : TableRef) (tbl : Table) (d : ColumnDecl) : Except Err Table :=
  if (tbl.columns d.name).isSome then .error (.columnExists t d.name)
  else
    (inlineConstraints t d).foldlM (fun tbl nb => tbl.addConstraint t nb.1 nb.2)
      { tbl with columns := Function.update tbl.columns d.name (some d.spec.column) }

/-- All the columns are there. -/
def Table.checkColumns (t : TableRef) (tbl : Table) (cols : List String) : Except Err Unit :=
  match cols.find? fun c => (tbl.columns c).isNone with
  | some c => .error (.noColumn t c)
  | none => .ok ()

theorem Table.checkColumns_iff {t : TableRef} {tbl : Table} {cols : List String} :
    tbl.checkColumns t cols = .ok () ↔ ∀ col ∈ cols, (tbl.columns col).isSome := by
  unfold Table.checkColumns
  cases h : cols.find? fun c => (tbl.columns c).isNone with
  | none => simpa [List.find?_eq_none, Option.isSome_iff_ne_none] using h
  | some col =>
    simp only [reduceCtorEq, false_iff, not_forall]
    exact ⟨col, List.mem_of_find?_eq_some h, by simpa using List.find?_some h⟩

namespace Catalog

variable (c : Catalog)

def table (t : TableRef) : Except Err Table :=
  match c.tables t with
  | some tbl => .ok tbl
  | none => .error (.noTable t)

def setTable (t : TableRef) (tbl : Table) : Catalog :=
  { c with tables := Function.update c.tables t (some tbl) }

/-- The columns a constraint of `tbl` names are there; a foreign key may point back to its own table. -/
def checkConstraint (t : TableRef) (tbl : Table) : Constraint → Except Err Unit
  | .primaryKey cols => tbl.checkColumns t cols
  | .unique cols => tbl.checkColumns t cols
  | .foreignKey col target targetCol _ _ => do
      tbl.checkColumns t [col]
      let targetTbl ← if target = t then .ok tbl else c.table target
      targetTbl.checkColumns target [targetCol]
  | .check _ => .ok ()

/-- `ALTER TABLE t ADD CONSTRAINT`, on the table itself. -/
def addConstraintTo (t : TableRef) (tbl : Table) (name : String) (body : Constraint) : Except Err Table := do
  c.checkConstraint t tbl body
  tbl.addConstraint t name body

/-- The table a `CREATE TABLE` makes. -/
def buildTable (t : TableRef) (cols : List ColumnDecl) (constraints : List (String × Constraint)) :
    Except Err Table := do
  let tbl ← cols.foldlM (fun tbl d => tbl.addColumn t d) Table.empty
  constraints.foldlM (fun tbl nb => c.addConstraintTo t tbl nb.1 nb.2) tbl

/-- Change one column of a table. -/
def alterColumn (t : TableRef) (col : String) (f : Column → Column) : Except Err Catalog := do
  let tbl ← c.table t
  tbl.checkColumns t [col]
  pure (c.setTable t { tbl with columns := Function.update tbl.columns col ((tbl.columns col).map f) })

end Catalog

/-- A table without its foreign keys to `t`. -/
def Table.dropRefsTo (t : TableRef) (tbl : Table) : Table :=
  { tbl with constraints := fun n => (tbl.constraints n).filter fun b =>
      match b with
      | .foreignKey _ target _ _ _ => !(target == t)
      | _ => true }

/-- A table without a column and everything on it that involves the column. -/
def Table.dropColumn (mentions : String → String → Bool) (col : String) (tbl : Table) : Table :=
  { tbl with
    columns := Function.update tbl.columns col none
    constraints := fun n => (tbl.constraints n).filter fun b => !b.involves mentions col }

/-- The columns an index names directly. -/
def IndexBody.columns (b : IndexBody) : List String :=
  b.items.filterMap fun i => if i.isExpr then none else some i.text

/-- **Run one statement.** -/
def exec (mentions : String → String → Bool) (c : Catalog) : Stmt → Except Err Catalog
  | .createSchema _ => .ok c
  | .createTable t cols constraints =>
    if (c.tables t).isSome then .ok c
    else do
      let tbl ← c.buildTable t cols constraints
      pure (c.setTable t tbl)
  | .dropTable t =>
    if (c.tables t).isSome then
      .ok { c with
        tables := fun t' => if t' = t then none else (c.tables t').map (Table.dropRefsTo t)
        indexes := fun s n => (c.indexes s n).filter fun x => !(x.1 == t) }
    else .ok c
  | .addColumn t d => do
      let tbl ← c.table t
      let tbl ← tbl.addColumn t d
      pure (c.setTable t tbl)
  | .dropColumn t col => do
      let tbl ← c.table t
      tbl.checkColumns t [col]
      let c := c.setTable t (tbl.dropColumn mentions col)
      pure { c with indexes := fun s n =>
        (c.indexes s n).filter fun x => !(x.1 == t && x.2.involves mentions col) }
  | .setNotNull t col on => c.alterColumn t col fun x => { x with notNull := on }
  | .setType t col type => c.alterColumn t col fun x => { x with type := type }
  | .setDefault t col default => c.alterColumn t col fun x => { x with default := default.map .expr }
  | .addConstraint t name body => do
      let tbl ← c.table t
      let tbl ← c.addConstraintTo t tbl name body
      pure (c.setTable t tbl)
  | .dropConstraint t name => do
      let tbl ← c.table t
      pure (c.setTable t { tbl with constraints := Function.update tbl.constraints name none })
  | .createIndex t name body => do
      let tbl ← c.table t
      tbl.checkColumns t body.columns
      pure { c with indexes := c.indexes.add t name body }
  | .dropIndex schema name => .ok { c with indexes := c.indexes.erase schema name }
  | .createHypertable t col => do
      let tbl ← c.table t
      tbl.checkColumns t [col]
      pure (c.setTable t { tbl with hypertable := some col })
  | .createFunction name col => .ok { c with functions := Function.update c.functions name (some col) }
  | .dropFunction name => .ok { c with functions := Function.update c.functions name none }
  | .createTrigger t name fn => do
      let tbl ← c.table t
      if (c.functions fn).isNone then .error (.noFunction fn)
      else if (tbl.triggers name).isSome then .error (.triggerExists t name)
      else pure (c.setTable t { tbl with triggers := Function.update tbl.triggers name (some fn) })
  | .dropTrigger t name => do
      let tbl ← c.table t
      pure (c.setTable t { tbl with triggers := Function.update tbl.triggers name none })

/-- **Run a script** from top to bottom; the first statement that fails stops it. -/
def run (mentions : String → String → Bool) (stmts : List Stmt) (c : Catalog) : Except Err Catalog :=
  stmts.foldlM (exec mentions) c

/-- Why a script failed, if it did. -/
def errOf : Except Err Catalog → Option Err
  | .error e => some e
  | .ok _ => none

variable {mentions : String → String → Bool} {c : Catalog}

theorem run_cons (s : Stmt) (ss : List Stmt) :
    run mentions (s :: ss) c = (exec mentions c s >>= run mentions ss) := by
  unfold run
  rw [List.foldlM_cons]

theorem run_append (ss ss' : List Stmt) :
    run mentions (ss ++ ss') c = (run mentions ss c >>= run mentions ss') := by
  unfold run
  rw [List.foldlM_append]

/-- A script made of parts runs part by part. -/
theorem run_flatMap {α : Type} (f : α → List Stmt) (l : List α) :
    run mentions (l.flatMap f) c = l.foldlM (fun c x => run mentions (f x) c) c := by
  induction l generalizing c with
  | nil => rfl
  | cons x l ih =>
    rw [List.flatMap_cons, run_append, List.foldlM_cons]
    congr 1
    funext c'
    exact ih

/-! ## Scripts of index statements -/

/-- What a statement about indexes does to them. -/
def Indexes.step (ix : Indexes) : Stmt → Indexes
  | .createIndex t name body => ix.add t name body
  | .dropIndex schema name => ix.erase schema name
  | _ => ix

/-- A script of index statements, run on the indexes alone. -/
def Indexes.run (ix : Indexes) (stmts : List Stmt) : Indexes := stmts.foldl Indexes.step ix

theorem Indexes.run_append (ix : Indexes) (ss ss' : List Stmt) : ix.run (ss ++ ss') = (ix.run ss).run ss' :=
  List.foldl_append

/-- Creating indexes one after the other: a name keeps what it has, or takes the first index that wants it. -/
theorem Indexes.run_creates (ix : Indexes) (l : List (TableRef × String × IndexBody)) (s n : String) :
    ix.run (l.map fun a => .createIndex a.1 a.2.1 a.2.2) s n
      = (ix s n).or ((l.find? fun a => a.1.schema = s ∧ a.2.1 = n).map fun a => (a.1, a.2.2)) := by
  induction l generalizing ix with
  | nil => simp [Indexes.run]
  | cons a l ih =>
    show (ix.add a.1 a.2.1 a.2.2).run _ s n = _
    rw [ih]
    unfold Indexes.add
    by_cases hs : a.1.schema = s
    · by_cases hn : a.2.1 = n
      · cases ix s n <;> simp [hs, hn]
      · have hne : ¬ n = a.2.1 := fun h => hn h.symm
        simp [hn, hne]
    · have hne : ¬ s = a.1.schema := fun h => hs h.symm
      simp [hs, hne]

/-- Where no two want one name, every index is there. -/
theorem Indexes.run_creates_empty {l : List (TableRef × String × IndexBody)}
    (hapart : ∀ a ∈ l, ∀ b ∈ l, a.1.schema = b.1.schema → a.2.1 = b.2.1 → a = b) {s n : String}
    {x : TableRef × IndexBody} : Indexes.empty.run (l.map fun a => .createIndex a.1 a.2.1 a.2.2) s n = some x ↔
      ∃ a ∈ l, a.1.schema = s ∧ a.2.1 = n ∧ (a.1, a.2.2) = x := by
  rw [Indexes.run_creates]
  show (none.or _) = some x ↔ _
  rw [Option.none_or, Option.map_eq_some_iff]
  constructor
  · rintro ⟨a, ha, hx⟩
    have hfound : a.1.schema = s ∧ a.2.1 = n := by simpa using List.find?_some ha
    exact ⟨a, List.mem_of_find?_eq_some ha, hfound.1, hfound.2, hx⟩
  · rintro ⟨a, ha, hs, hn, hx⟩
    have hsome : (l.find? fun a => a.1.schema = s ∧ a.2.1 = n).isSome := by
      rw [List.find?_isSome]
      exact ⟨a, ha, by simp [hs, hn]⟩
    obtain ⟨b, hb⟩ := Option.isSome_iff_exists.mp hsome
    have hfound : b.1.schema = s ∧ b.2.1 = n := by simpa using List.find?_some hb
    refine ⟨b, hb, ?_⟩
    rw [← hx, hapart a ha b (List.mem_of_find?_eq_some hb) (hs.trans hfound.1.symm) (hn.trans hfound.2.symm)]

/-- Where the tables have the columns the indexes name, that is what the script does to a catalog. -/
theorem run_indexes {mentions : String → String → Bool} {stmts : List Stmt} {c : Catalog}
    (hstmts : ∀ s ∈ stmts,
      (∃ t name body tbl, s = .createIndex t name body ∧ c.tables t = some tbl ∧
        ∀ col ∈ body.columns, (tbl.columns col).isSome) ∨
      ∃ schema name, s = .dropIndex schema name) :
    run mentions stmts c = .ok { c with indexes := c.indexes.run stmts } := by
  induction stmts generalizing c with
  | nil => rfl
  | cons s stmts ih =>
    rw [run_cons]
    have hrest := fun s hs => hstmts s (List.mem_cons_of_mem _ hs)
    rcases hstmts s List.mem_cons_self with ⟨t, name, body, tbl, rfl, htbl, hcols⟩ | ⟨schema, name, rfl⟩
    · have hstep : exec mentions c (.createIndex t name body)
          = .ok { c with indexes := c.indexes.add t name body } := by
        simp only [exec, Catalog.table, htbl, Table.checkColumns_iff.mpr hcols, bind, Except.bind, pure, Except.pure]
      rw [hstep]
      exact ih hrest
    · exact ih hrest

end Atlantis.Pg
