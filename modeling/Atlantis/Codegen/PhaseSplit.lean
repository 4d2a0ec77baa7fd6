import Atlantis.Codegen.Sql

/-!
# `Codegen.PhaseSplit` — migrations around a chunked backfill

The second half of `EmitSQL` in `internal/codegen/sql.go`. When a change makes a backfilled field `NOT NULL`, the
changes are walked once more and routed to two scripts: one that runs before the rows are filled, with the
constraint left out, and one that runs after and only sets it. Between them a worker fills the listed fields.

The walk takes the changes in the order of the diff; unlike the single script it does not move the added entities
into an order in which foreign keys find their targets.
-/

namespace Atlantis.Codegen

open Schema Pg

/-- `codegen.BackfillField`. -/
structure BackfillField where
  entityID : String
  field : String
  expression : String
  pkColumn : String
  tableName : String
  deriving DecidableEq, Repr

/-- `isBackfilledFieldInDiff`. -/
def isBackfilledFieldInDiff (newIR : IR) (ch : Change) : Bool :=
  if ch.kind ≠ .fieldAdded ∧ ch.kind ≠ .fieldNotNullTightened then false
  else
    match entityByID newIR ch.entityID with
    | none => false
    | some e =>
      match e.findField ch.field with
      | none => false
      | some f => f.backfill ≠ "" && !(decide (ch.kind = .fieldAdded) && !f.notNull)

/-- `needsPhaseSplit`. -/
def needsPhaseSplit (newIR : IR) (d : Diff) : Bool :=
  d.backfillRequired.any (isBackfilledFieldInDiff newIR) || d.additive.any (isBackfilledFieldInDiff newIR)

/-- `emitFieldAddNullable`. -/
def emitFieldAddNullable (e : Entity) (f : Field) : List Stmt :=
  .addColumn (qualifiedTable e) (columnDecl { f with notNull := false })
    :: (match f.ref with
        | some r => [emitFKAdd e f.name r]
        | none => [])

/-- `backfillIndexName`. -/
def backfillIndexName (e : Entity) (fieldName : String) : String :=
  Schema.tableName e ++ "_" ++ fieldName ++ "_backfill_idx"

/-- `primaryKeyColumn`. -/
def primaryKeyColumn (e : Entity) : String := (e.primaryField.map Field.name).getD ""

/-- What one change writes to the two scripts, and the field it defers. -/
structure SplitChange where
  pre : List Stmt := []
  post : List Stmt := []
  deferred : Option (String × String) := none
  deriving DecidableEq, Repr

/-- `emitPhaseSplitChange`. -/
def emitPhaseSplitChange (newIR oldIR : IR) (ch : Change) : SplitChange :=
  let plain : SplitChange := ⟨(emitChange newIR oldIR ch).up, [], none⟩
  match entityByID newIR ch.entityID with
  | none => plain
  | some e =>
    match ch.kind, e.findField ch.field with
    | .fieldAdded, some f =>
      if f.backfill ≠ "" ∧ f.notNull then
        ⟨emitFieldAddNullable e f, [emitNotNull e ch.field true], some (ch.entityID, ch.field)⟩
      else plain
    | .fieldNotNullTightened, some f =>
      if f.backfill ≠ "" then ⟨[], [emitNotNull e ch.field true], some (ch.entityID, ch.field)⟩ else plain
    | _, _ => plain

/-- The scripts around the backfill. -/
structure PhaseSplit where
  preBackfillUp : List Stmt
  preBackfillIndexes : List Stmt
  postBackfillUp : List Stmt
  postBackfillIndexes : List Stmt
  backfillFields : List BackfillField
  deriving DecidableEq, Repr

/-- What the loop over the deferred fields does for one of them: the partial index that brackets the backfill
    and the worker's entry, nothing without a single-column key. -/
def deferredEntry (newIR : IR) (key : String × String) : Option (Stmt × Stmt × BackfillField) :=
  match entityByID newIR key.1 with
  | none => none
  | some e =>
    match e.findField key.2 with
    | none => none
    | some f =>
      let pk := primaryKeyColumn e
      if pk = "" then none
      else
        let name := backfillIndexName e key.2
        let body : IndexBody := ⟨.btree, false, [⟨false, pk, false⟩], some (quoteIdent key.2 ++ " IS NULL")⟩
        let table := qualifiedTable e
        some (.createIndex table name body, .dropIndex (entitySchema e) name,
          ⟨key.1, key.2, f.backfill, pk, quoteIdent table.schema ++ "." ++ quoteIdent table.table⟩)

/-- **`buildPhaseSplit`.** The deferred fields are the keys of a map. -/
def buildPhaseSplit (ord : RangeOrder) (oldIR newIR : IR) (d : Diff) : PhaseSplit :=
  let parts := (d.additive ++ d.backfillRequired ++ d.breaking).map (emitPhaseSplitChange newIR oldIR)
  let deferred := (ord.order "deferred" (parts.filterMap SplitChange.deferred).dedup).filterMap (deferredEntry newIR)
  { preBackfillUp := (collectNewSchemas newIR d.additive).map .createSchema ++ parts.flatMap SplitChange.pre
    preBackfillIndexes := deferred.map fun x => x.1
    postBackfillUp := parts.flatMap SplitChange.post
    postBackfillIndexes := deferred.map fun x => x.2.1
    backfillFields := deferred.map fun x => x.2.2 }

/-- `SQLScripts`; the last five fields of the source are there or not together. -/
structure SQLScripts where
  up : List Stmt
  down : List Stmt
  split : Option PhaseSplit := none
  deriving DecidableEq, Repr

/-- **`EmitSQL`.** -/
def EmitSQL (ord : RangeOrder) (oldIR newIR : IR) (d : Diff) : SQLScripts where
  up := emitUp oldIR newIR d
  down := emitDown oldIR newIR d
  split := if needsPhaseSplit newIR d then some (buildPhaseSplit ord oldIR newIR d) else none

/-- **`EmitInitial`.** Its down script also drops the schema, with everything in it. -/
def EmitInitial (newIR : IR) : Except String SQLScripts := do
  let up ← emitInitial newIR
  let order ← topoSortEntities newIR.entities
  pure { up, down := order.reverse.flatMap emitEntityDrop }

end Atlantis.Codegen
