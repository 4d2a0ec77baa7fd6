import Atlantis.Codegen.Diff

/-!
# `Codegen.Sql` — emitting migrations

`internal/codegen/sql.go`. The emitters write one statement a line; here a script is the list of its
statements, without the comment lines. Every change is emitted on its own, to the up and to the down script,
by `emitChange`; a script is what the changes emit, class by class, with the added entities of a class moved
to the front in an order in which foreign keys find their targets.
-/

namespace Atlantis.Codegen

open Schema Pg

/-! ## Rendering -/

/-- `columnDecl`. -/
def columnDecl (f : Field) : ColumnDecl where
  name := f.name
  spec :=
    if f.serial then .bigserial
    else if f.identity then .identity (sqlType f.type)
    else .plain (sqlType f.type) (f.notNull && !f.primary) (f.default.map defaultExpr)
  unique := f.unique && !f.primary
  check := f.check

/-- The clause `ON DELETE …` / `ON UPDATE …`, absent for `RefActionUnset`. -/
def fkAction : RefAction → FkAction
  | .unset => .noAction
  | .cascade => .cascade
  | .restrict => .restrict
  | .setNull => .setNull

/-- `fkConstraintBody`. -/
def fkConstraintBody (field : String) (r : Ref) : Constraint :=
  .foreignKey field (fkTargetRef r) r.targetField (fkAction r.onDelete) (fkAction r.onUpdate)

/-- `indexFieldList`. -/
def indexFieldList (fs : List IndexField) : List IndexItem :=
  fs.map fun f => ⟨f.isExpr, if f.isExpr then f.expr else f.name, f.desc⟩

/-- What `emitIndexCreate` writes after the name. -/
def indexBody : Index → IndexBody
  | .btree fields => ⟨.btree, false, indexFieldList fields, none⟩
  | .partialBtree fields filter unique => ⟨.btree, unique, indexFieldList fields, filter.map renderPred⟩
  | .hnsw field ops => ⟨.hnsw ops.text, false, [⟨false, field, false⟩], none⟩
  | .gin field => ⟨.gin, false, [⟨false, field, false⟩], none⟩

/-! ## Emitters -/

def emitIndexCreate (e : Entity) (idx : Index) : Stmt :=
  .createIndex (qualifiedTable e) (indexName e idx) (indexBody idx)

def emitIndexDrop (e : Entity) (idx : Index) : Stmt := .dropIndex (entitySchema e) (indexName e idx)

def emitFKAdd (e : Entity) (field : String) (r : Ref) : Stmt :=
  .addConstraint (qualifiedTable e) (fkName e field) (fkConstraintBody field r)

def emitFKDrop (e : Entity) (field : String) : Stmt := .dropConstraint (qualifiedTable e) (fkName e field)

def emitFieldAdd (e : Entity) (f : Field) : List Stmt :=
  .addColumn (qualifiedTable e) (columnDecl f)
    :: (match f.ref with
        | some r => [emitFKAdd e f.name r]
        | none => [])

def emitFieldDrop (e : Entity) (name : String) : Stmt := .dropColumn (qualifiedTable e) name

def emitNotNull (e : Entity) (field : String) (on : Bool) : Stmt := .setNotNull (qualifiedTable e) field on

def emitTypeChange (e : Entity) (field : String) (t : FieldType) : Stmt :=
  .setType (qualifiedTable e) field (sqlType t)

def emitDefault (e : Entity) (field : String) (d : Option Default) : Stmt :=
  .setDefault (qualifiedTable e) field (d.map defaultExpr)

def emitCompositeUnique (e : Entity) (fields : List String) (on : Bool) : Stmt :=
  if on then .addConstraint (qualifiedTable e) (compositeUniqueName e fields) (.unique fields)
  else .dropConstraint (qualifiedTable e) (compositeUniqueName e fields)

def emitUnique (e : Entity) (field : String) (on : Bool) : Stmt :=
  if on then .addConstraint (qualifiedTable e) (uqName e field) (.unique [field])
  else .dropConstraint (qualifiedTable e) (uqName e field)

/-- `emitTouchTrigger`. -/
def emitTouchTrigger (e : Entity) : List Stmt :=
  if e.touchOnUpdateField = "" then []
  else
    [.createFunction (triggerName e "touch_fn") e.touchOnUpdateField,
      .dropTrigger (qualifiedTable e) (triggerName e "touch"),
      .createTrigger (qualifiedTable e) (triggerName e "touch") (triggerName e "touch_fn")]

/-- The constraints written after one column of a `CREATE TABLE`. -/
def fieldConstraints (e : Entity) (f : Field) : List (String × Constraint) :=
  (match f.ref with
    | some r => [(fkName e f.name, fkConstraintBody f.name r)]
    | none => [])
  ++ (if f.primary && e.compositePK.isEmpty then [(pkName e, .primaryKey [f.name])] else [])

/-- The name of a check: the declared one, or one by its position. -/
def checkName (e : Entity) (c : TableCheck) (i : Nat) : String :=
  if c.name = "" then tableName e ++ "_check_" ++ toString (i + 1) else c.name

/-- The table-level constraints of a `CREATE TABLE`. -/
def tableConstraints (e : Entity) : List (String × Constraint) :=
  e.fields.flatMap (fieldConstraints e)
    ++ (if e.compositePK.isEmpty then [] else [(pkName e, .primaryKey e.compositePK)])
    ++ e.uniques.map (fun u => (compositeUniqueName e u.fields, .unique u.fields))
    ++ e.checks.zipIdx.map fun ci => (checkName e ci.1 ci.2, .check ci.1.expr)

/-- `emitEntityCreate`. -/
def emitEntityCreate (e : Entity) : List Stmt :=
  .createTable (qualifiedTable e) (e.fields.map columnDecl) (tableConstraints e)
    :: e.indexes.map (emitIndexCreate e)
    ++ (if e.kind = .hypertable then [.createHypertable (qualifiedTable e) e.timeField] else [])
    ++ emitTouchTrigger e

/-- `emitEntityDrop`. -/
def emitEntityDrop (e : Entity) : List Stmt :=
  .dropTable (qualifiedTable e)
    :: (if e.touchOnUpdateField = "" then [] else [.dropFunction (triggerName e "touch_fn")])

/-! ## Changes -/

/-- The statements of one change, up and down. -/
structure Emitted where
  up : List Stmt
  down : List Stmt
  deriving DecidableEq, Repr

/-- What a change emits when the entity and field it names are at hand, and nothing otherwise (the source
    would fail on a nil pointer; `ComputeDiff` names only what is there). -/
def withField (e : Option Entity) (field : String) (k : Entity → Field → Emitted) : Emitted :=
  match e with
  | some e =>
    match e.findField field with
    | some f => k e f
    | none => ⟨[], []⟩
  | none => ⟨[], []⟩

def withEntity (e : Option Entity) (k : Entity → Emitted) : Emitted :=
  match e with
  | some e => k e
  | none => ⟨[], []⟩

/-- `emitChange`. The kinds listed last emit comments only. -/
def emitChange (newIR oldIR : IR) (ch : Change) : Emitted :=
  let newE := entityByID newIR ch.entityID
  let oldE := entityByID oldIR ch.entityID
  match ch.kind with
  | .entityAdded => withEntity newE fun e => ⟨emitEntityCreate e, emitEntityDrop e⟩
  | .entityRemoved => withEntity oldE fun e => ⟨emitEntityDrop e, emitEntityCreate e⟩
  | .fieldAdded => withField newE ch.field fun e f => ⟨emitFieldAdd e f, [emitFieldDrop e f.name]⟩
  | .fieldRemoved => withField oldE ch.field fun e f => ⟨[emitFieldDrop e f.name], emitFieldAdd e f⟩
  | .fieldNotNullTightened => withEntity newE fun e =>
    ⟨[emitNotNull e ch.field true], [emitNotNull e ch.field false]⟩
  | .fieldNotNullLoosened => withEntity newE fun e =>
    ⟨[emitNotNull e ch.field false], [emitNotNull e ch.field true]⟩
  | .fieldTypeChanged => withField newE ch.field fun e f => withField oldE ch.field fun oldE oldF =>
    ⟨[emitTypeChange e ch.field f.type], [emitTypeChange oldE ch.field oldF.type]⟩
  | .fieldDefaultChanged => withField newE ch.field fun e f => withField oldE ch.field fun oldE oldF =>
    ⟨[emitDefault e ch.field f.default], [emitDefault oldE ch.field oldF.default]⟩
  | .fieldUniqueAdded => withEntity newE fun e =>
    ⟨[emitUnique e ch.field true], [emitUnique e ch.field false]⟩
  | .fieldUniqueRemoved => withEntity newE fun e =>
    ⟨[emitUnique e ch.field false], [emitUnique e ch.field true]⟩
  | .compositeUniqueAdded u => withEntity newE fun e =>
    ⟨[emitCompositeUnique e u.fields true], [emitCompositeUnique e u.fields false]⟩
  | .compositeUniqueRemoved u => withEntity (newE.or oldE) fun e =>
    ⟨[emitCompositeUnique e u.fields false], [emitCompositeUnique e u.fields true]⟩
  | .fieldReferenceAdded => withField newE ch.field fun e f =>
    match f.ref with
    | some r => ⟨[emitFKAdd e f.name r], [emitFKDrop e f.name]⟩
    | none => ⟨[], []⟩
  | .fieldReferenceRemoved => withField oldE ch.field fun e f =>
    match f.ref with
    | some r => ⟨[emitFKDrop e f.name], [emitFKAdd e f.name r]⟩
    | none => ⟨[], []⟩
  | .fieldReferenceModified => withField newE ch.field fun e f => withField oldE ch.field fun oldE oldF =>
    match f.ref, oldF.ref with
    | some r, some oldR =>
      ⟨[emitFKDrop oldE oldF.name, emitFKAdd e f.name r],
        [emitFKDrop e f.name, emitFKAdd oldE oldF.name oldR]⟩
    | _, _ => ⟨[], []⟩
  | .indexAdded idx => withEntity newE fun e => ⟨[emitIndexCreate e idx], [emitIndexDrop e idx]⟩
  | .indexRemoved idx => withEntity (newE.or oldE) fun e => ⟨[emitIndexDrop e idx], [emitIndexCreate e idx]⟩
  | .queryTimeoutChanged | .fieldBackfillAdded | .fieldBackfillRemoved | .fieldBackfillChanged
  | .fieldSerialAdded | .fieldSerialRemoved | .entityTableChanged => ⟨[], []⟩

/-! ## Ordering added entities -/

/-- `visit` inside `topoSortEntities`: `gray` is the stack, `out` the entities done. The stack holds
    different IDs, so `fuel` one above their number is never used up. -/
def topoVisit (entities : List Entity) : (fuel : Nat) → (gray : List String) → List Entity → String →
    Except String (List Entity)
  | 0, _, _, id => .error ("FK cycle detected involving " ++ id)
  | fuel + 1, gray, out, id =>
    if gray.contains id then .error ("FK cycle detected involving " ++ id)
    else if (out.map Entity.id).contains id then .ok out
    else
      match lastWith Entity.id id entities with
      | none => .ok out
      | some e => do
          let out ← (e.fields.filterMap (·.ref)).foldlM
            (fun out r =>
              if r.targetID = id ∨ (lastWith Entity.id r.targetID entities).isNone then .ok out
              else topoVisit entities fuel (id :: gray) out r.targetID) out
          pure (out ++ [e])

/-- `topoSortEntities`. -/
def topoSortEntities (entities : List Entity) : Except String (List Entity) :=
  (sortStrings (entities.map Entity.id).dedup).foldlM (topoVisit entities (entities.length + 1) []) []

/-- `reorderEntityAddsByFKDependency`. -/
def reorderEntityAddsByFKDependency (newIR : IR) (changes : List Change) : List Change :=
  let adds := changes.filter (·.kind = .entityAdded)
  let rest := changes.filter (·.kind ≠ .entityAdded)
  if adds.length ≤ 1 then changes
  else
    match topoSortEntities (adds.filterMap fun ch => entityByID newIR ch.entityID) with
    | .error _ => changes
    | .ok sorted => sorted.filterMap (fun e => lastWith Change.entityID e.id adds) ++ rest

/-! ## Scripts -/

/-- The changes in the order they are emitted. -/
def emissionOrder (newIR : IR) (d : Diff) : List Change :=
  reorderEntityAddsByFKDependency newIR d.additive
    ++ reorderEntityAddsByFKDependency newIR d.backfillRequired
    ++ reorderEntityAddsByFKDependency newIR d.breaking

/-- The schemas a set of entities needs, apart from the two that are always there. -/
def foreignSchemas (es : List Entity) : List String :=
  sortStrings ((es.map entitySchema).filter fun s => s ≠ "atlantis" ∧ s ≠ "public").dedup

/-- `collectNewSchemas`. -/
def collectNewSchemas (newIR : IR) (additive : List Change) : List String :=
  foreignSchemas ((additive.filter (·.kind = .entityAdded)).filterMap fun ch => entityByID newIR ch.entityID)

/-- `EmitSQL(oldIR, newIR, d).Up`. -/
def emitUp (oldIR newIR : IR) (d : Diff) : List Stmt :=
  (collectNewSchemas newIR d.additive).map .createSchema
    ++ (emissionOrder newIR d).flatMap fun ch => (emitChange newIR oldIR ch).up

/-- `EmitSQL(oldIR, newIR, d).Down`. -/
def emitDown (oldIR newIR : IR) (d : Diff) : List Stmt :=
  (emissionOrder newIR d).flatMap fun ch => (emitChange newIR oldIR ch).down

/-- `EmitInitial(newIR).Up`. -/
def emitInitial (newIR : IR) : Except String (List Stmt) := do
  let order ← topoSortEntities newIR.entities
  pure (.createSchema "atlantis" :: (foreignSchemas newIR.entities).map .createSchema
    ++ order.flatMap emitEntityCreate)

end Atlantis.Codegen
