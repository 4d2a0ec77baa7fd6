import Mathlib.Data.List.Dedup
import Mathlib.Data.List.Sort
import Mathlib.Data.String.Basic
import Atlantis.Schema.Names

/-!
# `Codegen.Diff` — classifying the changes between two schemas

`internal/codegen/diff.go`. A change is a kind, a class and the entity and field it is about; the summaries
for people are left out, and so are changes to cache settings and custom queries, which no migration acts
on. `ComputeDiff` appends changes to one of three lists by class, so the lists are the three parts of one
sequence, in the order the changes are found.

Where the source ranges over a map the order is the runtime's choice: a `RangeOrder` picks it, and every
statement about `ComputeDiff` is for all of them.
-/

namespace Atlantis.Codegen

open Schema

/-! ## Maps -/

/-- The entry of a map filled from a list: the last element with the key. -/
def lastWith {α : Type} (key : α → String) (k : String) (l : List α) : Option α :=
  l.reverse.find? fun x => key x == k

/-- The values of a map filled from a list. -/
def mapValues {α : Type} (key : α → String) (l : List α) : List α :=
  (l.map key).dedup.filterMap fun k => lastWith key k l

/-- The order in which `range` visits a map, for each place in the program. -/
structure RangeOrder where
  order : {α : Type} → String → List α → List α
  perm : ∀ {α : Type} (site : String) (l : List α), (order site l).Perm l

/-- Visit every map in the order its entries were written. -/
def insertionOrder : RangeOrder := ⟨fun _ l => l, fun _ l => .refl l⟩

/-- `sort.Strings`. -/
def sortStrings (l : List String) : List String := l.insertionSort (· ≤ ·)

/-- `indexByID(ir)[id]`. -/
def entityByID (ir : IR) (id : String) : Option Entity := lastWith Entity.id id ir.entities

/-- `fieldsByName(e)[name]`. -/
def fieldByName (e : Entity) (name : String) : Option Field := lastWith Field.name name e.fields

/-- `mergedNames`. -/
def mergedNames (a b : List String) : List String := sortStrings (a ++ b).dedup

/-! ## Changes -/

/-- `ChangeClass`. -/
inductive ChangeClass where
  | additive | backfillRequired | crossCallerBreaking
  deriving DecidableEq, Repr

/-- `ChangeKind`, with the value a kind carries in `From` or `To` where the emitter reads it. -/
inductive ChangeKind where
  | entityAdded | entityRemoved | entityTableChanged
  | fieldAdded | fieldRemoved
  | fieldNotNullTightened | fieldNotNullLoosened
  | fieldTypeChanged | fieldDefaultChanged
  | fieldUniqueAdded | fieldUniqueRemoved
  | fieldReferenceAdded | fieldReferenceRemoved | fieldReferenceModified
  | indexAdded (idx : Index) | indexRemoved (idx : Index)
  | compositeUniqueAdded (u : UniqueSpec) | compositeUniqueRemoved (u : UniqueSpec)
  | fieldSerialAdded | fieldSerialRemoved
  | fieldBackfillAdded | fieldBackfillRemoved | fieldBackfillChanged
  | queryTimeoutChanged
  deriving DecidableEq, Repr

/-- `Change`. -/
structure Change where
  kind : ChangeKind
  cls : ChangeClass
  entityID : String
  field : String := ""
  deriving DecidableEq, Repr

/-- `Diff`. -/
structure Diff where
  additive : List Change
  backfillRequired : List Change
  breaking : List Change
  deriving DecidableEq, Repr

/-- `diffCtx`. -/
structure DiffCtx where
  submittingCaller : String := ""
  entityOwnership : String → Option String := fun _ => none
  crossCallerRefs : String → Bool := fun _ => false

/-- `classifyRemoval`. -/
def DiffCtx.classifyRemoval (ctx : DiffCtx) (entityID refKey : String) : ChangeClass :=
  if ctx.submittingCaller = "" then .crossCallerBreaking
  else if ctx.entityOwnership entityID ≠ some ctx.submittingCaller then .crossCallerBreaking
  else if ctx.crossCallerRefs refKey then .crossCallerBreaking
  else .additive

/-! ## Field types -/

/-- `typeEqual`. -/
def typeEqual (a b : FieldType) : Bool := a == b

/-- `intRank`. -/
def intRank : String → Option Nat
  | "smallint" => some 1
  | "int" => some 2
  | "bigint" => some 3
  | _ => none

/-- `isWidening`. -/
def isWidening (oldName newName : String) : Bool :=
  match intRank oldName, intRank newName with
  | some o, some n => decide (n > o)
  | _, _ => false

/-- `classifyTypeChange`. -/
def classifyTypeChange (oldT newT : FieldType) : ChangeClass :=
  if oldT.isArray ≠ newT.isArray then .crossCallerBreaking
  else if oldT.name = "vector" ∧ newT.name = "vector" then
    if oldT.vecDim ≠ newT.vecDim then .crossCallerBreaking else .additive
  else if oldT.name = newT.name then
    if oldT.name = "numeric" then
      if newT.numP < oldT.numP ∨ newT.numS < oldT.numS then .backfillRequired else .additive
    else if oldT.name = "varchar" then
      if newT.len ≠ 0 ∧ (oldT.len = 0 ∨ newT.len < oldT.len) then .backfillRequired else .additive
    else .additive
  else if isWidening oldT.name newT.name then .additive
  else .backfillRequired

/-! ## Keys -/

/-- `indexFieldKey`, with the direction `indexKey` appends. -/
def indexFieldKey (f : IndexField) : String :=
  (if f.isExpr then "expr:" ++ f.expr else f.name) ++ (if f.desc then " desc" else "")

/-- `indexKey`. -/
def indexKey : Index → String
  | .btree fields => "btree:" ++ ",".intercalate (fields.map indexFieldKey)
  | .partialBtree fields filter unique =>
    (if unique then "unique_partial:" else "partial:") ++ ",".intercalate (fields.map indexFieldKey)
      ++ canonicalKey filter
  | .hnsw field ops => "hnsw:" ++ field ++ ":" ++ ops.text
  | .gin field => "gin:" ++ field

/-- The key of `uniqueSpecKeys`. -/
def uniqueSpecKey (u : UniqueSpec) : String := "\x00".intercalate (sortStrings u.fields)

/-- The rank inside `refActionStrengthened`. -/
def refActionRank : RefAction → Nat
  | .cascade => 1
  | .setNull => 2
  | .restrict => 3
  | .unset => 3

/-- `refActionStrengthened`. -/
def refActionStrengthened (old newAct : RefAction) : Bool := decide (refActionRank newAct > refActionRank old)

/-! ## The diff -/

/-- `diffTableName`. -/
def diffTableName (oldE newE : Entity) : List Change :=
  if oldE.tableName = newE.tableName then []
  else [⟨.entityTableChanged, .crossCallerBreaking, newE.id, ""⟩]

/-- The type part of `diffField`. -/
def diffFieldType (entityID : String) (oldF newF : Field) : List Change :=
  if typeEqual oldF.type newF.type then []
  else [⟨.fieldTypeChanged, classifyTypeChange oldF.type newF.type, entityID, newF.name⟩]

/-- The `NOT NULL` part of `diffField`. -/
def diffFieldNotNull (entityID : String) (oldF newF : Field) : List Change :=
  if !oldF.notNull && newF.notNull then
    [⟨.fieldNotNullTightened, if newF.default.isSome then .additive else .backfillRequired, entityID, newF.name⟩]
  else if oldF.notNull && !newF.notNull then [⟨.fieldNotNullLoosened, .additive, entityID, newF.name⟩]
  else []

/-- The `UNIQUE` part of `diffField`. -/
def diffFieldUnique (entityID : String) (oldF newF : Field) : List Change :=
  if !oldF.unique && newF.unique then [⟨.fieldUniqueAdded, .backfillRequired, entityID, newF.name⟩]
  else if oldF.unique && !newF.unique then [⟨.fieldUniqueRemoved, .additive, entityID, newF.name⟩]
  else []

/-- The `DEFAULT` part of `diffField`. -/
def diffFieldDefault (entityID : String) (oldF newF : Field) : List Change :=
  if oldF.default = newF.default then [] else [⟨.fieldDefaultChanged, .additive, entityID, newF.name⟩]

/-- The backfill part of `diffField`. -/
def diffFieldBackfill (entityID : String) (oldF newF : Field) : List Change :=
  if oldF.backfill = newF.backfill then []
  else if oldF.backfill = "" then [⟨.fieldBackfillAdded, .additive, entityID, newF.name⟩]
  else if newF.backfill = "" then [⟨.fieldBackfillRemoved, .additive, entityID, newF.name⟩]
  else [⟨.fieldBackfillChanged, .additive, entityID, newF.name⟩]

/-- The serial part of `diffField`. -/
def diffFieldSerial (entityID : String) (oldF newF : Field) : List Change :=
  if !oldF.serial && newF.serial then [⟨.fieldSerialAdded, .backfillRequired, entityID, newF.name⟩]
  else if oldF.serial && !newF.serial then [⟨.fieldSerialRemoved, .backfillRequired, entityID, newF.name⟩]
  else []

/-- The reference part of `diffField`. -/
def diffFieldRef (entityID : String) (oldF newF : Field) : List Change :=
  match oldF.ref, newF.ref with
  | none, none => []
  | none, some _ => [⟨.fieldReferenceAdded, .backfillRequired, entityID, newF.name⟩]
  | some _, none => [⟨.fieldReferenceRemoved, .additive, entityID, newF.name⟩]
  | some o, some n =>
    if o = n then []
    else if o.targetID ≠ n.targetID ∨ o.targetField ≠ n.targetField then
      [⟨.fieldReferenceModified, .crossCallerBreaking, entityID, newF.name⟩]
    else if refActionStrengthened o.onDelete n.onDelete || refActionStrengthened o.onUpdate n.onUpdate then
      [⟨.fieldReferenceModified, .backfillRequired, entityID, newF.name⟩]
    else [⟨.fieldReferenceModified, .additive, entityID, newF.name⟩]

/-- `diffField`. -/
def diffField (entityID : String) (oldF newF : Field) : List Change :=
  diffFieldType entityID oldF newF ++ diffFieldNotNull entityID oldF newF
    ++ diffFieldUnique entityID oldF newF ++ diffFieldDefault entityID oldF newF
    ++ diffFieldBackfill entityID oldF newF ++ diffFieldSerial entityID oldF newF
    ++ diffFieldRef entityID oldF newF

/-- A new field: the field itself and, when it references something, its reference once more. -/
def diffFieldAdded (entityID : String) (nf : Field) : List Change :=
  ⟨.fieldAdded, if nf.notNull && nf.default.isNone then .backfillRequired else .additive, entityID, nf.name⟩
    :: (if nf.ref.isSome then [⟨.fieldReferenceAdded, .additive, entityID, nf.name⟩] else [])

/-- The body of the loop in `diffFields`. -/
def diffFieldNamed (ctx : DiffCtx) (oldE newE : Entity) (name : String) : List Change :=
  match fieldByName oldE name, fieldByName newE name with
  | some _, none =>
    [⟨.fieldRemoved, ctx.classifyRemoval newE.id (newE.id ++ "." ++ name), newE.id, name⟩]
  | none, some nf => diffFieldAdded newE.id nf
  | some oldF, some nf => diffField newE.id oldF nf
  | none, none => []

/-- `diffFields`. -/
def diffFields (ctx : DiffCtx) (oldE newE : Entity) : List Change :=
  (mergedNames (oldE.fields.map Field.name) (newE.fields.map Field.name)).flatMap
    (diffFieldNamed ctx oldE newE)

/-- The indexes of `newE` whose key `oldE` does not have, in the order of the range. -/
def addedIndexes (ord : RangeOrder) (oldE newE : Entity) : List Index :=
  (ord.order ("indexes added: " ++ newE.id) (mapValues indexKey newE.indexes)).filter
    fun idx => !(oldE.indexes.map indexKey).contains (indexKey idx)

/-- The indexes of `oldE` whose key `newE` does not have, in the order of the range. -/
def removedIndexes (ord : RangeOrder) (oldE newE : Entity) : List Index :=
  (ord.order ("indexes removed: " ++ newE.id) (mapValues indexKey oldE.indexes)).filter
    fun idx => !(newE.indexes.map indexKey).contains (indexKey idx)

/-- `diffIndexes`. -/
def diffIndexes (ord : RangeOrder) (oldE newE : Entity) : List Change :=
  (addedIndexes ord oldE newE).map (fun idx => ⟨.indexAdded idx, .additive, newE.id, ""⟩)
    ++ (removedIndexes ord oldE newE).map fun idx => ⟨.indexRemoved idx, .additive, newE.id, ""⟩

/-- The composite uniques of `newE` whose key `oldE` does not have, in the order of the range. -/
def addedUniques (ord : RangeOrder) (oldE newE : Entity) : List UniqueSpec :=
  (ord.order ("uniques added: " ++ newE.id) (mapValues uniqueSpecKey newE.uniques)).filter
    fun u => !(oldE.uniques.map uniqueSpecKey).contains (uniqueSpecKey u)

/-- The composite uniques of `oldE` whose key `newE` does not have, in the order of the range. -/
def removedUniques (ord : RangeOrder) (oldE newE : Entity) : List UniqueSpec :=
  (ord.order ("uniques removed: " ++ newE.id) (mapValues uniqueSpecKey oldE.uniques)).filter
    fun u => !(newE.uniques.map uniqueSpecKey).contains (uniqueSpecKey u)

/-- `diffUniques`. -/
def diffUniques (ord : RangeOrder) (oldE newE : Entity) : List Change :=
  (addedUniques ord oldE newE).map (fun u => ⟨.compositeUniqueAdded u, .backfillRequired, newE.id, ""⟩)
    ++ (removedUniques ord oldE newE).map fun u => ⟨.compositeUniqueRemoved u, .additive, newE.id, ""⟩

/-- `diffQueryTimeout`. -/
def diffQueryTimeout (oldE newE : Entity) : List Change :=
  if oldE.queryTimeoutMS = newE.queryTimeoutMS then []
  else [⟨.queryTimeoutChanged, .additive, newE.id, ""⟩]

/-- `diffEntity`. -/
def diffEntity (ctx : DiffCtx) (ord : RangeOrder) (oldE newE : Entity) : List Change :=
  diffTableName oldE newE ++ diffFields ctx oldE newE ++ diffIndexes ord oldE newE
    ++ diffUniques ord oldE newE ++ diffQueryTimeout oldE newE

/-- What `ComputeDiff` finds for one entity ID. -/
def diffID (ctx : DiffCtx) (ord : RangeOrder) (oldIR newIR : IR) (id : String) : List Change :=
  match entityByID oldIR id, entityByID newIR id with
  | some _, none => [⟨.entityRemoved, ctx.classifyRemoval id id, id, ""⟩]
  | none, some _ => [⟨.entityAdded, .additive, id, ""⟩]
  | some oldE, some newE => diffEntity ctx ord oldE newE
  | none, none => []

/-- All changes, in the order they are found. -/
def allChanges (ctx : DiffCtx) (ord : RangeOrder) (oldIR newIR : IR) : List Change :=
  (mergedNames (oldIR.entities.map Entity.id) (newIR.entities.map Entity.id)).flatMap
    (diffID ctx ord oldIR newIR)

/-- **`ComputeDiff`.** -/
def ComputeDiff (ctx : DiffCtx) (ord : RangeOrder) (oldIR newIR : IR) : Diff :=
  let cs := allChanges ctx ord oldIR newIR
  ⟨cs.filter (·.cls = .additive), cs.filter (·.cls = .backfillRequired),
    cs.filter (·.cls = .crossCallerBreaking)⟩

end Atlantis.Codegen
