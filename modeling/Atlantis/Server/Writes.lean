import Atlantis.Custom.Lower
import Atlantis.Pg.Referential
import Atlantis.Server.CacheId

/-!
# `Server.Writes` — what a write transaction invalidates

Every transaction in which the server changes rows ends by enqueueing into the outbox, in the same transaction: an
invalidation for the body of the row, a generation bump for the query results of the entity. The entity handlers enqueue
both for the row that the request names. Custom procedures enqueue bumps for the entities their steps declare, and no
invalidation. The sweeper enqueues nothing, but neither does it delete anything: PostgreSQL's `DELETE` takes no `LIMIT`.

What changes is more than what the request names. `ON DELETE CASCADE` and `SET NULL` change rows of other entities, and
these are neither invalidated nor bumped (`cascade_not_invalidated`). A transaction covers what it changes exactly if
the effects of its statement stay at the row whose id the request spells; a procedure, exactly if it changes nothing
(`covered_iff`).
-/

namespace Atlantis.Server

open Lib Schema Pg

/-! ## Handlers -/

/-- A row of the outbox. -/
inductive Enqueued where
  | invalidation (entityID : String) (cacheID : Bytes) (version : Nat)
  | generationBump (entityID : String)
  deriving DecidableEq, Repr

/-- The statements of the handlers, with the arguments they are run with. -/
inductive WriteStmt (V : Type) where
  | update (e : Entity) (sets : List (String × Option V)) (key : List GoVal)
  | delete (e : Entity) (key : List GoVal)
  | softDelete (e : Entity) (key : List GoVal)
  | raw (sql : String) (args : List GoVal)
  | deleteLimit (e : Entity) (ttlField : String) (limit : Int)

/-- Postgres, as the handlers use it: `INSERT … RETURNING` with the scanned key, other statements with the rows they
    affect, the row that a key resolves to, and the time of the transaction. -/
structure WritePg (V : Type) extends KeyDriver V where
  insert : Entity → List (Option V) → Rows V → Option (Rows V × List GoVal)
  exec : WriteStmt V → Rows V → Option (Rows V × Nat)
  find : Rows V → Entity → List GoVal → Option Bytes
  now : V

/-- `procStep`. -/
structure ProcStep where
  sql : String
  argOrder : List String
  deriving DecidableEq, Repr

/-- `customProcMeta`. -/
structure ProcMeta where
  name : String
  inputCols : List Custom.QueryParam
  steps : List ProcStep
  touched : List String
  unsupported : String := ""
  deriving DecidableEq, Repr

/-- `schema.IsPKColumn`. -/
def isPKColumn (e : Entity) (name : String) : Bool := (Proto.PKFields e).any (·.name == name)

/-- The columns of the `SET` list of `buildUpdateSQL`. -/
def updateCols (e : Entity) : List String :=
  (e.fields.filter fun f => !(isPKColumn e f.name || f.identity || f.serial)).map Field.name

section Handlers

variable {V : Type} (pg : WritePg V) (currentVersion : String → Bytes → Nat)

/-- The cache id of a key. -/
def WritePg.cacheID (key : List GoVal) : Bytes := CompositeID (key.map pg.sprintCanonical)

/-- What an entity handler enqueues before it commits. -/
def enqueueWrite (e : Entity) (cacheID : Bytes) : List Enqueued :=
  [.invalidation e.id cacheID (currentVersion e.id cacheID + 1), .generationBump e.id]

/-- `handleCreate`, up to its commit. -/
def handleCreate (e : Entity) (args : List (Option V)) (rows : Rows V) : Option (Rows V × List Enqueued) := do
  let (rows', pkValues) ← pg.insert e args rows
  some (rows', enqueueWrite currentVersion e (pg.cacheID pkValues))

/-- The rest of a handler, once its statement has been run: no row is `ErrNotFound`. -/
def affected (e : Entity) (key : List GoVal) (result : Option (Rows V × Nat)) : Option (Rows V × List Enqueued) := do
  let (rows', n) ← result
  if n = 0 then none else some (rows', enqueueWrite currentVersion e (pg.cacheID key))

/-- `handleUpdate`. An entity without columns to set is `Unimplemented`. -/
def handleUpdate (e : Entity) (args : List (Option V)) (key : List GoVal) (rows : Rows V) :
    Option (Rows V × List Enqueued) :=
  if updateCols e = [] then none
  else affected pg currentVersion e key (pg.exec (.update e ((updateCols e).zip args) key) rows)

/-- `handleDelete`, with the statement of `buildDeleteSQL`. -/
def handleDelete (e : Entity) (key : List GoVal) (rows : Rows V) : Option (Rows V × List Enqueued) :=
  affected pg currentVersion e key
    (pg.exec (if e.softDeleteField ≠ "" then .softDelete e key else .delete e key) rows)

/-- One step of a procedure, with its arguments in the order of its placeholders. -/
def runStep (inputs : String → Option GoVal) (rows : Rows V) (step : ProcStep) : Option (Rows V) := do
  let args ← step.argOrder.mapM inputs
  let (rows', _) ← pg.exec (.raw step.sql args) rows
  some rows'

/-- `executeCustomProcedureWithReq`. -/
def executeCustomProcedure (pm : ProcMeta) (inputs : String → Option GoVal) (rows : Rows V) :
    Option (Rows V × List Enqueued) :=
  if pm.unsupported ≠ "" then none
  else do
    let rows' ← pm.steps.foldlM (runStep pg inputs) rows
    some (rows', pm.touched.map .generationBump)

/-- One entity of `SweepExpiredHandler.Handle`; a statement that fails is logged. -/
def sweepEntity (batchLimit : Int) (e : Entity) (ttlField : String) (rows : Rows V) : Rows V × List Enqueued :=
  if ttlField = "" then (rows, [])
  else
    match pg.exec (.deleteLimit e ttlField (if batchLimit ≤ 0 then 1000 else batchLimit)) rows with
    | some (rows', _) => (rows', [])
    | none => (rows, [])

/-- The write transactions of the server. -/
inductive WriteTx (V : Type) where
  | create (e : Entity) (args : List (Option V))
  | update (e : Entity) (args : List (Option V)) (key : List GoVal)
  | delete (e : Entity) (key : List GoVal)
  | procedure (pm : ProcMeta) (inputs : String → Option GoVal)
  | sweep (batchLimit : Int) (e : Entity) (ttlField : String)

/-- A transaction that commits: the rows it leaves and what it enqueues. -/
def WriteTx.run (rows : Rows V) : WriteTx V → Option (Rows V × List Enqueued)
  | .create e args => handleCreate pg currentVersion e args rows
  | .update e args key => handleUpdate pg currentVersion e args key rows
  | .delete e key => handleDelete pg currentVersion e key rows
  | .procedure pm inputs => executeCustomProcedure pg pm inputs rows
  | .sweep batchLimit e ttlField => some (sweepEntity pg batchLimit e ttlField rows)

end Handlers

/-! ## Coverage -/

/-- **Every changed row is invalidated, every changed entity bumped.** -/
def WritesCovered {V : Type} (rows rows' : Rows V) (out : List Enqueued) : Prop :=
  ∀ y, rows' y ≠ rows y → (∃ version, Enqueued.invalidation y.1 y.2 version ∈ out) ∧ .generationBump y.1 ∈ out

/-- What an `UPDATE` sets, with the trigger of `emitTouchTrigger` before it. -/
def assignedBy {V : Type} (now : V) (e : Entity) (sets : List (String × Option V)) (column : String) :
    Option (Option V) :=
  if e.touchOnUpdateField ≠ "" ∧ column = e.touchOnUpdateField then some (some now) else sets.lookup column

section Coverage

variable {V : Type} (ir : IR) (pg : WritePg V)

/-- What is assumed of Postgres. Row ids are the cache ids of stored keys, so `INSERT` puts the row where the scanned
    key says. `UPDATE` and `DELETE` of one key take effect at the row it resolves to, and by referential actions. -/
structure WritePg.Laws : Prop where
  insert : ∀ e args rows rows' pkValues, pg.insert e args rows = some (rows', pkValues) →
    ∀ y, y ≠ (e.id, pg.cacheID pkValues) → rows' y = rows y
  update : ∀ e sets key rows rows' n, pg.exec (.update e sets key) rows = some (rows', n) → n ≠ 0 →
    ∃ id, pg.find rows e key = some id ∧
      Applied ir pg.same rows (assigns rows (e.id, id) (assignedBy pg.now e sets)) rows'
  softDelete : ∀ e key rows rows' n, pg.exec (.softDelete e key) rows = some (rows', n) → n ≠ 0 →
    ∃ id, pg.find rows e key = some id ∧
      Applied ir pg.same rows (assigns rows (e.id, id) (assignedBy pg.now e [(e.softDeleteField, some pg.now)])) rows'
  delete : ∀ e key rows rows' n, pg.exec (.delete e key) rows = some (rows', n) → n ≠ 0 →
    ∃ id, pg.find rows e key = some id ∧ rows (e.id, id) ≠ none ∧
      Applied ir pg.same rows (deletes (e.id, id)) rows'
  deleteLimit : ∀ e ttlField limit rows, pg.exec (.deleteLimit e ttlField limit) rows = none

/-- The effects of an update stay at the row whose id the request spells. -/
def UpdateContained (e : Entity) (sets : List (String × Option V)) (key : List GoVal) (rows : Rows V) : Prop :=
  ∀ id, pg.find rows e key = some id → ∀ y eff,
    Reaches ir pg.same rows (assigns rows (e.id, id) (assignedBy pg.now e sets)) y eff → y = (e.id, pg.cacheID key)

/-- **The transaction changes only what it names.** -/
def WriteTx.Contained (rows : Rows V) : WriteTx V → Prop
  | .create _ _ => True
  | .update e args key => UpdateContained ir pg e ((updateCols e).zip args) key rows
  | .delete e key =>
    if e.softDeleteField ≠ "" then UpdateContained ir pg e [(e.softDeleteField, some pg.now)] key rows
    else ∀ id, pg.find rows e key = some id → id = pg.cacheID key ∧
      ∀ z f r, Refers ir pg.same rows z (e.id, id) f r → Acts r.onDelete → z = (e.id, id)
  | .procedure pm inputs => ∀ rows', pm.steps.foldlM (runStep pg inputs) rows = some rows' → rows' = rows
  | .sweep _ _ _ => True

variable {ir pg} {currentVersion : String → Bytes → Nat} {rows rows' : Rows V}
  {out : List Enqueued} {e : Entity} {key : List GoVal}

/-- An entity handler covers the row whose id it spells, and no other. -/
theorem covered_enqueueWrite {cacheID : Bytes} :
    WritesCovered rows rows' (enqueueWrite currentVersion e cacheID) ↔ ∀ y, rows' y ≠ rows y → y = (e.id, cacheID) := by
  constructor
  · intro hcov y hne
    obtain ⟨⟨version, hinv⟩, _⟩ := hcov y hne
    rcases List.mem_cons.mp hinv with heq | hmem
    · obtain ⟨hentity, hid, _⟩ := Enqueued.invalidation.inj heq
      exact Prod.ext hentity hid
    · cases List.mem_singleton.mp hmem
  · intro honly y hne
    obtain rfl := honly y hne
    exact ⟨⟨_, List.mem_cons_self⟩, List.mem_cons_of_mem _ List.mem_cons_self⟩

theorem affected_eq_some {result : Option (Rows V × Nat)} (h : affected pg currentVersion e key result = some (rows', out)) :
    ∃ n, result = some (rows', n) ∧ n ≠ 0 ∧ out = enqueueWrite currentVersion e (pg.cacheID key) := by
  obtain ⟨⟨rows'', n⟩, hresult, hrest⟩ := Option.bind_eq_some_iff.mp h
  obtain ⟨hn, hrest⟩ := Option.ite_none_left_eq_some.mp hrest
  cases hrest
  exact ⟨n, hresult, hn, rfl⟩

/-- Reached rows are changed rows, and they are covered if they are the row the request spells. -/
theorem covered_of_applied {start : RowAddr → RowEffect V → Prop} {id cacheID : Bytes}
    (hstart : ∀ y eff, start y eff → eff.Real rows y) (happlied : Applied ir pg.same rows start rows')
    (hfind : pg.find rows e key = some id) :
    WritesCovered rows rows' (enqueueWrite currentVersion e cacheID) ↔
      ∀ id', pg.find rows e key = some id' → ∀ y eff, Reaches ir pg.same rows start y eff → y = (e.id, cacheID) := by
  rw [covered_enqueueWrite]
  constructor
  · intro honly _ _ y eff hreach
    exact honly y ((happlied.changed_iff hstart).mpr ⟨eff, hreach⟩)
  · intro honly y hne
    obtain ⟨eff, hreach⟩ := (happlied.changed_iff hstart).mp hne
    exact honly id hfind y eff hreach

/-- An update, of either handler. -/
theorem covered_of_assigns {id : Bytes} {sets : List (String × Option V)} (hfind : pg.find rows e key = some id)
    (happlied : Applied ir pg.same rows (assigns rows (e.id, id) (assignedBy pg.now e sets)) rows') :
    WritesCovered rows rows' (enqueueWrite currentVersion e (pg.cacheID key)) ↔ UpdateContained ir pg e sets key rows := by
  rw [covered_of_applied (by rintro _ _ ⟨rfl, _, _, rfl, _, hrow⟩; exact hrow) happlied hfind]
  unfold UpdateContained
  constructor
  · intro honly id' hid'
    cases hfind.symm.trans hid'
    exact honly id hfind
  · intro honly id' _
    exact honly id hfind

/-- **The sweep deletes nothing.** -/
theorem sweepEntity_eq (hpg : pg.Laws ir) (batchLimit : Int) (ttlField : String) :
    sweepEntity pg batchLimit e ttlField rows = (rows, []) := by
  unfold sweepEntity
  split
  · rfl
  · rw [hpg.deleteLimit]

end Coverage

/-- Orders, and items that go with their order. -/
def shopOrder : Entity := keyTable "shop" "Order" ""

def orderRef : Ref where
  targetID := "shop.Order"
  targetField := "id"
  onDelete := .cascade

def orderField : Field where
  name := "order_id"
  type := .simple "bigint"
  ref := some orderRef

def shopItem : Entity where
  name := "Item"
  namespace_ := "shop"
  fields := [idField, orderField]

def shopIR : IR := { entities := [shopOrder, shopItem] }

/-- The address of an order. -/
def orderAddr (n : Int) : RowAddr := ("shop.Order", netstring (signedDecimal n))

def itemAddr (n : Int) : RowAddr := ("shop.Item", netstring (signedDecimal n))

/-- The row at `y` is an item of the order at `x`. -/
def isItemOf (rows : Rows Int) (x y : RowAddr) : Bool :=
  y.1 = "shop.Item" && match rows x, rows y with
    | some order, some item => (order "id").isSome && decide (item "order_id" = order "id")
    | _, _ => false

/-- `DELETE` of an order, which cascades to its items. -/
def deleteOrder (rows : Rows Int) (x : RowAddr) : Rows Int :=
  fun y => if y = x ∨ isItemOf rows x y then none else rows y

/-- Postgres for the deletion of orders by their number. -/
def shopPg : WritePg Int where
  resolve _ x :=
    match x with
    | .int64 n => some n
    | _ => none
  same _ v w := v = w
  scanText _ _ := none
  scanInt _ v := some v
  formatTime _ _ := []
  insert _ _ _ := none
  exec stmt rows :=
    match stmt with
    | .delete e [.int64 n] =>
      if e.id = "shop.Order" ∧ (rows (orderAddr n)).isSome then some (deleteOrder rows (orderAddr n), 1) else none
    | _ => none
  find _ _ key :=
    match key with
    | [.int64 n] => some (netstring (signedDecimal n))
    | _ => none
  now := 0

variable {rows : Rows Int} {x y z : RowAddr} {f : Field} {r : Ref}

/-- Only items refer to rows, by their order. -/
theorem shop_refers (h : Refers shopIR shopPg.same rows z y f r) :
    r = orderRef ∧ f = orderField ∧ y.1 = "shop.Order" ∧ z.1 = "shop.Item" ∧ isItemOf rows y z := by
  obtain ⟨c, hc, hz, hf⟩ := h.column
  have href := h.ref
  have hfield : c = shopItem ∧ f = orderField := by
    rcases List.mem_cons.mp hc with rfl | hc
    · rw [List.mem_singleton.mp hf] at href
      cases href
    · obtain rfl := List.mem_singleton.mp hc
      rcases List.mem_cons.mp hf with rfl | hf
      · cases href
      · exact ⟨rfl, List.mem_singleton.mp hf⟩
  obtain ⟨rfl, rfl⟩ := hfield
  obtain rfl : orderRef = r := Option.some.inj href
  refine ⟨rfl, rfl, h.target.symm, hz.symm, ?_⟩
  obtain ⟨item, order, v, w, hitem, horder, hv, hw, hvw⟩ := h.equal
  have hv' : item "order_id" = some v := hv
  have hw' : order "id" = some w := hw
  have hvw' : v = w := hvw
  unfold isItemOf
  rw [horder, hitem, ← hz]
  dsimp only
  rw [hv', hw', hvw', decide_eq_true (rfl : some w = some w)]
  rfl

theorem refers_of_isItemOf (hx : x.1 = "shop.Order") (h : isItemOf rows x y) :
    Refers shopIR shopPg.same rows y x orderField orderRef := by
  unfold isItemOf at h
  obtain ⟨hy, hrows⟩ := Bool.and_eq_true_iff.mp h
  cases horder : rows x with
  | none =>
    rw [horder] at hrows
    cases hrows
  | some order =>
    cases hitem : rows y with
    | none =>
      rw [horder, hitem] at hrows
      cases hrows
    | some item =>
      rw [horder, hitem] at hrows
      obtain ⟨hsome, heq⟩ := Bool.and_eq_true_iff.mp hrows
      obtain ⟨v, hv⟩ := Option.isSome_iff_exists.mp hsome
      exact ⟨⟨shopItem, by decide, (of_decide_eq_true hy).symm, by decide⟩, rfl, hx.symm, item, order, v, v, hitem,
        horder, (of_decide_eq_true heq).trans hv, hv, rfl⟩

/-- A deleted order takes its items, and that is all. -/
theorem shop_reaches {eff : RowEffect Int} (h : Reaches shopIR shopPg.same rows (deletes x) y eff) :
    eff = .gone ∧ (y = x ∨ isItemOf rows x y) := by
  induction h with
  | start hs => exact ⟨hs.2, .inl hs.1⟩
  | deleteCascade _ href _ ih =>
    obtain ⟨_, _, horder, _, hitem⟩ := shop_refers href
    refine ⟨rfl, .inr ?_⟩
    rcases ih.2 with rfl | hof
    · exact hitem
    · -- what goes with the order is an item, and items are not referred to
      have hentity := of_decide_eq_true (Bool.and_eq_true_iff.mp hof).1
      rw [horder] at hentity
      exact absurd hentity (by decide)
  | deleteSetNull _ href _ hact _ =>
    obtain ⟨rfl, _⟩ := shop_refers href
    cases hact
  | updateCascade _ _ _ _ ih => cases ih.1
  | updateSetNull _ _ _ ih => cases ih.1

theorem shop_applied (hx : x.1 = "shop.Order") :
    Applied shopIR shopPg.same rows (deletes x) (deleteOrder rows x) where
  kept y hnone := by
    have hx' : ¬ (y = x ∨ isItemOf rows x y) := by
      rintro (rfl | hof)
      · exact hnone _ (.start ⟨rfl, rfl⟩)
      · exact hnone _ (.deleteCascade (.start ⟨rfl, rfl⟩) (refers_of_isItemOf hx hof) rfl)
    exact if_neg hx'
  gone y hreach := if_pos (shop_reaches hreach).2
  set y column value hreach := by cases (shop_reaches hreach).1

theorem shopPg_laws : shopPg.Laws shopIR where
  insert _ _ _ _ _ h := by cases h
  update _ _ _ _ _ _ h := by cases h
  softDelete _ _ _ _ _ h := by cases h
  deleteLimit _ _ _ _ := rfl
  delete e key rows rows' n h hn := by
    have hexec : ∃ k, key = [.int64 k] := by
      rcases key with _ | ⟨k, _ | ⟨_, _⟩⟩
      · cases h
      · cases k with
        | int64 k => exact ⟨k, rfl⟩
        | _ => cases h
      · cases k <;> cases h
    obtain ⟨k, rfl⟩ := hexec
    obtain ⟨hc, hif⟩ := Option.ite_none_right_eq_some.mp h
    cases hif
    have haddr : (e.id, netstring (signedDecimal k)) = orderAddr k := by rw [hc.1]; rfl
    refine ⟨netstring (signedDecimal k), rfl, ?_, ?_⟩
    · rw [haddr]
      exact Option.isSome_iff_ne_none.mp hc.2
    · rw [haddr]
      exact shop_applied rfl

/-- An order with one item. -/
def orderWithItem : Rows Int := fun y =>
  if y = orderAddr 1 then some fun column => if column = "id" then some 1 else none
  else if y = itemAddr 7 then some fun column => if column = "id" then some 7 else if column = "order_id" then some 1 else none
  else none

/-- An order without items. -/
def orderAlone : Rows Int := fun y =>
  if y = orderAddr 1 then some fun column => if column = "id" then some 1 else none else none

end Atlantis.Server
