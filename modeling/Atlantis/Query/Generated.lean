import Atlantis.Schema.Validate
import Atlantis.Query.Page
import Atlantis.Cache.QueryResult

/-!
# `Query.Generated` — the `QueryX` method of the generated server

What `emitProtoQueryMethod` of `internal/codegen/query_emit_server.go` writes for an entity, as the code it
writes runs: the page (`queryStatement`, then the database), the include attachments (`Attach`), and around
them the tier-2 cache (`QueryX`). The database may return rows in every order its statement allows, so each
part is a relation between a request and the outcomes it may have.

The parts that live in libraries are parameters. `Wire` has the protobuf encodings that go into the cache key
and the two directions of the page-token codec. `GoDriver` adds to the driver the text that `%v` prints for a
column of a scanned message, and what a string becomes when it is bound where the database expects values of
a column.
-/

namespace Atlantis.Query

open Sql Schema Lib Cache

/-! ## Requests -/

/-- `XOrderBy`; an enum value is a field's number. -/
structure OrderBy where
  field : Nat
  desc : Bool
  deriving DecidableEq, Repr

/-- `QueryXRequest`. The filter message is given by its deterministic marshalling, which is also what goes into
    the cache key; a missing filter and an empty one are both `[]`. -/
structure QueryXRequest where
  filter : Bytes := []
  order : List OrderBy := []
  limit : Int32 := 0
  pageToken : Bytes := []
  fields : Option (List String) := none
  includes : List Int32 := []
  cacheSkip : Bool := false

/-- Protobuf marshalling, the page-token text and the digest of the cache key. -/
structure Wire where
  /-- The message of a marshalled filter. -/
  filterOf : Bytes → Option Filter
  order : OrderBy → Bytes
  fields : Option (List String) → Bytes
  /-- What `DecodePageToken` finds in a text. -/
  tokenOf : Bytes → PageToken
  /-- The text `EncodePageToken` returns. -/
  tokenText : PageToken → Bytes
  digest : Bytes → String
  filterOf_nil : filterOf [] = none
  tokenOf_nil : tokenOf [] = .empty
  tokenText_empty : tokenText .empty = []

/-- The database, its driver, and the messages of the generated code. -/
structure GoDriver (V : Type) extends Driver V where
  /-- `fmt.Sprintf("%v", ent.GetColumn())`; a `NULL` prints as the zero value. -/
  printed : String → Option V → Bytes
  /-- A string where the database expects a value of the column. -/
  bindKey : String → Bytes → Except String V

/-- The tables by entity ID, and how each one's columns are read. -/
structure Db (V : Type) where
  driver : String → GoDriver V
  table : String → List (Row V)

inductive QueryError where
  | invalid (msg : String)
  /-- `ErrNoCallerPartition`. -/
  | noCallerPartition
  | unimplemented (msg : String)
  | db (msg : String)
  deriving DecidableEq, Repr

/-! ## The page -/

/-- `orderableType`. -/
def orderableType (t : FieldType) : Bool := !(t.isArray || t.name == "vector")

/-- `primaryPKName`. -/
def primaryPKName (e : Entity) : String :=
  match e.primaryField with
  | some pk => pk.name
  | none => e.compositePK.headD "id"

/-- `buildXKeysetCols`: the columns of the request that the switch knows, then the first key column unless it
    is among them. -/
def buildKeysetCols (e : Entity) (orders : List OrderBy) : List KeysetColumn :=
  let cols := orders.filterMap fun o =>
    (e.fields.find? fun f => orderableType f.type && f.protoNumber == o.field).map fun f => ⟨f.name, o.desc⟩
  if cols.any (·.column == primaryPKName e) then cols else cols ++ [⟨primaryPKName e, false⟩]

/-- The key appended at the end of `extractXCursor`. It is appended as the getter returns it, and for a
    timestamp that is a message, which no page token holds; the switch in front converts it. -/
def cursorTiebreak {V : Type} (D : Driver V) (e : Entity) (r : Row V) : CursorVal :=
  match (e.findField (primaryPKName e)).map fun f => f.type.name with
  | some "timestamptz" | some "date" => .other "*timestamppb.Timestamp"
  | _ => D.cursorArg (primaryPKName e) (r (primaryPKName e))

/-- `extractXCursor`. -/
def extractCursor {V : Type} (D : Driver V) (e : Entity) (orders : List OrderBy) (r : Row V) : List CursorVal :=
  let fields := orders.filterMap fun o => e.fields.find? fun f => orderableType f.type && f.protoNumber == o.field
  let out := fields.map fun f => D.cursorArg f.name (r f.name)
  if fields.any (·.name == primaryPKName e) then out else out ++ [cursorTiebreak D e r]

/-- The extra predicates and the argument they use: soft delete, then the caller's partition as `$1`. -/
def extraPredicates (e : Entity) (caller : Option Arg) : Except QueryError (List Frag × List Arg) :=
  if e.partitionField = "" then .ok (softDeletePredicate e, [])
  else match caller with
    | none => .error .noCallerPartition
    | some v => .ok (softDeletePredicate e ++ [[.col e.partitionField, .op .eq, .param 1]], [v])

/-- `QueryX` between the cache lookup and the call of the database. -/
def queryStatement (W : Wire) (e : Entity) (caller : Option Arg) (req : QueryXRequest) :
    Except QueryError Statement := do
  let cursorVals ← (DecodePageToken (W.tokenOf req.pageToken) e.id).mapError .invalid
  let (extras, partitionArgs) ← extraPredicates e caller
  let tr ← (TranslateFilter (buildFilterSpec e) (W.filterOf req.filter) (partitionArgs.length + 1) extras).mapError .invalid
  (pageStatement tr.sql (partitionArgs ++ tr.args) (buildKeysetCols e req.order) cursorVals
    (clampLimit req.limit)).mapError .invalid

/-- The row is in the caller's partition, or there are none. -/
def inPartition {V : Type} (D : Pg V) (e : Entity) (caller : Option Arg) (r : Row V) : Bool :=
  e.partitionField = "" ||
    match caller, r e.partitionField with
    | some a, some v => D.cmp e.partitionField .eq v (D.bind a)
    | _, _ => false

/-- **What a caller may see of a table**: live rows of its partition. -/
def Visible {V : Type} (D : Pg V) (e : Entity) (caller : Option Arg) (r : Row V) : Prop :=
  Live e r ∧ inPartition D e caller r = true

instance {V : Type} (D : Pg V) (e : Entity) (caller : Option Arg) (r : Row V) : Decidable (Visible D e caller r) :=
  inferInstanceAs (Decidable (_ ∧ _))

variable {V : Type} (W : Wire) (db : Db V) (ir : IR) (e : Entity)

/-- The page of a request, from the database. -/
inductive Page (caller : Option Arg) (req : QueryXRequest) : Except QueryError (QueryResponse V) → Prop where
  | refused {err : QueryError} (h : queryStatement W e caller req = .error err) : Page caller req (.error err)
  | answered {st : Statement} {rows : List (Row V)} (h : queryStatement W e caller req = .ok st)
      (hrows : st.select.Returns (db.driver e.id).toDialect (st.params (db.driver e.id).toPg)
        (db.table e.id) rows) :
      Page caller req (.ok (trimPage e.id (extractCursor (db.driver e.id).toDriver e req.order)
        (clampLimit req.limit) rows))

/-! ## Rows by key -/

/-- The strings that `col = ANY($1)` compares with, bound one by one. -/
def GoDriver.bindKeys (D : GoDriver V) (col : String) (keys : List Bytes) : Except String (List V) :=
  keys.mapM (D.bindKey col)

/-- `col = ANY(keys)` is true of a row. -/
def GoDriver.anyKey (D : GoDriver V) (col : String) (keys : List V) (r : Row V) : Bool :=
  match r col with
  | none => false
  | some v => keys.any (D.cmp col .eq v)

/-- `spec.Fields[0]` of `buildPKSpec`. -/
def pkSpecFirst (e : Entity) : String :=
  match e.compositePK with
  | c :: _ => c
  | [] => (e.primaryField.map Field.name).getD ""

/-- The rows of `sqlBatchGetX`. -/
def sqlBatchGet (keys : List V) : List (Row V) :=
  (db.table e.id).filter fun r => (db.driver e.id).anyKey (pkSpecFirst e) keys r && decide (Live e r)

/-- `assembleQueryXFromPKs`: the rows of a cache entry, in whatever order they come. -/
inductive AssembleFromPKs (entry : Payload) : Except QueryError (QueryResponse V) → Prop where
  | none (h : entry.pks = []) : AssembleFromPKs entry (.ok ⟨[], W.tokenOf entry.nextPageToken⟩)
  | refused {msg : String} (h : entry.pks ≠ [])
      (hkeys : (db.driver e.id).bindKeys (pkSpecFirst e) entry.pks = .error msg) :
      AssembleFromPKs entry (.error (.db msg))
  | found {keys : List V} {rows : List (Row V)} (h : entry.pks ≠ [])
      (hkeys : (db.driver e.id).bindKeys (pkSpecFirst e) entry.pks = .ok keys)
      (hrows : rows.Perm (sqlBatchGet db e keys)) :
      AssembleFromPKs entry (.ok ⟨rows, W.tokenOf entry.nextPageToken⟩)

/-! ## Includes -/

/-- `inboundRef`: a reference to the entity, with the entity and the field that make it. -/
structure InboundRef where
  fromEntity : Entity
  fromField : Field
  deriving DecidableEq

/-- The order of `computeInboundRefs`. -/
def InboundRef.le (a b : InboundRef) : Bool :=
  if a.fromEntity.id ≠ b.fromEntity.id then a.fromEntity.id < b.fromEntity.id
  else a.fromField.name ≤ b.fromField.name

/-- `computeInboundRefs(ir)[targetID]`. -/
def computeInboundRefs (ir : IR) (targetID : String) : List InboundRef :=
  (ir.entities.flatMap fun src => src.fields.filterMap fun f =>
    match f.ref with
    | some r => if r.targetID ≠ "" ∧ r.targetID = targetID then some ⟨src, f⟩ else none
    | none => none).mergeSort InboundRef.le

/-- `includableSource`. -/
def includableSource (ref : InboundRef) (target : Entity) : Bool :=
  match cutDot ref.fromEntity.id with
  | some (refNS, _) => refNS == target.namespace_
  | none => false

/-- The slot of an include, for each parent of the page. -/
structure Slots (V : Type) where
  ref : InboundRef
  children : List (List (Row V))

/-- The attach helper of one relation: children by the printed keys of the parents, grouped by their printed
    reference. -/
inductive Attach (ref : InboundRef) (parents : List (Row V)) : Except QueryError (List (List (Row V))) → Prop where
  | none (h : parents = []) : Attach ref parents (.ok [])
  | refused {msg : String} (h : parents ≠ [])
      (hkeys : (db.driver ref.fromEntity.id).bindKeys ref.fromField.name
        (parents.map fun p => (db.driver e.id).printed (primaryPKName e) (p (primaryPKName e))) = .error msg) :
      Attach ref parents (.error (.db msg))
  | found {keys : List V} {rows : List (Row V)} (h : parents ≠ [])
      (hkeys : (db.driver ref.fromEntity.id).bindKeys ref.fromField.name
        (parents.map fun p => (db.driver e.id).printed (primaryPKName e) (p (primaryPKName e))) = .ok keys)
      (hrows : rows.Perm ((db.table ref.fromEntity.id).filter
        ((db.driver ref.fromEntity.id).anyKey ref.fromField.name keys))) :
      Attach ref parents (.ok (parents.map fun p => rows.filter fun child =>
        (db.driver ref.fromEntity.id).printed ref.fromField.name (child ref.fromField.name)
          == (db.driver e.id).printed (primaryPKName e) (p (primaryPKName e))))

/-- The variant of an include value: `XInclude` numbers the inbound references from 1. -/
def includeVariant (ir : IR) (e : Entity) (inc : Int32) : Option InboundRef :=
  if inc.toInt ≤ 0 then none else (computeInboundRefs ir e.id)[inc.toInt.toNat - 1]?

/-- The include dispatch: the requested variants in order, unknown ones skipped. -/
inductive Dispatch (parents : List (Row V)) : List Int32 → Except QueryError (List (Slots V)) → Prop where
  | nil : Dispatch parents [] (.ok [])
  | unknown {inc : Int32} {incs : List Int32} {res : Except QueryError (List (Slots V))}
      (h : includeVariant ir e inc = none) (hrest : Dispatch parents incs res) : Dispatch parents (inc :: incs) res
  | unsupported {inc : Int32} {incs : List Int32} {ref : InboundRef} (h : includeVariant ir e inc = some ref)
      (hsrc : includableSource ref e = false) :
      Dispatch parents (inc :: incs) (.error (.unimplemented ("include " ++ ref.fromEntity.id ++ "."
        ++ ref.fromField.name ++ " not supported (cross-namespace or composite-PK source)")))
  | failed {inc : Int32} {incs : List Int32} {ref : InboundRef} {err : QueryError}
      (h : includeVariant ir e inc = some ref) (hsrc : includableSource ref e = true)
      (hattach : Attach db e ref parents (.error err)) : Dispatch parents (inc :: incs) (.error err)
  | attached {inc : Int32} {incs : List Int32} {ref : InboundRef} {children : List (List (Row V))}
      {res : Except QueryError (List (Slots V))} (h : includeVariant ir e inc = some ref)
      (hsrc : includableSource ref e = true) (hattach : Attach db e ref parents (.ok children))
      (hrest : Dispatch parents incs res) :
      Dispatch parents (inc :: incs) (res.map (⟨ref, children⟩ :: ·))

/-! ## The cache around it -/

/-- The arguments the handler gives to `Hash`. -/
def hashInput (req : QueryXRequest) (generation : Int64) : HashInput where
  entityID := e.id.toUTF8.data.toList
  filter := req.filter
  orders := req.order.map W.order
  limit := req.limit
  pageToken := req.pageToken
  fields := W.fields req.fields
  includes := req.includes
  generation := generation

def cacheHash (req : QueryXRequest) (generation : Int64) : String := Hash W.digest (hashInput W e req generation)

def QueryXRequest.cacheable (req : QueryXRequest) : Bool := req.includes.isEmpty

/-- The entry a request is answered from, if it is. -/
def cacheHit (s : Tier2) (req : QueryXRequest) : Option Payload :=
  if req.cacheable && !req.cacheSkip then s.Lookup e.id (cacheHash W e req s.generation) else none

/-- The entry of a page. -/
def pagePayload (page : QueryResponse V) : Payload where
  nextPageToken := W.tokenText page.nextPageToken
  pks := page.entities.map fun r => (db.driver e.id).printed (primaryPKName e) (r (primaryPKName e))

/-- What the handler leaves in the cache. -/
def storePage (s : Tier2) (req : QueryXRequest) (page : QueryResponse V) : Tier2 :=
  if req.cacheable then s.Store e.id (cacheHash W e req s.generation) (pagePayload W db e page) else s

/-- **`QueryX`**: the outcomes of a request, with the cache before and after. -/
inductive QueryX (s : Tier2) (caller : Option Arg) (req : QueryXRequest) :
    Except QueryError (QueryResponse V × List (Slots V)) → Tier2 → Prop where
  | hit {entry : Payload} {res : Except QueryError (QueryResponse V)} (h : cacheHit W e s req = some entry)
      (hres : AssembleFromPKs W db e entry res) : QueryX s caller req (res.map (·, [])) s
  | refused {err : QueryError} (h : cacheHit W e s req = none) (hpage : Page W db e caller req (.error err)) :
      QueryX s caller req (.error err) s
  | notAttached {page : QueryResponse V} {err : QueryError} (h : cacheHit W e s req = none)
      (hpage : Page W db e caller req (.ok page)) (hinc : Dispatch db ir e page.entities req.includes (.error err)) :
      QueryX s caller req (.error err) s
  | answered {page : QueryResponse V} {slots : List (Slots V)} (h : cacheHit W e s req = none)
      (hpage : Page W db e caller req (.ok page)) (hinc : Dispatch db ir e page.entities req.includes (.ok slots)) :
      QueryX s caller req (.ok (page, slots)) (storePage W db e s req page)

/-! ## The clause of a page -/

variable {W db e} {caller : Option Arg} {req : QueryXRequest} {st : Statement}
  {extras : List Frag} {pargs : List Arg} {D : Pg V} {r : Row V} {tr : Translation}
  {res : Except QueryError (QueryResponse V)} {order : List OrderBy} {limit : Int32}

theorem phrase_cmp (c : String) (o : CmpOp) (p : Nat) : Phrase [.col c, .op o, .param p] :=
  ⟨_, .conj (.unit (.pred (p := .cmp o c p) fun _ => rfl))⟩

theorem phrase_extraPredicates (h : extraPredicates e caller = .ok (extras, pargs)) : ∀ x ∈ extras, Phrase x := by
  unfold extraPredicates at h
  split at h
  · cases h
    exact phrase_softDelete
  · split at h
    · cases h
    cases h
    intro x hx
    rcases List.mem_append.mp hx with hx | hx
    · exact phrase_softDelete x hx
    · rw [List.mem_singleton.mp hx]
      exact phrase_cmp _ _ _

/-- **The extra predicates say what a caller may see.** -/
theorem value_extraPredicates {more : List Arg} (h : extraPredicates e caller = .ok (extras, pargs)) :
    (∀ x ∈ extras, fragValue D.toDialect r (paramsFrom D 1 (pargs ++ more)) x = some .true) ↔
      Visible D e caller r := by
  unfold extraPredicates at h
  split at h
  · rename_i hpart
    cases h
    rw [value_softDelete]
    unfold Visible inPartition
    simp [hpart]
  · rename_i hpart
    split at h
    · cases h
    rename_i a
    cases h
    rw [List.forall_mem_append, value_softDelete, List.forall_mem_singleton, Visible]
    refine and_congr_right fun _ => ?_
    have hval : fragValue D.toDialect r (paramsFrom D 1 ([a] ++ more)) [.col e.partitionField, .op .eq, .param 1]
        = some (lift₂ (r e.partitionField) (some (D.bind a)) (D.cmp e.partitionField .eq)) := rfl
    rw [hval]
    unfold inPartition
    cases r e.partitionField with
    | none => simp [hpart, lift₂]
    | some v => cases hcmp : D.cmp e.partitionField .eq v (D.bind a) <;> simp [hpart, lift₂, hcmp, Tri.ofBool]

/-- The steps of a statement. -/
theorem queryStatement_ok (h : queryStatement W e caller req = .ok st) :
    ∃ cursor extras pargs tr, DecodePageToken (W.tokenOf req.pageToken) e.id = .ok cursor ∧
      extraPredicates e caller = .ok (extras, pargs) ∧
      TranslateFilter (buildFilterSpec e) (W.filterOf req.filter) (pargs.length + 1) extras = .ok tr ∧
      pageStatement tr.sql (pargs ++ tr.args) (buildKeysetCols e req.order) cursor (clampLimit req.limit) = .ok st := by
  obtain ⟨cursor, hcursor, h⟩ := bind_ok h
  obtain ⟨⟨extras, pargs⟩, hex, h⟩ := bind_ok h
  obtain ⟨tr, htr, h⟩ := bind_ok h
  exact ⟨cursor, extras, pargs, tr, mapError_ok hcursor, hex, mapError_ok htr, mapError_ok h⟩

theorem queryStatement_eq {cursor : List Arg} (hcursor : DecodePageToken (W.tokenOf req.pageToken) e.id = .ok cursor)
    (hex : extraPredicates e caller = .ok (extras, pargs))
    (htr : TranslateFilter (buildFilterSpec e) (W.filterOf req.filter) (pargs.length + 1) extras = .ok tr) :
    queryStatement W e caller req = (pageStatement tr.sql (pargs ++ tr.args) (buildKeysetCols e req.order) cursor
      (clampLimit req.limit)).mapError .invalid := by
  simp only [queryStatement, hcursor, hex, htr, Except.mapError, bind, Except.bind]

/-- The extra predicates use the partition's placeholder only. -/
theorem params_extraPredicates (h : extraPredicates e caller = .ok (extras, pargs)) :
    ∀ x ∈ extras, Within 1 (pargs.length + 1) x := by
  have hsoft : ∀ hi, ∀ x ∈ softDeletePredicate e, Within 1 hi x := by
    intro hi x hx n hn
    unfold softDeletePredicate at hx
    split at hx
    · cases hx
    · rw [List.mem_singleton.mp hx] at hn
      simp at hn
  unfold extraPredicates at h
  split at h
  · cases h
    exact hsoft _
  · split at h
    · cases h
    cases h
    intro x hx
    rcases List.mem_append.mp hx with hx | hx
    · exact hsoft _ x hx
    · rw [List.mem_singleton.mp hx]
      intro n hn
      simp at hn
      simp [hn]

/-- **A row that meets the clause is one the caller may see**, whatever the filter and the token are. -/
theorem visible_of_value (h : queryStatement W e caller req = .ok st)
    (hr : fragValue D.toDialect r (st.params D) st.select.where_ = some .true) : Visible D e caller r := by
  obtain ⟨cursor, extras, pargs, tr, _, hex, htr, hst⟩ := queryStatement_ok h
  obtain ⟨more, hargs⟩ := pageStatement_args hst
  have hsel := page_selects (phrase_extraPredicates hex) htr hst hr
  unfold Statement.params at hsel
  rw [hargs, List.append_assoc] at hsel
  exact (value_extraPredicates hex).mp hsel

/-- **The pages of an accepted request**: what meets its clause, in order. -/
theorem page_iff (hst : queryStatement W e caller req = .ok st) :
    Page W db e caller req res ↔
      ∃ rows : List (Row V),
        rows.Perm (st.select.matching (db.driver e.id).toDialect (st.params (db.driver e.id).toPg) (db.table e.id)) ∧
        InOrder (db.driver e.id).toDialect (buildKeysetCols e req.order) rows ∧
        res = .ok (trimPage e.id (extractCursor (db.driver e.id).toDriver e req.order) (clampLimit req.limit)
          (rows.take (clampLimit req.limit + 1))) := by
  obtain ⟨cursor, extras, pargs, tr, _, hex, htr, hpage⟩ := queryStatement_ok hst
  obtain ⟨user, huser, hextras, hsql⟩ := TranslateFilter_units htr (phrase_extraPredicates hex)
  rw [hsql] at hpage
  obtain ⟨more, hmore, hwhere⟩ := pageStatement_where (huser.append hextras) hpage
  obtain ⟨horder, hlimit⟩ := pageStatement_form hpage
  have hparses : st.select.Parses := by
    unfold Select.Parses
    rw [hwhere]
    exact parses_units ((huser.append hextras).append hmore)
  constructor
  · intro hpage
    cases hpage with
    | refused h =>
      rw [hst] at h
      cases h
    | @answered st' rows h hrows =>
      rw [hst] at h
      cases h
      obtain ⟨_, all, hperm, hsorted, rfl⟩ := hrows
      rw [horder] at hsorted
      rw [hlimit]
      exact ⟨all, hperm, hsorted, rfl⟩
  · rintro ⟨rows, hperm, hsorted, rfl⟩
    rw [← horder] at hsorted
    refine .answered hst ⟨hparses, rows, hperm, hsorted, ?_⟩
    rw [hlimit]

/-- The statement of a request with nothing but an order and a limit. -/
theorem queryStatement_plain (hex : extraPredicates e caller = .ok (extras, pargs)) :
    queryStatement W e caller { order := order, limit := limit }
      = .ok ⟨⟨sepBy .kwAnd (extras.map paren), buildKeysetCols e order, some (clampLimit limit + 1)⟩,
          pargs ++ [.i32 (Int32.ofNat (clampLimit limit + 1))]⟩ := by
  have hcursor : DecodePageToken (W.tokenOf []) e.id = .ok [] := by rw [W.tokenOf_nil]; rfl
  have htr := @TranslateFilter_none extras (pargs.length + 1) (buildFilterSpec e) (phrase_extraPredicates hex)
  rw [← W.filterOf_nil] at htr
  rw [queryStatement_eq hcursor hex htr]
  show Except.ok (Statement.mk _ (pargs ++ [] ++ _)) = _
  rw [List.append_nil]

/-- It selects all that the caller may see. -/
theorem matching_plain {table : List (Row V)} (hex : extraPredicates e caller = .ok (extras, pargs))
    (h : queryStatement W e caller { order := order, limit := limit } = .ok st) :
    st.select.matching D.toDialect (st.params D) table = table.filter fun r => decide (Visible D e caller r) := by
  rw [queryStatement_plain hex] at h
  cases h
  refine List.filter_congr fun r _ => ?_
  rw [Bool.eq_iff_iff, beq_iff_eq, decide_eq_true_eq]
  show fragValue _ _ _ (sepBy .kwAnd (extras.map paren)) = _ ↔ _
  rw [fragValue_units (units_paren (phrase_extraPredicates hex)), List.forall_mem_map]
  show (∀ x ∈ extras, fragValue _ _ (paramsFrom D 1 _) _ = _) ↔ _
  rw [← value_extraPredicates hex]
  exact forall₂_congr fun x hx => by rw [fragValue_paren (phrase_extraPredicates hex x hx)]

/-- **The pages of a request with nothing but an order and a limit**: what the caller may see, in order. -/
theorem page_plain_iff (order : List OrderBy) (hex : extraPredicates e caller = .ok (extras, pargs)) :
    Page W db e caller { order := order, limit := limit } res ↔
      ∃ rows : List (Row V),
        rows.Perm ((db.table e.id).filter fun r => decide (Visible (db.driver e.id).toPg e caller r)) ∧
        InOrder (db.driver e.id).toDialect (buildKeysetCols e order) rows ∧
        res = .ok (trimPage e.id (extractCursor (db.driver e.id).toDriver e order) (clampLimit limit)
          (rows.take (clampLimit limit + 1))) := by
  have hst := @queryStatement_plain W e caller extras pargs order limit hex
  rw [page_iff hst, matching_plain hex hst]

end Atlantis.Query
