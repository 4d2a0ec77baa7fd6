import Mathlib.Data.String.Basic
import Atlantis.Query.Page

/-!
# `Server.Query` — `handleQuery` and the caller's partition

The runtime server answers a query with `handleQuery` of `internal/server/entity/handler.go`. Its clause has
the filter, the soft-delete predicate and the keyset predicate. `dsl.Entity.PartitionField` promises one part
more, `WHERE <PartitionField> = $callerPartition` in every `QueryX` handler, and the generated handlers have
it; here nothing reads the caller's partition.

So what a caller can see is what the table holds. Whatever the request, a returned row is live
(`live_of_handleQuery`), and for every live row there is a request that returns it (`exists_page`): the first
page if nothing sorts before the row, otherwise the page after the row that precedes it, whose key a caller
may write into a token. Isolation holds exactly on tables where there is nothing to isolate.
-/

namespace Atlantis.Server

open Sql Schema Query Lib

/-- What `handleQuery` reads of its request. -/
structure QueryRequest where
  filter : Option Filter := none
  limit : Int32 := 0
  pageToken : PageToken := .empty

/-- `buildDefaultKeysetCols`: the primary key, ascending. -/
def buildDefaultKeysetCols (e : Entity) : List KeysetColumn := ascending (PKColumns e)

/-- `handleQuery` up to the call of the database. -/
def handleQueryStatement (e : Entity) (req : QueryRequest) : Except String Statement := do
  let cursorVals ← DecodePageToken req.pageToken e.id
  let tr ← TranslateFilter (buildFilterSpec e) req.filter 1 (softDeletePredicate e)
  pageStatement tr.sql tr.args (buildDefaultKeysetCols e) cursorVals (clampLimit req.limit)

section

variable {V : Type} (D : Driver V) (e : Entity) (table : List (Row V))

/-- **`handleQuery`**: the outcomes a request may have on a table. The caller's context is not among the
    arguments because the function reads nothing of it but its deadline. -/
inductive HandleQuery (req : QueryRequest) : Except String (QueryResponse V) → Prop where
  | refused {msg : String} (h : handleQueryStatement e req = .error msg) : HandleQuery req (.error msg)
  | answered {st : Statement} {rows : List (Row V)} (h : handleQueryStatement e req = .ok st)
      (hrows : st.select.Returns D.toDialect (st.params D.toPg) table rows) :
      HandleQuery req (.ok (trimPage e.id (extractCursorValues D (buildDefaultKeysetCols e)) (clampLimit req.limit) rows))

/-- What the schema and the database guarantee about a table's key: its columns are not null and compared by
    a linear order, and each of its values is what some page-token value is bound to. -/
structure KeyedTable : Prop where
  linear : ∀ c ∈ PKColumns e, D.Linear c
  notNull : ∀ r ∈ table, ∀ c ∈ PKColumns e, (r c).isSome
  sendable : ∀ r ∈ table, ∀ c ∈ PKColumns e, ∃ ptv a, decodePageTokenValue ptv = .ok a ∧ r c = some (D.bind a)

variable {D e table} {req : QueryRequest} {resp : QueryResponse V} {r m : Row V}

/-! ## What is returned is live -/

theorem live_of_handleQuery (h : HandleQuery D e table req (.ok resp)) (hr : r ∈ resp.entities) :
    r ∈ table ∧ Live e r := by
  cases h with
  | @answered st rows hst hrows =>
    rw [trimPage_entities] at hr
    obtain ⟨htable, hvalue⟩ := hrows.mem (List.mem_of_mem_take hr)
    obtain ⟨cursor, _, hst⟩ := bind_ok hst
    obtain ⟨tr, htr, hst⟩ := bind_ok hst
    exact ⟨htable, value_softDelete.mp (page_selects phrase_softDelete htr hst hvalue)⟩

/-! ## What is live can be returned -/

/-- A row that no matching row sorts before is on the page. -/
theorem exists_answer_of_first {st : Statement} (hst : handleQueryStatement e req = .ok st)
    (hlinear : ∀ c ∈ PKColumns e, D.Linear c) (hr : r ∈ st.select.matching D.toDialect (st.params D.toPg) table)
    (hfirst : ∀ s ∈ st.select.matching D.toDialect (st.params D.toPg) table,
      rowBefore D.toDialect (buildDefaultKeysetCols e) s r = false) :
    ∃ resp, HandleQuery D e table req (.ok resp) ∧ r ∈ resp.entities := by
  obtain ⟨horder, hlimit⟩ : st.select.orderBy = buildDefaultKeysetCols e ∧
      st.select.limit = some (clampLimit req.limit + 1) := by
    obtain ⟨_, _, hst⟩ := bind_ok hst
    obtain ⟨_, _, hst⟩ := bind_ok hst
    exact pageStatement_form hst
  have hkeys : ∀ k ∈ st.select.orderBy, D.Linear k.column := by
    intro k hk
    rw [horder] at hk
    obtain ⟨c, hc, rfl⟩ := List.mem_map.mp hk
    exact hlinear c hc
  obtain ⟨rest, hperm, hsorted⟩ := Select.exists_first hkeys hr (by rw [horder]; exact hfirst)
  have hparses : st.select.Parses := by
    have hvalue := (Select.mem_matching.mp hr).2
    unfold fragValue at hvalue
    split at hvalue
    · exact .inl ‹_›
    · obtain ⟨_, hparse, _⟩ := Option.map_eq_some_iff.mp hvalue
      exact .inr (by rw [hparse]; rfl)
  have hrows : st.select.Returns D.toDialect (st.params D.toPg) table
      ((r :: rest).take (clampLimit req.limit + 1)) :=
    ⟨hparses, r :: rest, hperm, hsorted, by rw [hlimit]⟩
  refine ⟨_, .answered hst hrows, ?_⟩
  rw [trimPage_entities, List.take_take, Nat.min_eq_left (Nat.le_succ _),
    ← Nat.succ_pred_eq_of_pos (clampLimit_bounds req.limit).1, List.take_succ_cons]
  exact List.mem_cons_self

/-- A row's key, as a caller would write it into a token. -/
theorem exists_token (hkeys : KeyedTable D e table) (hm : m ∈ table) (i : Nat) {cs : List String}
    (hcs : ∀ c ∈ cs, c ∈ PKColumns e) :
    ∃ values args, decodePageTokenValues i values = .ok args ∧
      List.Forall₂ (fun c a => m c = some (D.bind a)) cs args := by
  induction cs generalizing i with
  | nil => exact ⟨[], [], rfl, .nil⟩
  | cons c cs ih =>
    obtain ⟨ptv, a, hdec, ha⟩ := hkeys.sendable m hm c (hcs c (by simp))
    obtain ⟨values, args, hvalues, hargs⟩ := ih (i + 1) fun x hx => hcs x (List.mem_cons_of_mem _ hx)
    refine ⟨ptv :: values, a :: args, ?_, .cons ha hargs⟩
    simp only [decodePageTokenValues, hdec, hvalues]
    rfl

/-- The statement of a request without a filter. -/
theorem statement_of_token {token : PageToken} {cursor : List Arg} (h : DecodePageToken token e.id = .ok cursor) :
    handleQueryStatement e { pageToken := token }
      = pageStatement (sepBy .kwAnd ((softDeletePredicate e).map paren)) [] (buildDefaultKeysetCols e) cursor
          (clampLimit 0) := by
  unfold handleQueryStatement
  simp only [h, TranslateFilter_none phrase_softDelete]
  rfl

theorem units_softDelete : Units ((softDeletePredicate e).map paren) := units_paren phrase_softDelete

theorem value_units_softDelete {ps : Params V} :
    (∀ p ∈ (softDeletePredicate e).map paren, fragValue D.toDialect r ps p = some .true) ↔ Live e r := by
  rw [List.forall_mem_map, ← value_softDelete]
  exact forall₂_congr fun x hx => by rw [fragValue_paren (phrase_softDelete x hx)]

/-- The first page: all live rows match. -/
theorem exists_first_page :
    ∃ req st, handleQueryStatement e req = .ok st ∧
      ∀ s, s ∈ st.select.matching D.toDialect (st.params D.toPg) table ↔ s ∈ table ∧ Live e s := by
  have hdecode : DecodePageToken .empty e.id = .ok [] := rfl
  refine ⟨{ pageToken := .empty }, _, statement_of_token hdecode, fun s => ?_⟩
  rw [Select.mem_matching]
  show _ ∧ fragValue _ _ _ (sepBy .kwAnd ((softDeletePredicate e).map paren)) = _ ↔ _
  rw [fragValue_units units_softDelete, value_units_softDelete]

/-- **The page after a row**: the live rows that it sorts before match. -/
theorem exists_page_after (hkeys : KeyedTable D e table) (hm : m ∈ table) (hpk : PKColumns e ≠ []) :
    ∃ req st, handleQueryStatement e req = .ok st ∧ ∀ s, s ∈ st.select.matching D.toDialect (st.params D.toPg) table ↔
      s ∈ table ∧ Live e s ∧ rowBefore D.toDialect (buildDefaultKeysetCols e) m s = true := by
  have hcols : ∀ {P : String → Prop}, (∀ c ∈ PKColumns e, P c) → ∀ k ∈ buildDefaultKeysetCols e, P k.column := by
    intro P hP k hk
    obtain ⟨c, hc, rfl⟩ := List.mem_map.mp hk
    exact hP c hc
  obtain ⟨values, args, hvalues, hargs⟩ := exists_token hkeys hm 0 (fun c hc => hc)
  have hdecode : DecodePageToken (.issued e.id values) e.id = .ok args := by
    simp only [DecodePageToken, ne_eq, not_true_eq_false, if_false, hvalues]
  have hlen : (buildDefaultKeysetCols e).length = args.length := by
    rw [← hargs.length_eq]
    exact List.length_map _
  have hne : args ≠ [] := by
    rintro rfl
    exact hpk (List.length_eq_zero_iff.mp hargs.length_eq)
  have hfor : CursorFor (buildDefaultKeysetCols e) (args.map D.bind) m := by
    unfold CursorFor buildDefaultKeysetCols ascending
    rw [List.forall₂_map_left_iff, List.forall₂_map_right_iff]
    exact hargs.imp fun c a hca v hv => Option.some.inj (hca.symm.trans hv)
  obtain ⟨st, hst⟩ := @exists_pageStatement _ _ [] _ _ hlen
  refine ⟨_, st, (statement_of_token hdecode).trans hst, fun s => ?_⟩
  have hown : Within 1 (([] : List Arg).length + 1) (sepBy .kwAnd ((softDeletePredicate e).map paren)) := by
    intro n hn
    unfold softDeletePredicate at hn
    split at hn <;> simp [sepBy, paren] at hn
  rw [matching_next units_softDelete hown (hcols hkeys.linear) hlen hne hst, List.mem_filter,
    List.mem_filter, beq_iff_eq, fragValue_units units_softDelete, value_units_softDelete, and_assoc]
  refine and_congr_right fun hs => and_congr_right fun _ => ?_
  rw [afterCursor_iff_rowBefore (hcols hkeys.linear) hfor (hcols (hkeys.notNull m hm)) (hcols (hkeys.notNull s hs))]

/-- **Every live row is on some page.** -/
theorem exists_page (hkeys : KeyedTable D e table) (hr : r ∈ table) (hlive : Live e r) :
    ∃ req resp, HandleQuery D e table req (.ok resp) ∧ r ∈ resp.entities := by
  let cols := buildDefaultKeysetCols e
  have hlinear : ∀ k ∈ cols, D.Linear k.column := by
    intro k hk
    obtain ⟨c, hc, rfl⟩ := List.mem_map.mp hk
    exact hkeys.linear c hc
  let earlier := table.filter fun s => decide (Live e s) && rowBefore D.toDialect cols s r
  have hearlier : ∀ s, s ∈ earlier ↔ s ∈ table ∧ Live e s ∧ rowBefore D.toDialect cols s r = true := by
    intro s
    simp only [earlier, List.mem_filter, Bool.and_eq_true, decide_eq_true_eq]
  by_cases hnil : earlier = []
  · -- nothing live sorts before the row: it is on the first page
    obtain ⟨req, st, hst, hmatch⟩ := @exists_first_page V D e table
    obtain ⟨resp, hresp⟩ := exists_answer_of_first hst hkeys.linear ((hmatch r).mpr ⟨hr, hlive⟩) (by
      intro s hs
      obtain ⟨hs, hslive⟩ := (hmatch s).mp hs
      by_contra hbefore
      have hmem := (hearlier s).mpr ⟨hs, hslive, by simpa using hbefore⟩
      rw [hnil] at hmem
      cases hmem)
    exact ⟨req, resp, hresp⟩
  · -- the page after the last of the rows before it: no row is between the two
    obtain ⟨m, hm, hlast⟩ := exists_last hlinear hnil
    obtain ⟨hmtable, hmlive, hmr⟩ := (hearlier m).mp hm
    have hpk : PKColumns e ≠ [] := by
      intro hpk
      simp [cols, buildDefaultKeysetCols, hpk, ascending, rowBefore] at hmr
    obtain ⟨req, st, hst, hmatch⟩ := exists_page_after hkeys hmtable hpk
    obtain ⟨resp, hresp⟩ := exists_answer_of_first hst hkeys.linear ((hmatch r).mpr ⟨hr, hlive, hmr⟩) (by
      intro s hs
      obtain ⟨hs, hslive, hms⟩ := (hmatch s).mp hs
      by_contra hbefore
      have hnot := hlast s ((hearlier s).mpr ⟨hs, hslive, by simpa using hbefore⟩)
      rw [hms] at hnot
      cases hnot)
    exact ⟨_, resp, hresp⟩

/-! ## Isolation -/

/-- **What isolation depends on.** All rows `handleQuery` returns are in the partition `v`, for every filter,
    token and limit, exactly when every live row of the table is: the caller's partition is no part of the
    clause, so only the table's content can keep another partition's rows away. -/
theorem handleQuery_isolated_iff {v : V} (hkeys : KeyedTable D e table) :
    (∀ req resp, HandleQuery D e table req (.ok resp) → ∀ r ∈ resp.entities, r e.partitionField = some v) ↔
      ∀ r ∈ table, Live e r → r e.partitionField = some v := by
  constructor
  · intro h r hr hlive
    obtain ⟨req, resp, hresp, hmem⟩ := exists_page hkeys hr hlive
    exact h req resp hresp r hmem
  · intro h req resp hresp r hr
    obtain ⟨htable, hlive⟩ := live_of_handleQuery hresp hr
    exact h r htable hlive

end

/-! ## The cursor of a page -/

/-- **The keyset predicate selects what is strictly after the cursor** in the order of the `ORDER BY`, whatever the mix of
    directions: by the values of the cursor, and by any row that has them. -/
theorem keyset_strictly_after {V : Type} {B : Pg V} {cols : List KeysetColumn} {cursor : List Arg} {r : Row V}
    (hcols : cols ≠ []) (hlen : cols.length = cursor.length) (hlin : ∀ k ∈ cols, B.Linear k.column)
    (hrow : ∀ k ∈ cols, (r k.column).isSome) (start : Nat) :
    ∃ frag, KeysetPredicate cols cursor start = .ok (frag, cursor) ∧
      (fragValue B.toDialect r (paramsFrom B start cursor) frag = some .true ↔
        afterCursor B.toDialect cols (cursor.map B.bind) r = true) ∧
      ∀ s : Row V, List.Forall₂ (fun (k : KeysetColumn) a => s k.column = some (B.bind a)) cols cursor →
        (fragValue B.toDialect r (paramsFrom B start cursor) frag = some .true ↔
          rowBefore B.toDialect cols s r = true) := by
  have hne : cursor ≠ [] := by
    rintro rfl
    exact hcols (List.length_eq_zero_iff.mp hlen)
  obtain ⟨frag, hfrag⟩ := exists_KeysetPredicate hlen hne start
  have hbound := (binds_paramsFrom B start cursor).cursorBound
  rw [← hlen] at hbound
  have htrue := KeysetPredicate_true_iff (r := r) hfrag hne hlin hbound
  refine ⟨frag, hfrag, htrue, fun s hs => ?_⟩
  have hsome : ∀ k ∈ cols, (s k.column).isSome := by
    intro k hk
    obtain ⟨i, hi, rfl⟩ := List.mem_iff_getElem.mp hk
    exact Option.isSome_of_eq_some ((List.forall₂_iff_get.mp hs).2 i hi (hlen ▸ hi))
  have hcursor : CursorFor cols (cursor.map B.bind) s :=
    List.forall₂_map_right_iff.mpr (hs.imp fun k a hk v hv => Option.some.inj (hk.symm.trans hv))
  rw [htrue, afterCursor_iff_rowBefore hlin hcursor hsome hrow]

/-! ## Two tenants in one table -/

/-- A database in which every value is its text. -/
def textPg : Pg String where
  cmp _ o x y :=
    match o with
    | .eq => x = y
    | .ne => x ≠ y
    | .lt => x < y
    | .le => x ≤ y
    | .gt => x > y
    | .ge => x ≥ y
  numCmp o x y :=
    match o with
    | .eq => x = y
    | .ne => x ≠ y
    | _ => false
  text := String.toList
  lower := id
  lower_meta := isMeta_id
  lower_fix := id_fix
  bind
    | .str s => s
    | .i32 v => toString v.toInt
    | .i64 v => toString v.toInt
    | .bool b => toString b
    | .time ns => toString ns
    | .bytes b => toString b
  text_str _ := rfl

theorem textPg_linear (c : String) : textPg.Linear c where
  eq_iff a b := by simp [textPg]
  gt_eq a b := rfl
  irrefl a := decide_eq_false (lt_irrefl a)
  trans {x y z} hxy hyz := by
    simp only [textPg, decide_eq_true_eq] at hxy hyz ⊢
    exact lt_trans hxy hyz
  total {x y} hne := by
    simp only [textPg, decide_eq_true_eq]
    exact lt_or_gt_of_ne hne

def textDriver : Driver String where
  toPg := textPg
  cursorArg _ x :=
    match x with
    | some s => .arg (.str s)
    | none => .nil

/-- Notes of several tenants. -/
def note : Entity where
  name := "Note"
  namespace_ := "crm"
  fields := [
    { name := "id", type := .simple "text", primary := true, notNull := true },
    { name := "tenant", type := .simple "text", notNull := true }]
  partitionField := "tenant"

def noteOf (id tenant : String) : Row String := fun c =>
  if c = "id" then some id else if c = "tenant" then some tenant else none

/-- A row with the cursor's first value and, in descending order, a later second one. -/
theorem keyset_strictly_after_notes : ∃ frag,
    KeysetPredicate [⟨"id", false⟩, ⟨"tenant", true⟩] [.str "1", .str "globex"] 3 = .ok (frag, [.str "1", .str "globex"]) ∧
      fragValue textPg.toDialect (noteOf "1" "acme") (paramsFrom textPg 3 [.str "1", .str "globex"]) frag = some .true := by
  obtain ⟨frag, hfrag, htrue, _⟩ := @keyset_strictly_after _ textPg [⟨"id", false⟩, ⟨"tenant", true⟩]
    [.str "1", .str "globex"] (noteOf "1" "acme") (by decide) rfl (fun k _ => textPg_linear k.column) (by decide) 3
  exact ⟨frag, hfrag, htrue.mpr (by decide +kernel)⟩

def notes : List (Row String) := [noteOf "1" "acme", noteOf "2" "globex"]

/-- The first page of the notes, whoever asks, has the notes of both tenants. -/
theorem handleQuery_crosses_partitions :
    note.partitionField = "tenant" ∧
      ∃ resp, HandleQuery textDriver note notes {} (.ok resp) ∧
        ∃ r ∈ resp.entities, ∃ s ∈ resp.entities, r note.partitionField = some "acme" ∧
          s note.partitionField = some "globex" := by
  let st : Statement := ⟨⟨[], [⟨"id", false⟩], some 101⟩, [.i32 101]⟩
  have hst : handleQueryStatement note {} = .ok st := by decide +kernel
  have hrows : st.select.Returns textDriver.toDialect (st.params textDriver.toPg) notes notes := by
    refine ⟨.inl rfl, notes, .refl _, ?_, rfl⟩
    have hbefore : rowBefore textDriver.toDialect st.select.orderBy (noteOf "2" "globex") (noteOf "1" "acme")
        = false := by decide +kernel
    simpa [InOrder, notes] using hbefore
  refine ⟨rfl, _, .answered hst hrows, ?_⟩
  · refine ⟨noteOf "1" "acme", ?_, noteOf "2" "globex", ?_, rfl, rfl⟩
    · exact List.mem_cons_self
    · exact List.mem_cons_of_mem _ List.mem_cons_self

theorem keyedTable_notes : KeyedTable textDriver note notes where
  linear c _ := textPg_linear c
  notNull r hr c hc := by
    have hid : c = "id" := List.mem_singleton.mp hc
    subst hid
    simp only [notes, List.mem_cons, List.not_mem_nil, or_false] at hr
    rcases hr with rfl | rfl <;> rfl
  sendable r hr c hc := by
    have hid : c = "id" := List.mem_singleton.mp hc
    subst hid
    simp only [notes, List.mem_cons, List.not_mem_nil, or_false] at hr
    rcases hr with rfl | rfl
    · exact ⟨.s "1", .str "1", rfl, rfl⟩
    · exact ⟨.s "2", .str "2", rfl, rfl⟩

theorem handleQuery_isolated_iff_notes :
    KeyedTable textDriver note notes ∧
      ((∀ req resp, HandleQuery textDriver note notes req (.ok resp) →
          ∀ r ∈ resp.entities, r note.partitionField = some "acme") ↔
        ∀ r ∈ notes, Live note r → r note.partitionField = some "acme") :=
  ⟨keyedTable_notes, handleQuery_isolated_iff keyedTable_notes⟩

end Atlantis.Server
