import Mathlib.Data.Countable.Basic
import Mathlib.Data.FinEnum
import Mathlib.Logic.Equiv.List
import Mathlib.Tactic.DeriveCountable
import Atlantis.Query.CachedQuery

/-!
# `Query.Paging` — following the page tokens of `QueryX`

A client asks for the first page of a request and follows `next_page_token` until it is empty, with whatever
limits it likes (`Following`). The pages are those of the database; an entry of the query cache takes the place
of one only as `Query.CachedQuery` says.

The rows that match are those the caller may see and the filter holds on (`matchingRows`). The statement selects
them where no bare `OR` stands next to another arm of the filter.

The token of a page holds the coordinates of its last row in the order of the request, and the next page is
what is strictly after them (`matching_next`). So a walk along the tokens is a walk of `Lib.Paging`, with two
relations: the order of `ORDER BY`, and *strictly after what the token decodes to*. They do not fit together
where two rows have the same coordinates, which happens when the key has more columns than its first one, where
a coordinate is `NULL`, and where a coordinate does not go into a token, since the encoding error is dropped.
`pagesVisitOnce_iff` says that there is nothing else, in terms of the values of the rows.
-/

namespace Atlantis.Query

open Sql Schema Lib

/-- The same request, for the page after a token. -/
def QueryXRequest.after (req : QueryXRequest) (token : Bytes) (limit : Int32) : QueryXRequest :=
  { req with pageToken := token, limit := limit }

/-- A token that was issued is the one that arrives. -/
def Wire.TokensReturn (W : Wire) : Prop :=
  ∀ id values, W.tokenOf (W.tokenText (.issued id values)) = .issued id values

/-- What the database and its driver guarantee about the sort columns: each is compared by a linear order, and a
    value that went through a token is bound to what it was, a `NULL` to what its getter returns. -/
structure Driver.SortColumns {V : Type} (D : Driver V) (cols : List KeysetColumn) (zero : String → V) : Prop where
  linear : ∀ k ∈ cols, D.Linear k.column
  returns : ∀ k ∈ cols, ∀ v x ptv a, D.cursorArg k.column v = .arg x → encodePageTokenValue (.arg x) = .ok ptv →
    decodePageTokenValue ptv = .ok a → D.bind a = v.getD (zero k.column)

variable {V : Type} (W : Wire) (db : Db V) (e : Entity) (caller : Option Arg) (req : QueryXRequest)

/-- **Following the tokens**: the rows received so far, and the token of the last page. -/
inductive Following : List (Row V) → PageToken → Prop where
  | first {limit : Int32} {page : QueryResponse V} (h : Page W db e caller (req.after [] limit) (.ok page)) :
      Following page.entities page.nextPageToken
  | next {done : List (Row V)} {token : PageToken} {limit : Int32} {page : QueryResponse V}
      (hdone : Following done token) (hmore : W.tokenText token ≠ [])
      (h : Page W db e caller (req.after (W.tokenText token) limit) (.ok page)) :
      Following (done ++ page.entities) page.nextPageToken

/-- **A row matches**: the caller may see it, and the filter holds on it. -/
def Matches (D : Pg V) (r : Row V) : Prop :=
  Visible D e caller r ∧ ∀ m, W.filterOf req.filter = some m → m.holds D r (buildFilterSpec e) = .true

instance (D : Pg V) (r : Row V) : Decidable (Matches W e caller req D r) :=
  inferInstanceAs (Decidable (_ ∧ ∀ m ∈ W.filterOf req.filter, _))

def matchingRows : List (Row V) := (db.table e.id).filter fun r => decide (Matches W e caller req (db.driver e.id).toPg r)

/-- No bare `OR` stands next to another arm of the filter. -/
def OrsStandApart : Prop := ∀ m, W.filterOf req.filter = some m → m.OrsApart

/-- **Every matching row exactly once**: none twice on the way, all of them when the token is empty, and as long
    as it is not, the next page is answered and has rows on it. -/
def PagesVisitOnce : Prop :=
  ∀ done token, Following W db e caller req done token →
    done.Subperm (matchingRows W db e caller req) ∧
    (W.tokenText token = [] → done.Perm (matchingRows W db e caller req)) ∧
    (W.tokenText token ≠ [] → ∀ limit,
      (∃ res, Page W db e caller (req.after (W.tokenText token) limit) res) ∧
      ∀ res, Page W db e caller (req.after (W.tokenText token) limit) res → ∃ page, res = .ok page ∧ page.entities ≠ [])

/-- The values that the token of a row decodes to, if the row has one. -/
def tokenCursor (D : Driver V) (r : Row V) : Option (List Arg) :=
  match EncodePageToken e.id (extractCursor D e req.order r) with
  | .ok token => (DecodePageToken token e.id).toOption
  | .error _ => none

/-- The coordinates of the row go into a token. -/
def hasToken (D : Driver V) (r : Row V) : Bool := (tokenCursor e req D r).isSome

/-- `s` is strictly after what the token of `r` decodes to. -/
def afterToken (D : Driver V) (r s : Row V) : Bool :=
  match tokenCursor e req D r with
  | some cursor => afterCursor D.toDialect (buildKeysetCols e req.order) (cursor.map D.bind) s
  | none => false

/-- The key of the entity is a timestamp, which is a message where it is appended to a cursor. -/
def keyIsMessage : Bool :=
  match (e.findField (primaryPKName e)).map fun f => f.type.name with
  | some "timestamptz" | some "date" => true
  | _ => false

/-- The fields of the order list. -/
def orderFields : List Field :=
  req.order.filterMap fun o => e.fields.find? fun f => orderableType f.type && f.protoNumber == o.field

/-- All coordinates of the row are of types that go into a token. -/
def Sendable (D : Driver V) (r : Row V) : Prop :=
  (∀ k ∈ buildKeysetCols e req.order, ∃ a, D.cursorArg k.column (r k.column) = .arg a) ∧
    ((orderFields e req).any (·.name == primaryPKName e) = true ∨ keyIsMessage e = false)

/-- The coordinate of a row: a `NULL` is sent as something else. -/
def coordinate (zero : String → V) (r : Row V) (k : KeysetColumn) : V := (r k.column).getD (zero k.column)

/-- At the first sort column where `s` does not have what is sent for `r`, it has a value beyond it. -/
def Beyond (D : Driver V) (zero : String → V) (r s : Row V) : Prop :=
  ∃ front k rest v, buildKeysetCols e req.order = front ++ k :: rest ∧
    (∀ j ∈ front, s j.column = some (coordinate zero r j)) ∧ s k.column = some v ∧
    k.beyond D.toDialect v (coordinate zero r k) = true

/-- If `s` may come after `r` in the order of the request, then the coordinates of `r` can be sent and `s` is beyond
    them. -/
def Passed (D : Driver V) (zero : String → V) (r s : Row V) : Prop :=
  rowBefore D.toDialect (buildKeysetCols e req.order) s r = false → Sendable e req D r ∧ Beyond e req D zero r s

/-! ## Coordinates -/

variable {W db e caller req} {D : Driver V} {st : Statement} {limit : Int32} {r s t : Row V} {cursor : List Arg}

/-- The columns of a request, and what is extracted for them: the order list, and the key if it is not in it. -/
theorem keysetCols_column (e : Entity) (req : QueryXRequest) :
    (buildKeysetCols e req.order).map SortKey.column = (orderFields e req).map Field.name ++
      if (orderFields e req).any (·.name == primaryPKName e) then [] else [primaryPKName e] := by
  have hcols : ∀ orders : List OrderBy, (orders.filterMap fun o => (e.fields.find? fun f =>
      orderableType f.type && f.protoNumber == o.field).map fun f => (⟨f.name, o.desc⟩ : KeysetColumn)).map SortKey.column
      = (orders.filterMap fun o => e.fields.find? fun f => orderableType f.type && f.protoNumber == o.field).map
        Field.name := by
    intro orders
    rw [List.map_filterMap, List.map_filterMap]
    simp only [Option.map_map]
    rfl
  have hany : ∀ cols : List KeysetColumn, cols.any (·.column == primaryPKName e) =
      (cols.map SortKey.column).any (· == primaryPKName e) := fun cols => by rw [List.any_map]; rfl
  unfold buildKeysetCols orderFields
  simp only [hany, hcols, List.any_map, Function.comp_def]
  split <;> simp [hcols]

theorem extractCursor_eq (D : Driver V) (e : Entity) (req : QueryXRequest) (r : Row V) :
    extractCursor D e req.order r = ((orderFields e req).map fun f => D.cursorArg f.name (r f.name)) ++
      if (orderFields e req).any (·.name == primaryPKName e) then [] else [cursorTiebreak D e r] := by
  unfold extractCursor
  show (if (orderFields e req).any _ then _ else _) = _
  split <;> simp [orderFields]

/-- The key, where it is appended, is one that a token holds unless it is a message. -/
theorem cursorTiebreak_eq_arg {x : Arg} : cursorTiebreak D e r = .arg x ↔
    keyIsMessage e = false ∧ D.cursorArg (primaryPKName e) (r (primaryPKName e)) = .arg x := by
  unfold cursorTiebreak keyIsMessage
  generalize (e.findField (primaryPKName e)).map (fun f => f.type.name) = type
  split <;> simp

/-- The two switches are in step: what is extracted for a column is the column's value, if a token holds it. -/
theorem extractCursor_cols (D : Driver V) (e : Entity) (req : QueryXRequest) (r : Row V) :
    List.Forall₂ (fun k v => ∀ x, v = .arg x → D.cursorArg k.column (r k.column) = .arg x)
      (buildKeysetCols e req.order) (extractCursor D e req.order r) := by
  suffices h : List.Forall₂ (fun c v => ∀ x, v = .arg x → D.cursorArg c (r c) = .arg x)
      ((buildKeysetCols e req.order).map SortKey.column) (extractCursor D e req.order r) from
    List.forall₂_map_left_iff.mp h
  rw [keysetCols_column, extractCursor_eq]
  refine List.rel_append ?_ ?_
  · rw [List.forall₂_map_left_iff, List.forall₂_map_right_iff, List.forall₂_same]
    exact fun f _ x hx => hx
  · split
    · exact .nil
    · exact .cons (fun x hx => (cursorTiebreak_eq_arg.mp hx).2) .nil

/-- All that is extracted can be sent. -/
theorem sendable_iff : Sendable e req D r ↔ ∀ v ∈ extractCursor D e req.order r, ∃ a, v = .arg a := by
  have hcols : (∀ k ∈ buildKeysetCols e req.order, ∃ a, D.cursorArg k.column (r k.column) = .arg a) ↔
      ∀ c ∈ (buildKeysetCols e req.order).map SortKey.column, ∃ a, D.cursorArg c (r c) = .arg a := by
    rw [List.forall_mem_map]
  unfold Sendable
  rw [hcols, keysetCols_column, extractCursor_eq, List.forall_mem_append, List.forall_mem_append, List.forall_mem_map,
    List.forall_mem_map, and_assoc]
  refine and_congr_right fun _ => ?_
  split
  · rename_i hkey
    simp [hkey]
  · rename_i hkey
    simp only [List.forall_mem_singleton, cursorTiebreak_eq_arg, hkey, Bool.false_eq_true, false_or, exists_and_left]
    exact and_comm

theorem entity_id_ne_empty (e : Entity) : e.id ≠ "" := by
  intro h
  have hlen := congrArg String.length h
  have hdot : ".".length = 1 := rfl
  have hempty : "".length = 0 := rfl
  simp only [Entity.id, String.length_append] at hlen
  omega

theorem buildKeysetCols_ne_nil (e : Entity) (orders : List OrderBy) : buildKeysetCols e orders ≠ [] := by
  unfold buildKeysetCols
  simp only
  split
  · rename_i hany
    intro hnil
    rw [hnil] at hany
    cases hany
  · exact List.append_ne_nil_of_right_ne_nil _ (List.cons_ne_nil _ _)

/-- A row with a token is one whose token is accepted with its values. -/
theorem tokenCursor_some (h : tokenCursor e req D r = some cursor) :
    ∃ ptvs, nextPageToken e.id (extractCursor D e req.order) (some r) = .issued e.id ptvs ∧
      DecodePageToken (.issued e.id ptvs) e.id = .ok cursor ∧
      List.Forall₂ (fun v a => ∃ ptv, encodePageTokenValue v = .ok ptv ∧ decodePageTokenValue ptv = .ok a)
        (extractCursor D e req.order r) cursor := by
  unfold tokenCursor at h
  unfold nextPageToken
  split at h
  · rename_i token henc
    obtain ⟨ptvs, cursor', rfl, hdec, hvalues⟩ := DecodePageToken_of_encode henc
    rw [hdec] at h
    cases h
    simp only [henc]
    exact ⟨ptvs, rfl, hdec, hvalues⟩
  · cases h

/-- A row has a token exactly if its coordinates can be sent. -/
theorem hasToken_iff : hasToken e req D r = true ↔ Sendable e req D r := by
  rw [sendable_iff, hasToken, Option.isSome_iff_exists]
  constructor
  · rintro ⟨cursor, hcursor⟩
    obtain ⟨_, -, -, hvalues⟩ := tokenCursor_some hcursor
    have hargs : List.Forall₂ (fun v _ => (∃ a, v = CursorVal.arg a) ∧ True) (extractCursor D e req.order r) cursor := by
      refine hvalues.imp ?_
      rintro (a | _ | goType) _ ⟨ptv, hptv, -⟩
      · exact ⟨⟨a, rfl⟩, trivial⟩
      all_goals cases hptv
    exact ((List.forall₂_and_left _ _).mp hargs).1
  · intro hall
    obtain ⟨token, henc⟩ := exists_EncodePageToken (entity_id_ne_empty e) hall
    obtain ⟨ptvs, cursor, -, hdec, -⟩ := DecodePageToken_of_encode henc
    refine ⟨cursor, ?_⟩
    unfold tokenCursor
    rw [henc]
    simp only [hdec, Except.toOption]

/-- What was extracted from a row is bound to its coordinates. By induction on the columns. -/
theorem bound_of_values {zero : String → V} {cols : List KeysetColumn} {values : List CursorVal}
    (hD : D.SortColumns cols zero)
    (hcols : List.Forall₂ (fun k v => ∀ x, v = .arg x → D.cursorArg k.column (r k.column) = .arg x) cols values)
    (hvalues : List.Forall₂ (fun v a => ∃ ptv, encodePageTokenValue v = .ok ptv ∧ decodePageTokenValue ptv = .ok a)
      values cursor) : cursor.map D.bind = cols.map (coordinate zero r) := by
  have hreturns := hD.returns
  clear hD
  induction hcols generalizing cursor with
  | nil =>
    cases hvalues
    rfl
  | @cons k v cols values hk _ ih =>
    cases hvalues with
    | @cons _ a _ cursor ha hvalues =>
      obtain ⟨ptv, henc, hdec⟩ := ha
      rw [List.map_cons, List.map_cons, ih hvalues fun x hx => hreturns x (List.mem_cons_of_mem _ hx)]
      -- a coordinate that went into the token is one a token holds
      cases v with
      | nil | other goType => cases henc
      | arg x => rw [hreturns k List.mem_cons_self _ x ptv a (hk x rfl) henc hdec, coordinate]

variable {zero : String → V}

/-- The cursor of a row has the row's coordinates. -/
theorem bound_of_tokenCursor (hD : D.SortColumns (buildKeysetCols e req.order) zero)
    (h : tokenCursor e req D r = some cursor) :
    cursor.map D.bind = (buildKeysetCols e req.order).map (coordinate zero r) := by
  obtain ⟨_, -, -, hvalues⟩ := tokenCursor_some h
  exact bound_of_values hD (extractCursor_cols D e req r) hvalues

theorem cursorFor_coordinates (cols : List KeysetColumn) (r : Row V) : CursorFor cols (cols.map (coordinate zero r)) r := by
  unfold CursorFor
  rw [List.forall₂_map_right_iff, List.forall₂_same]
  intro k _ v hv
  rw [coordinate, hv, Option.getD_some]

/-- The cursor of a row has the row's values. -/
theorem cursorFor_of_tokenCursor (hD : D.SortColumns (buildKeysetCols e req.order) zero)
    (h : tokenCursor e req D r = some cursor) : CursorFor (buildKeysetCols e req.order) (cursor.map D.bind) r := by
  rw [bound_of_tokenCursor hD h]
  exact cursorFor_coordinates _ r

theorem afterToken_iff : afterToken e req D r s = true ↔
    ∃ cursor, tokenCursor e req D r = some cursor ∧
      afterCursor D.toDialect (buildKeysetCols e req.order) (cursor.map D.bind) s = true := by
  unfold afterToken
  cases tokenCursor e req D r with
  | none => simp
  | some cursor => simp

/-- Strictly after its token is beyond what is sent for the row. -/
theorem afterToken_iff_beyond (hD : D.SortColumns (buildKeysetCols e req.order) zero) (hr : hasToken e req D r = true) :
    afterToken e req D r s = true ↔ Beyond e req D zero r s := by
  obtain ⟨cursor, hcursor⟩ := Option.isSome_iff_exists.mp hr
  unfold afterToken
  rw [hcursor]
  show afterCursor _ _ _ _ = true ↔ _
  rw [bound_of_tokenCursor hD hcursor, afterCursor_map_iff hD.linear]
  rfl

/-- The limits a page may have. -/
def Limits (n : Nat) : Prop := ∃ limit : Int32, clampLimit limit = n

/-- **The two orders of a walk.** -/
theorem pagingOrder (hD : D.SortColumns (buildKeysetCols e req.order) zero) :
    PagingOrder (rowBefore D.toDialect (buildKeysetCols e req.order)) (afterToken e req D) Limits where
  before_asymm _ _ := rowBefore_asymm hD.linear
  not_before_trans _ _ _ := not_rowBefore_trans hD.linear
  follows_irrefl r := by
    rw [← Bool.not_eq_true, afterToken_iff]
    rintro ⟨cursor, hcursor, hafter⟩
    have hc := cursorFor_of_tokenCursor hD hcursor
    have hno := afterCursor_asymm hD.linear hc hc hafter
    rw [hafter] at hno
    cases hno
  follows_asymm h := by
    obtain ⟨cursor, hcursor, hafter⟩ := afterToken_iff.mp h
    rw [← Bool.not_eq_true, afterToken_iff]
    rintro ⟨cursor', hcursor', hafter'⟩
    rw [afterCursor_asymm hD.linear (cursorFor_of_tokenCursor hD hcursor) (cursorFor_of_tokenCursor hD hcursor') hafter]
      at hafter'
    cases hafter'
  follows_trans h h' := by
    obtain ⟨cursor, hcursor, hafter⟩ := afterToken_iff.mp h
    obtain ⟨cursor', hcursor', hafter'⟩ := afterToken_iff.mp h'
    exact afterToken_iff.mpr
      ⟨cursor, hcursor, afterCursor_trans hD.linear (cursorFor_of_tokenCursor hD hcursor') hafter hafter'⟩
  one := ⟨1, by decide⟩
  pos := by
    rintro n ⟨limit, rfl⟩
    exact (clampLimit_bounds limit).1

/-! ## Pages of a walk -/

variable {res : Except QueryError (QueryResponse V)}

/-- The statement of a first page has the clause of the filter only, and the others add to it. -/
theorem queryStatement_clause (h : queryStatement W e caller (req.after [] limit) = .ok st) :
    ∃ parts args, Units parts ∧ Within 1 (args.length + 1) (sepBy .kwAnd parts) ∧
      pageStatement (sepBy .kwAnd parts) args (buildKeysetCols e req.order) [] (clampLimit limit) = .ok st ∧
      (OrsStandApart W req → ∀ (B : Pg V) (table : List (Row V)),
        (table.filter fun r => fragValue B.toDialect r (paramsFrom B 1 args) (sepBy .kwAnd parts) == some .true)
          = table.filter fun r => decide (Matches W e caller req B r)) ∧
      ∀ token limit cursor, DecodePageToken (W.tokenOf token) e.id = .ok cursor →
        queryStatement W e caller (req.after token limit)
          = (pageStatement (sepBy .kwAnd parts) args (buildKeysetCols e req.order) cursor (clampLimit limit)).mapError
              .invalid := by
  obtain ⟨cursor, extras, pargs, tr, hcursor, hex, htr, hst⟩ := queryStatement_ok h
  have hnil : cursor = [] := by
    have hcursor : DecodePageToken (W.tokenOf []) e.id = .ok cursor := hcursor
    rw [W.tokenOf_nil] at hcursor
    exact (Except.ok.inj hcursor).symm
  subst hnil
  have hphrase := phrase_extraPredicates hex
  -- the clause mentions the arguments of the partition and the filter, whatever token comes with it
  obtain ⟨user, huser, hextras, hsql⟩ := TranslateFilter_units htr hphrase
  have hown : Within 1 ((pargs ++ tr.args).length + 1) tr.sql := by
    intro n hn
    rw [List.length_append]
    rw [← mem_params, (TranslateFilter_params htr).1, List.mem_append, List.mem_range'_1] at hn
    rcases hn with hrange | hn
    · omega
    · obtain ⟨x, hx, hn⟩ := List.mem_flatMap.mp hn
      have hown := params_extraPredicates hex x hx n (mem_params.mp hn)
      omega
  have hselects : OrsStandApart W req → ∀ (B : Pg V) (table : List (Row V)),
      (table.filter fun r => fragValue B.toDialect r (paramsFrom B 1 (pargs ++ tr.args)) tr.sql == some .true)
        = table.filter fun r => decide (Matches W e caller req B r) := by
    intro hapart B table
    refine List.filter_congr fun r _ => ?_
    obtain ⟨-, hbinds⟩ := Binds.append_iff.mp (binds_paramsFrom B 1 (pargs ++ tr.args))
    rw [Nat.add_comm] at hbinds
    rw [Bool.eq_iff_iff, beq_iff_eq, decide_eq_true_eq, TranslateFilter_selects htr hapart hbinds hphrase,
      value_extraPredicates hex]
    exact and_comm
  rw [hsql] at hst hown hselects
  refine ⟨_, pargs ++ tr.args, huser.append hextras, hown, hst, hselects, fun token limit cursor hcur => ?_⟩
  rw [@queryStatement_eq W e caller (req.after token limit) extras pargs tr cursor hcur hex htr, hsql]
  rfl

/-- The token to go on from a row with. -/
def tokenAfter (db : Db V) (e : Entity) (req : QueryXRequest) (c : Option (Row V)) : PageToken :=
  nextPageToken e.id (extractCursor (db.driver e.id).toDriver e req.order) c

/-- **A page of the rows**: they are sorted, and as many are sent as the limit allows. -/
def PageOf (db : Db V) (e : Entity) (req : QueryXRequest) (limit : Int32) (rows : List (Row V))
    (res : Except QueryError (QueryResponse V)) : Prop :=
  ∃ sorted : List (Row V), sorted.Perm rows ∧
    Arranged (rowBefore (db.driver e.id).toDialect (buildKeysetCols e req.order)) sorted ∧
    res = .ok ⟨sorted.take (clampLimit limit),
      tokenAfter db e req (boundary (hasToken e req (db.driver e.id).toDriver) sorted (clampLimit limit))⟩

/-- The token of a page comes from the row the walk goes on from. -/
theorem page_iff_pageOf {token : Bytes} (hq : queryStatement W e caller (req.after token limit) = .ok st) :
    Page W db e caller (req.after token limit) res ↔ PageOf db e req limit
      (st.select.matching (db.driver e.id).toDialect (st.params (db.driver e.id).toPg) (db.table e.id)) res := by
  rw [page_iff hq]
  refine exists_congr fun rows => and_congr_right fun _ => and_congr_right fun _ => ?_
  rw [show (req.after token limit).limit = limit from rfl]
  have hpos := (clampLimit_bounds limit).1
  generalize clampLimit limit = n at hpos ⊢
  suffices hpage : trimPage e.id (extractCursor (db.driver e.id).toDriver e req.order) n (rows.take (n + 1))
      = ⟨rows.take n, tokenAfter db e req (boundary (hasToken e req (db.driver e.id).toDriver) rows n)⟩ by
    rw [← hpage]
    rfl
  unfold trimPage tokenAfter boundary
  rw [List.length_take, List.take_take, List.getElem?_take_of_lt (by omega), Nat.min_eq_left (Nat.le_succ n)]
  by_cases hlen : rows.length > n
  · rw [if_pos (by omega), if_pos hlen]
    cases hrow : rows[n - 1]? with
    | none => rfl
    | some x =>
      rw [Option.filter_some, hasToken]
      cases htoken : tokenCursor e req (db.driver e.id).toDriver x with
      | none =>
        -- a row without a token leaves the page's token empty
        show QueryResponse.mk _ (nextPageToken e.id _ (some x)) = ⟨_, .empty⟩
        unfold tokenCursor at htoken
        unfold nextPageToken
        split at htoken
        · rename_i token henc
          obtain ⟨ptvs, cursor, rfl, hdec, -⟩ := DecodePageToken_of_encode henc
          rw [hdec] at htoken
          cases htoken
        · rename_i msg henc
          simp only [henc]
      | some cursor => rfl
  · rw [if_neg (by omega), if_neg hlen, List.take_of_length_le (by omega), List.take_of_length_le (by omega)]
    rfl

/-- The text of a row's token is not empty. -/
theorem tokenText_ne_nil (hW : W.TokensReturn) {D : Driver V} (hr : hasToken e req D r = true) :
    W.tokenText (nextPageToken e.id (extractCursor D e req.order) (some r)) ≠ [] := by
  obtain ⟨cursor, hsome⟩ := Option.isSome_iff_exists.mp hr
  obtain ⟨ptvs, htoken, -, -⟩ := tokenCursor_some hsome
  rw [htoken]
  intro hnil
  have hreturn := hW e.id ptvs
  rw [hnil, W.tokenOf_nil] at hreturn
  cases hreturn

/-- The walk along the tokens, as a walk along rows. -/
abbrev RowWalk (W : Wire) (db : Db V) (e : Entity) (caller : Option Arg) (req : QueryXRequest) :
    List (Row V) → Option (Row V) → Prop :=
  Walk (matchingRows W db e caller req) (rowBefore (db.driver e.id).toDialect (buildKeysetCols e req.order))
    (afterToken e req (db.driver e.id).toDriver) (hasToken e req (db.driver e.id).toDriver) Limits

section

variable (hok : queryStatement W e caller (req.after [] 0) = .ok st) (hapart : OrsStandApart W req)

include hok hapart

/-- **The first pages.** -/
theorem page_first_iff :
    Page W db e caller (req.after [] limit) res ↔ PageOf db e req limit (matchingRows W db e caller req) res := by
  obtain ⟨parts, args, hparts, hown, -, hselects, hpages⟩ := queryStatement_clause hok
  have hcursor : DecodePageToken (W.tokenOf []) e.id = .ok [] := by
    rw [W.tokenOf_nil]
    rfl
  obtain ⟨st', hst'⟩ : ∃ st', pageStatement (sepBy .kwAnd parts) args (buildKeysetCols e req.order) []
      (clampLimit limit) = .ok st' := ⟨_, rfl⟩
  have hq := hpages [] limit [] hcursor
  rw [hst'] at hq
  rw [page_iff_pageOf hq, matching_first hparts hown hst', hselects hapart]
  rfl

variable (hW : W.TokensReturn) (hD : (db.driver e.id).SortColumns (buildKeysetCols e req.order) zero)

include hW hD

/-- **The pages after a row**: of the matching rows, those strictly after its token. -/
theorem page_next_iff (hr : hasToken e req (db.driver e.id).toDriver r = true) :
    Page W db e caller (req.after (W.tokenText (tokenAfter db e req (some r))) limit) res ↔
      PageOf db e req limit
        ((matchingRows W db e caller req).filter (afterToken e req (db.driver e.id).toDriver r)) res := by
  obtain ⟨cursor, hsome⟩ := Option.isSome_iff_exists.mp hr
  obtain ⟨ptvs, htoken, hdec, hvalues⟩ := tokenCursor_some hsome
  obtain ⟨parts, args, hparts, hown, hst, hselects, hpages⟩ := queryStatement_clause hok
  have hlen := (extractCursor_cols (db.driver e.id).toDriver e req r).length_eq.trans hvalues.length_eq
  have hne : cursor ≠ [] := by
    rintro rfl
    exact buildKeysetCols_ne_nil e req.order (List.length_eq_zero_iff.mp hlen)
  obtain ⟨st', hst'⟩ := @exists_pageStatement (buildKeysetCols e req.order) cursor args
    (sepBy .kwAnd parts) (clampLimit limit) hlen
  have hq := hpages (W.tokenText (.issued e.id ptvs)) limit cursor (by rw [hW, hdec])
  rw [hst'] at hq
  have hafter : afterToken e req (db.driver e.id).toDriver r
      = afterCursor (db.driver e.id).toDialect (buildKeysetCols e req.order) (cursor.map (db.driver e.id).bind) := by
    funext s
    unfold afterToken
    rw [hsome]
  rw [tokenAfter, htoken, page_iff_pageOf hq, matchingRows, hafter,
    matching_next hparts hown hD.linear hlen hne hst', hselects hapart]

/-! ## The walk -/

/-- **Following the tokens is a walk.** By induction on the pages, in both directions. -/
theorem following_iff_walk {done : List (Row V)} {token : PageToken} :
    Following W db e caller req done token ↔ ∃ c, RowWalk W db e caller req done c ∧ token = tokenAfter db e req c := by
  constructor
  · intro h
    induction h with
    | @first limit page hpage =>
      obtain ⟨rows, hperm, hsorted, hres⟩ := (page_first_iff hok hapart).mp hpage
      rw [Except.ok.inj hres]
      exact ⟨_, .first hperm hsorted ⟨limit, rfl⟩, rfl⟩
    | @next done token limit page _ hmore hpage ih =>
      obtain ⟨c, hwalk, rfl⟩ := ih
      cases c with
      | none => exact absurd W.tokenText_empty hmore
      | some x =>
        obtain ⟨rows, hperm, hsorted, hres⟩ := (page_next_iff hok hapart hW hD hwalk.cursor_issues).mp hpage
        rw [Except.ok.inj hres]
        exact ⟨_, .next hwalk hperm hsorted ⟨limit, rfl⟩, rfl⟩
  · rintro ⟨c, hwalk, rfl⟩
    induction hwalk with
    | @first rows n hperm hsorted hlimit =>
      obtain ⟨limit, rfl⟩ := hlimit
      have hpage := (@page_first_iff V W db e caller req st limit _ hok hapart).mpr ⟨rows, hperm, hsorted, rfl⟩
      exact .first hpage
    | @next done rows x n hwalk hperm hsorted hlimit ih =>
      obtain ⟨limit, rfl⟩ := hlimit
      have hx := hwalk.cursor_issues
      have hpage := (@page_next_iff V W db e caller req st limit x zero _ hok hapart hW hD hx).mpr ⟨rows, hperm, hsorted, rfl⟩
      exact .next ih (tokenText_ne_nil hW hx) hpage

/-- The next page is answered with rows on it exactly when some matching row is after the token. -/
theorem next_answered_iff {x : Row V} (hx : hasToken e req (db.driver e.id).toDriver x = true) :
    (∀ limit, (∃ res, Page W db e caller (req.after (W.tokenText (tokenAfter db e req (some x))) limit) res) ∧
      ∀ res, Page W db e caller (req.after (W.tokenText (tokenAfter db e req (some x))) limit) res →
        ∃ page, res = .ok page ∧ page.entities ≠ []) ↔
      (matchingRows W db e caller req).filter (afterToken e req (db.driver e.id).toDriver x) ≠ [] := by
  obtain ⟨sorted, hperm, hsorted⟩ := exists_inOrder hD.linear
    ((matchingRows W db e caller req).filter (afterToken e req (db.driver e.id).toDriver x))
  constructor
  · intro h hnil
    have hpage := (@page_next_iff V W db e caller req st 0 x zero _ hok hapart hW hD hx).mpr ⟨sorted, hperm, hsorted, rfl⟩
    obtain ⟨page, hres, hne⟩ := (h 0).2 _ hpage
    rw [← Except.ok.inj hres] at hne
    rw [hnil] at hperm
    rw [List.perm_nil.mp hperm] at hne
    exact hne List.take_nil
  · intro hne limit
    refine ⟨⟨_, (page_next_iff hok hapart hW hD hx).mpr ⟨sorted, hperm, hsorted, rfl⟩⟩, fun res hpage => ?_⟩
    obtain ⟨rows, hrows, _, rfl⟩ := (page_next_iff hok hapart hW hD hx).mp hpage
    refine ⟨_, rfl, fun hnil => ?_⟩
    have hpos := (clampLimit_bounds limit).1
    rcases List.take_eq_nil_iff.mp hnil with hzero | hnil
    · omega
    · rw [hnil] at hrows
      exact hne (List.nil_perm.mp hrows)

theorem pagesVisitOnce_iff_visitsOnce :
    PagesVisitOnce W db e caller req ↔
      VisitsOnce (matchingRows W db e caller req) (rowBefore (db.driver e.id).toDialect (buildKeysetCols e req.order))
        (afterToken e req (db.driver e.id).toDriver) (hasToken e req (db.driver e.id).toDriver) Limits := by
  constructor
  · intro h done c hwalk
    obtain ⟨hsub, hend, hmore⟩ := h done _ ((following_iff_walk hok hapart hW hD).mpr ⟨c, hwalk, rfl⟩)
    refine ⟨hsub, ?_, ?_⟩
    · rintro rfl
      exact hend W.tokenText_empty
    · intro x hx
      obtain rfl := Option.mem_def.mp hx
      have hissued := hwalk.cursor_issues
      exact (next_answered_iff hok hapart hW hD hissued).mp (hmore (tokenText_ne_nil hW hissued))
  · intro h done token hfollow
    obtain ⟨c, hwalk, rfl⟩ := (following_iff_walk hok hapart hW hD).mp hfollow
    obtain ⟨hsub, hend, hmore⟩ := h done c hwalk
    cases c with
    | none => exact ⟨hsub, fun _ => hend rfl, fun hne => absurd W.tokenText_empty hne⟩
    | some x =>
      have hissued := hwalk.cursor_issues
      refine ⟨hsub, fun hnil => absurd hnil (tokenText_ne_nil hW hissued), fun _ => ?_⟩
      exact (next_answered_iff hok hapart hW hD hissued).mpr (hmore x rfl)

end

/-- `Passed` is what a walk needs of two rows. -/
theorem passed_iff_fits (hD : D.SortColumns (buildKeysetCols e req.order) zero) :
    Passed e req D zero r s ↔
      Fits (rowBefore D.toDialect (buildKeysetCols e req.order)) (afterToken e req D) (hasToken e req D) r s := by
  refine imp_congr_right fun _ => ?_
  rw [← hasToken_iff]
  exact and_congr_right fun hr => (afterToken_iff_beyond hD hr).symm

/-- **Coordinates without `NULL` that tell the rows apart**, and that go into tokens, are enough. -/
theorem pagesVisitOnce_of_distinct (hok : queryStatement W e caller (req.after [] 0) = .ok st)
    (hapart : OrsStandApart W req) (hW : W.TokensReturn)
    (hD : (db.driver e.id).SortColumns (buildKeysetCols e req.order) zero)
    (hcoords : ∀ r ∈ matchingRows W db e caller req, Sendable e req (db.driver e.id).toDriver r ∧
      ∀ k ∈ buildKeysetCols e req.order, (r k.column).isSome)
    (hdistinct : (matchingRows W db e caller req).Pairwise fun r s =>
      ∃ k ∈ buildKeysetCols e req.order, r k.column ≠ s k.column) : PagesVisitOnce W db e caller req := by
  have hfits : ∀ r ∈ matchingRows W db e caller req, ∀ s ∈ matchingRows W db e caller req,
      (∃ k ∈ buildKeysetCols e req.order, r k.column ≠ s k.column) →
      Fits (rowBefore (db.driver e.id).toDialect (buildKeysetCols e req.order))
        (afterToken e req (db.driver e.id).toDriver) (hasToken e req (db.driver e.id).toDriver) r s := by
    rintro r hr s hs ⟨k, hk, hne⟩ hbefore
    obtain ⟨hsend, hnull⟩ := hcoords r hr
    have htoken := hasToken_iff.mpr hsend
    refine ⟨htoken, ?_⟩
    obtain ⟨cursor, hcursor⟩ := Option.isSome_iff_exists.mp htoken
    refine afterToken_iff.mpr ⟨cursor, hcursor, ?_⟩
    rw [afterCursor_iff_rowBefore hD.linear (cursorFor_of_tokenCursor hD hcursor) hnull (hcoords s hs).2]
    by_contra htie
    exact hne (eq_of_not_rowBefore hD.linear (by simpa using htie) hbefore k hk)
  rw [pagesVisitOnce_iff_visitsOnce hok hapart hW hD, visitsOnce_iff (pagingOrder hD)]
  refine List.Pairwise.imp_of_mem ?_ hdistinct
  rintro r s hr hs ⟨k, hk, hne⟩
  exact ⟨hfits r hr s hs ⟨k, hk, hne⟩, hfits s hs r hr ⟨k, hk, hne.symm⟩⟩

/-! ## A task without a rank -/

instance countableChar : Countable Char :=
  Function.Injective.countable (f := Char.toNat) fun _ _ h => Char.toNat_inj.mp h

instance countableString : Countable String :=
  Function.Injective.countable (f := String.toList) fun _ _ h => String.toList_injective h

deriving instance Countable for Timestamp

deriving instance Countable for PageTokenValue

deriving instance Countable for PageToken

instance : Nonempty PageToken := ⟨.empty⟩

/-- A number for each token. -/
noncomputable def tokenNumber : PageToken → Nat := (Countable.exists_injective_nat PageToken).choose

theorem uvarint_tokenNumber_injective : Function.Injective fun token => uvarint (tokenNumber token) := by
  intro token token' h
  have hnat : tokenNumber token = tokenNumber token' := by
    have happ : uvarint (tokenNumber token) ++ [] = uvarint (tokenNumber token') ++ [] := congrArg (· ++ []) h
    exact (uvarint_prefixFree _ _ _ _ happ).1
  exact (Countable.exists_injective_nat PageToken).choose_spec hnat

/-- Tasks with a rank. -/
def rankedOnly : Filter := .mk [.pred 2 ⟨"rank", by decide⟩ (.string (some (.isNotNull true)))]

/-- Tokens written as numbers, and one filter. -/
noncomputable def tokenWire : Wire where
  filterOf b := if b = [] then none else some rankedOnly
  order := plainWire.order
  fields := plainWire.fields
  tokenOf b := if b = [] then .empty else Function.invFun (fun token => uvarint (tokenNumber token)) b
  tokenText token := if token = .empty then [] else uvarint (tokenNumber token)
  digest := plainWire.digest
  filterOf_nil := if_pos rfl
  tokenOf_nil := if_pos rfl
  tokenText_empty := if_pos rfl

theorem tokenWire_returns : tokenWire.TokensReturn := by
  intro id values
  have htext : tokenWire.tokenText (.issued id values) = uvarint (tokenNumber (.issued id values)) := by
    show (if PageToken.issued id values = .empty then [] else uvarint (tokenNumber (.issued id values))) = _
    exact if_neg PageToken.noConfusion
  rw [htext]
  have hne : uvarint (tokenNumber (.issued id values)) ≠ [] := by
    rw [uvarint]
    split <;> exact List.cons_ne_nil _ _
  show (if _ = [] then _ else _) = _
  rw [if_neg hne]
  exact Function.leftInverse_invFun uvarint_tokenNumber_injective _

/-- Tasks that may have a rank. -/
def task : Entity where
  name := "Task"
  namespace_ := "crm"
  fields := [
    { name := "id", type := .simple "text", primary := true, notNull := true, protoNumber := 1 },
    { name := "rank", type := .simple "text", protoNumber := 2 }]

def taskOf (id : String) (rank : Option String) : Row String := fun c =>
  if c = "id" then some id else if c = "rank" then rank else none

def tasksDb : Db String where
  driver _ := textGoDriver
  table _ := [taskOf "1" (some "a"), taskOf "2" none, taskOf "3" (some "a")]

/-- All tasks, by rank. -/
def byRank : QueryXRequest := { order := [⟨2, false⟩] }

/-- The tasks with a rank, by rank. -/
def rankedByRank : QueryXRequest := { filter := [1], order := [⟨2, false⟩] }

/-- A getter answers `""` for what is not set. -/
theorem sortColumns_text (cols : List KeysetColumn) : textGoDriver.SortColumns cols fun _ => "" where
  linear k _ := Server.textPg_linear k.column
  returns := by
    rintro k _ v x ptv a harg henc hdec
    cases harg
    cases henc
    cases hdec
    rfl

theorem orsStandApart_tasks (req : QueryXRequest) : OrsStandApart tokenWire req := by
  intro m hm
  have hm : (if req.filter = [] then none else some rankedOnly) = some m := hm
  split at hm
  · cases hm
  · obtain rfl := Option.some.inj hm
    decide +kernel

theorem matchingRows_byRank : matchingRows tokenWire tasksDb task none byRank = tasksDb.table task.id := by
  have hall : ∀ r ∈ tasksDb.table task.id, Visible textGoDriver.toPg task none r := by decide +kernel
  refine List.filter_eq_self.mpr fun r hr => decide_eq_true ⟨hall r hr, fun m hm => ?_⟩
  rw [show byRank.filter = [] from rfl, tokenWire.filterOf_nil] at hm
  cases hm

theorem filterOf_rankedByRank : tokenWire.filterOf rankedByRank.filter = some rankedOnly := rfl

theorem matchingRows_rankedByRank : matchingRows tokenWire tasksDb task none rankedByRank
    = [taskOf "1" (some "a"), taskOf "3" (some "a")] := by
  have hmatches : ∀ r, Matches tokenWire task none rankedByRank textGoDriver.toPg r ↔
      Visible textGoDriver.toPg task none r ∧
        rankedOnly.holds textGoDriver.toPg r (buildFilterSpec task) = .true := by
    intro r
    refine and_congr_right fun _ => ⟨fun h => h _ filterOf_rankedByRank, fun h m hm => ?_⟩
    rw [filterOf_rankedByRank] at hm
    obtain rfl := Option.some.inj hm
    exact h
  unfold matchingRows
  simp only [show tasksDb.driver task.id = textGoDriver from rfl, hmatches]
  show List.filter _ [taskOf "1" (some "a"), taskOf "2" none, taskOf "3" (some "a")] = _
  rw [List.filter_cons_of_pos (by decide +kernel), List.filter_cons_of_neg (by decide +kernel),
    List.filter_cons_of_pos (by decide +kernel), List.filter_nil]

theorem sendable_tasks (req : QueryXRequest) (r : Row String) : Sendable task req textGoDriver.toDriver r :=
  ⟨fun k _ => ⟨_, rfl⟩, .inr (by decide +kernel)⟩

/-- By their key, every task is on a page. -/
theorem pagesVisitOnce_tasks : PagesVisitOnce tokenWire tasksDb task none {} := by
  have hst := @queryStatement_plain tokenWire task none [] [] [] 0 (by decide +kernel)
  have hsub : (matchingRows tokenWire tasksDb task none {}).Sublist (tasksDb.table task.id) := List.filter_sublist
  have hcoords : ∀ r ∈ tasksDb.table task.id, ∀ k ∈ buildKeysetCols task [], (r k.column).isSome := by decide +kernel
  exact pagesVisitOnce_of_distinct hst (orsStandApart_tasks _) tokenWire_returns (sortColumns_text _)
    (fun r hr => ⟨sendable_tasks _ r, hcoords r (hsub.subset hr)⟩) (List.Pairwise.sublist hsub (by decide +kernel))

end Atlantis.Query
