import Atlantis.Schema.Names
import Atlantis.Query.Keyset

/-!
# `Query.Page` — one page of a query

What the two query handlers share: the server's `handleQuery` and the `QueryX` methods that the code
generator writes. Both translate the filter, join the keyset predicate to the clause when a page token came
in, ask for one row more than the limit, and turn the surplus row into the next token.

`Page.selects` is the one fact about the clause that both need: a returned row meets every extra predicate,
whatever the filter and the token were.
-/

namespace Atlantis.Query

open Sql Schema Lib

/-- The database, the driver and the messages rows are scanned into. -/
structure Driver (V : Type) extends Pg V where
  /-- The Go value a scanned column contributes to a cursor. -/
  cursorArg : String → Option V → CursorVal

/-! ## The filter's columns -/

/-- `schema.PredicateKindForField` with `predicateKindFromString`. -/
def PredicateKindForField (t : FieldType) : Option PredicateKind :=
  if t.isArray then none
  else match t.name with
    | "text" | "varchar" | "citext" | "uuid" => some .string
    | "numeric" => some .numeric
    | "int" | "smallint" => some .int32
    | "bigint" => some .int64
    | "boolean" => some .bool
    | "timestamptz" | "date" => some .timestamp
    | "jsonb" | "bytea" => some .bytes
    | _ => none

/-- `buildFilterSpec`, and `emitFilterSpec` in the generated code. -/
def buildFilterSpec (e : Entity) : FilterSpec where
  entityID := e.id
  tableName := tableName e
  fields name := e.fields.foldl (fun found f =>
    match PredicateKindForField f.type with
    | some kind => if f.name = name then some ⟨f.name, kind, false⟩ else found
    | none => found) none

/-- `schema.PKColumns`, by name. -/
def PKColumns (e : Entity) : List String :=
  if e.compositePK ≠ [] then e.compositePK.filter fun name => (e.findField name).isSome
  else match e.primaryField with
    | some pk => [pk.name]
    | none => []

/-- `"deleted_at" IS NULL`. -/
def softDeletePredicate (e : Entity) : List Frag :=
  if e.softDeleteField = "" then [] else [[.col e.softDeleteField, .kwIs, .kwNull]]

/-- A row that has not been soft-deleted. -/
def Live {V : Type} (e : Entity) (r : Row V) : Prop := e.softDeleteField = "" ∨ r e.softDeleteField = none

instance {V : Type} (e : Entity) (r : Row V) : Decidable (Live e r) :=
  match h : r e.softDeleteField with
  | none => isTrue (.inr h)
  | some _ => decidable_of_iff (e.softDeleteField = "") ⟨.inl, fun hl => hl.resolve_right (by simp [h])⟩

/-! ## The statement of a page -/

/-- The limit as the handlers clamp it. -/
def clampLimit (limit : Int32) : Nat :=
  if limit ≤ 0 then 100 else if limit > 1000 then 1000 else limit.toInt.toNat

/-- A statement with its arguments, bound from `$1` on. -/
structure Statement where
  select : Select
  args : List Arg
  deriving DecidableEq, Repr

/-- The values of the placeholders. -/
def Statement.params {V : Type} (B : Pg V) (st : Statement) : Params V := paramsFrom B 1 st.args

/-- The clause and the arguments with the keyset predicate, when there is a cursor. -/
def withCursor (where_ : Frag) (args : List Arg) (cols : List KeysetColumn) (cursor : List Arg) :
    Except String (Frag × List Arg) :=
  if cursor = [] then .ok (where_, args)
  else do
    let (cursorSQL, cursorArgs) ← KeysetPredicate cols cursor (args.length + 1)
    pure (if where_ = [] then cursorSQL else where_ ++ .kwAnd :: cursorSQL, args ++ cursorArgs)

/-- From the translated filter to the statement: keyset predicate, `ORDER BY`, `LIMIT`. -/
def pageStatement (where_ : Frag) (args : List Arg) (cols : List KeysetColumn) (cursor : List Arg)
    (limit : Nat) : Except String Statement := do
  let (where_, args) ← withCursor where_ args cols cursor
  pure ⟨⟨where_, cols, some (limit + 1)⟩, args ++ [.i32 (Int32.ofNat (limit + 1))]⟩

/-! ## The response -/

/-- `QueryXResponse`. -/
structure QueryResponse (V : Type) where
  entities : List (Row V)
  nextPageToken : PageToken

/-- The coordinates of a row in the keyset order. -/
def extractCursorValues {V : Type} (D : Driver V) (cols : List KeysetColumn) (r : Row V) : List CursorVal :=
  cols.map fun c => D.cursorArg c.column (r c.column)

/-- The token of the page after `boundary`, from the row's coordinates; an encoding error leaves it empty. -/
def nextPageToken {V : Type} (entityID : String) (cursor : Row V → List CursorVal)
    (boundary : Option (Row V)) : PageToken :=
  match boundary with
  | none => .empty
  | some r =>
    match EncodePageToken entityID (cursor r) with
    | .ok token => token
    | .error _ => .empty

/-- Trim the page to the limit; a surplus row means that there is a next one. -/
def trimPage {V : Type} (entityID : String) (cursor : Row V → List CursorVal) (limit : Nat)
    (rows : List (Row V)) : QueryResponse V :=
  if rows.length > limit then ⟨rows.take limit, nextPageToken entityID cursor rows[limit - 1]?⟩
  else ⟨rows, .empty⟩

variable {V : Type} {limit start : Nat} {parts eqs : List Frag} {cols : List KeysetColumn} {cursor args : List Arg}
  {frag where_ : Frag} {st : Statement} {D : Dialect V} {r : Row V} {ps : Params V}

theorem clampLimit_bounds (limit : Int32) : 0 < clampLimit limit ∧ clampLimit limit ≤ 1000 := by
  unfold clampLimit
  split
  · omega
  · split
    · omega
    · rename_i hpos hle
      have hlt := Int32.lt_iff_toInt_lt.mp (Int32.not_le.mp hpos)
      have hle := Int32.le_iff_toInt_le.mp (Int32.not_lt.mp hle)
      simp only [Int32.toInt_zero, Int32.reduceToInt] at hlt hle
      omega

theorem trimPage_entities (entityID : String) (cursor : Row V → List CursorVal) (limit : Nat) (rows : List (Row V)) :
    (trimPage entityID cursor limit rows).entities = rows.take limit := by
  unfold trimPage
  split
  · rfl
  · show rows = rows.take limit
    exact (List.take_of_length_le (by omega)).symm

/-! ## The clause -/

theorem phrase_softDelete {e : Entity} : ∀ x ∈ softDeletePredicate e, Phrase x := by
  intro x hx
  unfold softDeletePredicate at hx
  split at hx
  · cases hx
  · rw [List.mem_singleton.mp hx]
    exact ⟨_, .conj (.unit (.pred (p := .isNull false e.softDeleteField) fun r => rfl))⟩

theorem value_softDelete {e : Entity} : (∀ x ∈ softDeletePredicate e, fragValue D r ps x = some .true) ↔ Live e r := by
  unfold softDeletePredicate Live
  by_cases h : e.softDeleteField = ""
  · simp [h]
  · have hval : fragValue D r ps [.col e.softDeleteField, .kwIs, .kwNull]
        = some (.ofBool (r e.softDeleteField).isNone) := rfl
    simp only [h, if_false, List.mem_singleton, forall_eq, hval, false_or]
    cases r e.softDeleteField <;> simp [Tri.ofBool]

/-- Parentheses change no value. -/
theorem fragValue_paren {x : Frag} (h : Phrase x) : fragValue D r ps (paren x) = fragValue D r ps x := by
  obtain ⟨e, hg⟩ := h
  have hx : Reads (Pred.eval D r ps) .or x (e.eval (Pred.eval D r ps)) := ⟨e, hg, rfl⟩
  rw [Reads.fragValue hx, Reads.fragValue (Reads.toOr (Reads.toAnd (Reads.paren hx)))]

theorem sepBy_concat {sep : Tok} (hne : parts ≠ []) (c : Frag) :
    sepBy sep (parts ++ [c]) = sepBy sep parts ++ sep :: c := by
  induction parts with
  | nil => exact absurd rfl hne
  | cons p parts ih =>
    cases parts with
    | nil => rfl
    | cons q parts =>
      have hrec := ih (by simp)
      simp only [List.cons_append, sepBy] at hrec ⊢
      rw [hrec]
      simp

theorem Units.append {more : List Frag} (h : Units parts) (h' : Units more) : Units (parts ++ more) :=
  List.forall_mem_append.mpr ⟨h, h'⟩

theorem units_cmp (c : String) (o : CmpOp) (p : Nat) : Units [[.col c, .op o, .param p]] :=
  List.forall_mem_singleton.mpr ⟨_, .pred (p := .cmp o c p) fun _ => rfl⟩

theorem units_keysetDisjuncts {cols : List (KeysetColumn × Nat)} (h : Units eqs) :
    Units (keysetDisjuncts eqs cols) := by
  induction cols generalizing eqs with
  | nil => intro x hx; cases hx
  | cons cp cols ih =>
    obtain ⟨c, p⟩ := cp
    intro x hx
    rcases List.mem_cons.mp hx with rfl | hx
    · have hunits := h.append (units_cmp c.column (if c.desc then .lt else .gt) p)
      exact (phrase_sepBy_and hunits.phrase (by simp)).unit
    · exact ih (h.append (units_cmp c.column .eq p)) x hx

/-- The forms of the keyset predicate: a row comparison if all columns have one direction, or the mixed form. -/
theorem KeysetPredicate_ok (h : KeysetPredicate cols cursor start = .ok (frag, args)) (hne : cursor ≠ []) :
    cols ≠ [] ∧ args = cursor ∧
      ((∃ d, (∀ k ∈ cols, k.desc = d) ∧
        frag = rowComparison (if d then .lt else .gt) cols (List.range' start cols.length)) ∨
      frag = paren (sepBy .kwOr (keysetDisjuncts [] (cols.zip (List.range' start cols.length))))) := by
  unfold KeysetPredicate at h
  rw [if_neg hne] at h
  split at h
  · cases h
  rename_i hlen
  have hcols : cols ≠ [] := by
    rintro rfl
    exact hne (List.length_eq_zero_iff.mp (not_not.mp hlen).symm)
  simp only at h
  split at h
  · rename_i hdesc
    cases h
    exact ⟨hcols, rfl, .inl ⟨true, by simpa using hdesc, rfl⟩⟩
  split at h
  · rename_i hasc
    cases h
    exact ⟨hcols, rfl, .inl ⟨false, by simpa using hasc, rfl⟩⟩
  · cases h
    exact ⟨hcols, rfl, .inr rfl⟩

/-- The mixed form is a disjunction of parenthesised units. -/
theorem keysetDisjuncts_spec (hcols : cols ≠ []) (start : Nat) :
    Units (keysetDisjuncts [] (cols.zip (List.range' start cols.length))) ∧
      keysetDisjuncts [] (cols.zip (List.range' start cols.length)) ≠ [] := by
  refine ⟨units_keysetDisjuncts (by simp [Units]), ?_⟩
  obtain ⟨c, cols, rfl⟩ := List.exists_cons_of_ne_nil hcols
  rw [List.length_cons, List.range'_succ, List.zip_cons_cons]
  exact List.cons_ne_nil _ _

/-- The keyset predicate is one unit of the clause it is joined to, in all its forms. -/
theorem KeysetPredicate_unit (h : KeysetPredicate cols cursor start = .ok (frag, args)) (hne : cursor ≠ []) :
    (∃ e, Gram .unit frag e) ∧ args = cursor := by
  obtain ⟨hcols, rfl, ⟨d, _, rfl⟩ | rfl⟩ := KeysetPredicate_ok h hne
  · have hphs : List.range' start cols.length ≠ [] := by simpa using hcols
    exact ⟨⟨_, .pred (spells_rowComparison hcols hphs _)⟩, rfl⟩
  · obtain ⟨hunits, hsome⟩ := keysetDisjuncts_spec hcols start
    exact ⟨(phrase_sepBy_or hunits hsome).unit, rfl⟩

/-- The disjuncts of the mixed form: one is true exactly when the equations so far are and the row comes after
    the rest of the cursor. -/
theorem keysetDisjuncts_true_iff {phs : List Nat} {bs : List V} (heqs : Units eqs)
    (hlen : cols.length = phs.length) (hlin : ∀ k ∈ cols, D.Linear k.column) (hbound : CursorBound ps phs bs) :
    (∃ x ∈ keysetDisjuncts eqs (cols.zip phs), fragValue D r ps x = some .true) ↔
      (∀ q ∈ eqs, fragValue D r ps q = some .true) ∧ afterCursor D cols bs r = true := by
  induction hbound generalizing eqs cols with
  | nil =>
    obtain rfl := List.length_eq_zero_iff.mp hlen
    simp [keysetDisjuncts, afterCursor]
  | @cons p b phs bs hp hbound ih =>
    obtain ⟨k, cols, rfl⟩ := List.exists_cons_of_length_eq_add_one hlen
    have hk := hlin k (by simp)
    have hvalue : ∀ o, fragValue D r ps [.col k.column, .op o, .param p] = some .true ↔
        ∃ v, r k.column = some v ∧ D.cmp k.column o v b = true := by
      intro o
      show some (lift₂ (r k.column) (ps p) (D.cmp k.column o)) = some .true ↔ _
      rw [Option.some_inj, lift₂_eq_true]
      simp [hp]
    have hrec := ih (heqs.append (units_cmp k.column .eq p)) (Nat.succ.inj hlen) (fun x hx => hlin x (List.mem_cons_of_mem _ hx))
    rw [List.zip_cons_cons, keysetDisjuncts, List.exists_mem_cons_iff, hrec, afterCursor_cons hk]
    have hbeyond := heqs.append (units_cmp k.column (if k.desc then .lt else .gt) p)
    rw [fragValue_paren (phrase_sepBy_and hbeyond.phrase (by simp)), fragValue_units hbeyond]
    simp only [List.forall_mem_append, List.forall_mem_singleton, hvalue, hk.eq_iff]
    constructor
    · rintro (⟨hall, v, hv, hcmp⟩ | ⟨⟨hall, v, hv, rfl⟩, hafter⟩)
      · exact ⟨hall, v, hv, .inl hcmp⟩
      · exact ⟨hall, v, hv, .inr ⟨rfl, hafter⟩⟩
    · rintro ⟨hall, v, hv, hcmp | ⟨rfl, hafter⟩⟩
      · exact .inl ⟨hall, v, hv, hcmp⟩
      · exact .inr ⟨⟨hall, v, hv, rfl⟩, hafter⟩

/-- **The keyset predicate is true strictly after the cursor**, in all its forms and on every row. -/
theorem KeysetPredicate_true_iff {bs : List V} (h : KeysetPredicate cols cursor start = .ok (frag, args))
    (hne : cursor ≠ []) (hlin : ∀ k ∈ cols, D.Linear k.column)
    (hbound : CursorBound ps (List.range' start cols.length) bs) :
    fragValue D r ps frag = some .true ↔ afterCursor D cols bs r = true := by
  obtain ⟨hcols, _, hform⟩ := KeysetPredicate_ok h hne
  have hlen : cols.length = (List.range' start cols.length).length := by rw [List.length_range']
  rcases hform with ⟨d, hdir, rfl⟩ | rfl
  · have hphs : List.range' start cols.length ≠ [] := by simpa using hcols
    rw [Reads.fragValue (Reads.toOr (Reads.toAnd (Reads.pred (spells_rowComparison hcols hphs _)))), Option.some_inj]
    exact rowCmp_eq_true_iff hcols hdir hlin hlen hbound
  · obtain ⟨hunits, hsome⟩ := keysetDisjuncts_spec hcols start
    rw [fragValue_paren (phrase_sepBy_or hunits hsome), fragValue_units_or hunits hsome,
      keysetDisjuncts_true_iff (by simp [Units]) hlen hlin hbound]
    simp

/-- Arguments that are bound in order are a cursor's values. -/
theorem Binds.cursorBound {B : Pg V} (h : Binds B ps start args) :
    CursorBound ps (List.range' start args.length) (args.map B.bind) := by
  induction args generalizing start with
  | nil => exact .nil
  | cons a args ih => exact .cons h.1 (ih h.2)

/-- A cursor with a value for each column is accepted. -/
theorem exists_KeysetPredicate (hlen : cols.length = cursor.length) (hne : cursor ≠ []) (start : Nat) :
    ∃ frag, KeysetPredicate cols cursor start = .ok (frag, cursor) := by
  unfold KeysetPredicate
  rw [if_neg hne, if_neg (fun h => h hlen)]
  dsimp only
  split
  · exact ⟨_, rfl⟩
  · split <;> exact ⟨_, rfl⟩

/-- The cursor joins the clause as one more part. -/
theorem withCursor_eq (hparts : Units parts) {cargs : List Arg} (hne : cursor ≠ [])
    (h : KeysetPredicate cols cursor (args.length + 1) = .ok (frag, cargs)) :
    withCursor (sepBy .kwAnd parts) args cols cursor = .ok (sepBy .kwAnd (parts ++ [frag]), args ++ cargs) := by
  unfold withCursor
  rw [if_neg hne, h]
  cases parts with
  | nil => rfl
  | cons p parts =>
    have hsep : sepBy .kwAnd (p :: parts) ≠ [] := by
      refine sepBy_ne_nil (by simp) fun q hq => ?_
      obtain ⟨e, hg⟩ := hparts q hq
      exact hg.ne_nil
    show Except.ok (if _ = [] then frag else _ ++ .kwAnd :: frag, args ++ cargs) = _
    rw [if_neg hsep, sepBy_concat (by simp)]

/-- **The clause of a page** is that of the filter with at most one part more. -/
theorem pageStatement_where (hparts : Units parts)
    (h : pageStatement (sepBy .kwAnd parts) args cols cursor limit = .ok st) :
    ∃ more, Units more ∧ st.select.where_ = sepBy .kwAnd (parts ++ more) := by
  obtain ⟨⟨where_, args'⟩, hw, h⟩ := bind_ok h
  cases h
  by_cases hne : cursor = []
  · rw [withCursor, if_pos hne] at hw
    cases hw
    exact ⟨[], by simp [Units], by simp⟩
  · obtain ⟨⟨frag, cargs⟩, hk, _⟩ := bind_ok (by rw [withCursor, if_neg hne] at hw; exact hw)
    rw [withCursor_eq hparts hne hk] at hw
    cases hw
    exact ⟨[frag], List.forall_mem_singleton.mpr (KeysetPredicate_unit hk hne).1, rfl⟩

theorem pageStatement_form (h : pageStatement where_ args cols cursor limit = .ok st) :
    st.select.orderBy = cols ∧ st.select.limit = some (limit + 1) := by
  obtain ⟨_, _, h⟩ := bind_ok h
  cases h
  exact ⟨rfl, rfl⟩

/-- The arguments of the filter stay where they are bound. -/
theorem pageStatement_args (h : pageStatement where_ args cols cursor limit = .ok st) :
    ∃ more, st.args = args ++ more := by
  obtain ⟨⟨where', args'⟩, hw, h⟩ := bind_ok h
  cases h
  by_cases hne : cursor = []
  · rw [withCursor, if_pos hne] at hw
    obtain ⟨_, rfl⟩ := Prod.mk.inj (Except.ok.inj hw)
    exact ⟨_, rfl⟩
  · rw [withCursor, if_neg hne] at hw
    obtain ⟨⟨frag, cargs⟩, _, hw⟩ := bind_ok hw
    obtain ⟨_, rfl⟩ := Prod.mk.inj (Except.ok.inj hw)
    exact ⟨cargs ++ [.i32 (Int32.ofNat (limit + 1))], by simp⟩

theorem exists_pageStatement (limit : Nat) (hlen : cols.length = cursor.length) :
    ∃ st, pageStatement where_ args cols cursor limit = .ok st := by
  unfold pageStatement withCursor
  split
  · exact ⟨_, rfl⟩
  · rename_i hne
    obtain ⟨frag, hfrag⟩ := exists_KeysetPredicate hlen hne (args.length + 1)
    rw [hfrag]
    exact ⟨_, rfl⟩

/-- Arguments keep their values, whatever is bound after them. -/
theorem paramsFrom_append (B : Pg V) {p n : Nat} (more : List Arg) (hlo : p ≤ n) (hhi : n < p + args.length) :
    paramsFrom B p (args ++ more) n = paramsFrom B p args n := by
  unfold paramsFrom
  rw [if_pos hlo, if_pos hlo, List.getElem?_append_left (by omega)]

variable {B : Pg V}

/-- What the first page selects: the rows that meet the clause of the filter. -/
theorem matching_first (hparts : Units parts) (hown : Within 1 (args.length + 1) (sepBy .kwAnd parts))
    (h : pageStatement (sepBy .kwAnd parts) args cols [] limit = .ok st) (table : List (Row V)) :
    st.select.matching B.toDialect (st.params B) table = table.filter fun r =>
      fragValue B.toDialect r (paramsFrom B 1 args) (sepBy .kwAnd parts) == some .true := by
  cases h
  refine List.filter_congr fun r _ => ?_
  show (fragValue _ _ (paramsFrom B 1 (args ++ _)) (sepBy .kwAnd parts) == _) = _
  rw [fragValue_units_congr hparts fun n hn => ?_]
  have hrange := hown n hn
  exact paramsFrom_append B _ hrange.1 (by omega)

/-- **What a later page selects**: of the same rows, those strictly after the cursor. -/
theorem matching_next (hparts : Units parts) (hown : Within 1 (args.length + 1) (sepBy .kwAnd parts))
    (hlin : ∀ k ∈ cols, B.Linear k.column) (hlen : cols.length = cursor.length) (hne : cursor ≠ [])
    (h : pageStatement (sepBy .kwAnd parts) args cols cursor limit = .ok st) (table : List (Row V)) :
    st.select.matching B.toDialect (st.params B) table =
      (table.filter fun r => fragValue B.toDialect r (paramsFrom B 1 args) (sepBy .kwAnd parts) == some .true).filter
        (afterCursor B.toDialect cols (cursor.map B.bind)) := by
  obtain ⟨frag, hk⟩ := exists_KeysetPredicate hlen hne (args.length + 1)
  obtain ⟨hunit, _⟩ := KeysetPredicate_unit hk hne
  unfold pageStatement at h
  rw [withCursor_eq hparts hne hk] at h
  rw [← Except.ok.inj h, List.filter_filter]
  refine List.filter_congr fun r _ => ?_
  have hfrag : Units [frag] := List.forall_mem_singleton.mpr hunit
  -- the cursor's values are bound right after the arguments of the filter
  have hbound : CursorBound (paramsFrom B 1 (args ++ cursor ++ [.i32 (Int32.ofNat (limit + 1))]))
      (List.range' (args.length + 1) cols.length) (cursor.map B.bind) := by
    obtain ⟨hown, _⟩ := Binds.append_iff.mp (binds_paramsFrom B 1 (args ++ cursor ++ [.i32 (Int32.ofNat (limit + 1))]))
    rw [hlen, Nat.add_comm args.length]
    exact (Binds.append_iff.mp hown).2.cursorBound
  have hclause : fragValue B.toDialect r (paramsFrom B 1 (args ++ cursor ++ [.i32 (Int32.ofNat (limit + 1))]))
      (sepBy .kwAnd parts) = fragValue B.toDialect r (paramsFrom B 1 args) (sepBy .kwAnd parts) := by
    refine fragValue_units_congr hparts fun n hn => ?_
    have hrange := hown n hn
    rw [List.append_assoc]
    exact paramsFrom_append B _ hrange.1 (by omega)
  rw [Bool.eq_iff_iff, Bool.and_eq_true, beq_iff_eq, beq_iff_eq, ← hclause,
    ← KeysetPredicate_true_iff (r := r) hk hne hlin hbound]
  show fragValue _ _ (paramsFrom B 1 _) (sepBy .kwAnd (parts ++ [frag])) = _ ↔ _
  rw [fragValue_units (hparts.append hfrag), fragValue_units hparts, List.forall_mem_append, List.forall_mem_singleton]
  exact and_comm

/-- **No filter and no token reach past the extra predicates**: a row that meets the clause of a page meets
    each of them. -/
theorem page_selects {spec : FilterSpec} {msg : Option Filter} {extras : List Frag} {tr : Translation}
    (hex : ∀ x ∈ extras, Phrase x) (htr : TranslateFilter spec msg start extras = .ok tr)
    (hst : pageStatement tr.sql args cols cursor limit = .ok st) (hr : fragValue D r ps st.select.where_ = some .true) :
    ∀ x ∈ extras, fragValue D r ps x = some .true := by
  obtain ⟨user, huser, hextras, hsql⟩ := TranslateFilter_units htr hex
  rw [hsql] at hst
  obtain ⟨more, hmore, hwhere⟩ := pageStatement_where (huser.append hextras) hst
  rw [hwhere, fragValue_units ((huser.append hextras).append hmore)] at hr
  intro x hx
  have hmem : paren x ∈ user ++ extras.map paren ++ more := by
    simp only [List.mem_append, List.mem_map]
    exact .inl (.inr ⟨x, hx, rfl⟩)
  rw [← fragValue_paren (hex x hx)]
  exact hr _ hmem

end Atlantis.Query
