import Atlantis.Sql.Cursor
import Atlantis.Query.TranslatorText

/-!
# `Query.Keyset` — page tokens and the keyset predicate

`internal/runtime/pagination.go`. A page token is base64url over a protobuf message; both codecs are the
libraries' own, so a token is modelled by what becomes of it in `DecodePageToken`: nothing was sent, it does
not decode, or it carries an entity and values. A token is not signed, and a caller may send any of these.

`KeysetPredicate` renders the condition that a row comes after the cursor. When all columns have one direction it
is one row comparison, and `rowCmp_eq_true_iff` says that a row meets it exactly when it comes strictly after
the cursor.
-/

namespace Atlantis.Query

open Sql Lib

/-! ## Page tokens -/

/-- `commonpb.PageTokenValue`, by the arm of its oneof. -/
inductive PageTokenValue where
  | s (s : String)
  | i (i : Int64)
  | b (b : Bool)
  | ts (ts : Option Timestamp)
  | raw (raw : List UInt8)
  | num (num : String)
  | unset
  deriving DecidableEq, Repr

/-- A page token as it arrives. -/
inductive PageToken where
  | empty
  | undecodable (reason : String)
  | issued (entityID : String) (values : List PageTokenValue)
  deriving DecidableEq, Repr

def ErrInvalidPageToken : String := "runtime: invalid page token"

def decodePageTokenValue : PageTokenValue → Except String Arg
  | .s s => .ok (.str s)
  | .i i => .ok (.i64 i)
  | .b b => .ok (.bool b)
  | .ts none => .error "nil timestamp arm"
  | .ts (some t) => .ok (.time t.instant)
  | .raw raw => .ok (.bytes raw)
  | .num num => .ok (.str num)
  | .unset => .error "empty oneof arm"

/-- The loop of `DecodePageToken`; `i` is the index the error names. -/
def decodePageTokenValues (i : Nat) : List PageTokenValue → Except String (List Arg)
  | [] => .ok []
  | ptv :: rest => do
      let v ← (decodePageTokenValue ptv).mapError fun err =>
        ErrInvalidPageToken ++ ": values[" ++ toString i ++ "]: " ++ err
      let out ← decodePageTokenValues (i + 1) rest
      pure (v :: out)

/-- **`DecodePageToken`.** No token at all is no cursor. -/
def DecodePageToken (token : PageToken) (expectedEntityID : String) : Except String (List Arg) :=
  match token with
  | .empty => .ok []
  | .undecodable reason => .error (ErrInvalidPageToken ++ ": " ++ reason)
  | .issued entityID values =>
    if entityID ≠ expectedEntityID then
      .error (ErrInvalidPageToken ++ ": entity_id \"" ++ entityID ++ "\" does not match \""
        ++ expectedEntityID ++ "\"")
    else decodePageTokenValues 0 values

/-- A Go value in a cursor. -/
inductive CursorVal where
  | arg (a : Arg)
  | nil
  /-- Of a type that no token holds, as `%T` prints it. -/
  | other (goType : String)
  deriving DecidableEq, Repr

def encodePageTokenValue : CursorVal → Except String PageTokenValue
  | .arg (.str x) => .ok (.s x)
  | .arg (.bytes x) => .ok (.raw x)
  | .arg (.bool x) => .ok (.b x)
  | .arg (.i32 x) => .ok (.i x.toInt64)
  | .arg (.i64 x) => .ok (.i x)
  | .arg (.time ns) => .ok (.ts (some ⟨Int64.ofInt (ns / 1000000000), Int32.ofInt (ns % 1000000000)⟩))
  | .nil => .error "nil value in cursor"
  | .other goType => .error ("unsupported cursor type " ++ goType)

def encodePageTokenValues (i : Nat) : List CursorVal → Except String (List PageTokenValue)
  | [] => .ok []
  | v :: rest => do
      let ptv ← (encodePageTokenValue v).mapError fun err =>
        "runtime: EncodePageToken[" ++ toString i ++ "]: " ++ err
      let out ← encodePageTokenValues (i + 1) rest
      pure (ptv :: out)

/-- **`EncodePageToken`.** -/
def EncodePageToken (entityID : String) (values : List CursorVal) : Except String PageToken :=
  if entityID = "" then .error "runtime: EncodePageToken: empty entityID"
  else do
    let values ← encodePageTokenValues 0 values
    pure (.issued entityID values)

variable {values : List CursorVal} {ptvs : List PageTokenValue}

theorem encodePageTokenValues_ok {i : Nat} (h : encodePageTokenValues i values = .ok ptvs) :
    List.Forall₂ (fun v ptv => encodePageTokenValue v = .ok ptv) values ptvs := by
  induction values generalizing i ptvs with
  | nil =>
    cases h
    exact .nil
  | cons v values ih =>
    obtain ⟨ptv, hptv, h⟩ := bind_ok h
    obtain ⟨out, hout, h⟩ := bind_ok h
    cases h
    exact .cons (mapError_ok hptv) (ih hout)

theorem decodePageTokenValues_ok (i : Nat)
    (h : List.Forall₂ (fun v ptv => encodePageTokenValue v = .ok ptv) values ptvs) :
    ∃ args, decodePageTokenValues i ptvs = .ok args ∧
      List.Forall₂ (fun v a => ∃ ptv, encodePageTokenValue v = .ok ptv ∧ decodePageTokenValue ptv = .ok a)
        values args := by
  induction h generalizing i with
  | nil => exact ⟨[], rfl, .nil⟩
  | @cons v ptv values ptvs hv _ ih =>
    obtain ⟨a, ha⟩ : ∃ a, decodePageTokenValue ptv = .ok a := by
      cases v with
      | nil | other goType => cases hv
      | arg x => cases x <;> (rw [← Except.ok.inj hv]; exact ⟨_, rfl⟩)
    obtain ⟨args, hargs, hrest⟩ := ih (i + 1)
    refine ⟨a :: args, ?_, .cons ⟨ptv, hv, ha⟩ hrest⟩
    simp only [decodePageTokenValues, ha, hargs, Except.mapError, bind, Except.bind, pure, Except.pure]

/-- **An issued token is accepted**, and gives a value for each of the coordinates it was made from. -/
theorem DecodePageToken_of_encode {entityID : String} {token : PageToken}
    (h : EncodePageToken entityID values = .ok token) :
    ∃ ptvs args, token = .issued entityID ptvs ∧ DecodePageToken token entityID = .ok args ∧
      List.Forall₂ (fun v a => ∃ ptv, encodePageTokenValue v = .ok ptv ∧ decodePageTokenValue ptv = .ok a)
        values args := by
  unfold EncodePageToken at h
  split at h
  · cases h
  obtain ⟨ptvs, hptvs, h⟩ := bind_ok h
  obtain ⟨args, hargs, hvalues⟩ := decodePageTokenValues_ok 0 (encodePageTokenValues_ok hptvs)
  cases h
  refine ⟨ptvs, args, rfl, ?_, hvalues⟩
  show (if entityID ≠ entityID then _ else decodePageTokenValues 0 ptvs) = _
  rw [if_neg (fun hne => hne rfl), hargs]

/-- Values that a token holds are all encoded. -/
theorem exists_EncodePageToken {entityID : String} (hne : entityID ≠ "") (h : ∀ v ∈ values, ∃ a, v = .arg a) :
    ∃ token, EncodePageToken entityID values = .ok token := by
  have hall : ∀ i, ∃ ptvs, encodePageTokenValues i values = .ok ptvs := by
    induction values with
    | nil => exact fun _ => ⟨[], rfl⟩
    | cons v values ih =>
      obtain ⟨⟨a, rfl⟩, hvalues⟩ := List.forall_mem_cons.mp h
      intro i
      obtain ⟨ptvs, hptvs⟩ := ih hvalues (i + 1)
      obtain ⟨ptv, hptv⟩ : ∃ ptv, encodePageTokenValue (.arg a) = .ok ptv := by cases a <;> exact ⟨_, rfl⟩
      exact ⟨ptv :: ptvs, by simp only [encodePageTokenValues, hptv, hptvs, Except.mapError]; rfl⟩
  obtain ⟨ptvs, hptvs⟩ := hall 0
  exact ⟨.issued entityID ptvs, by rw [EncodePageToken, if_neg hne, hptvs]; rfl⟩

/-! ## The keyset predicate -/

/-- `runtime.KeysetColumn`. `OrderByClauseFromKeyset` renders a list of these as the `ORDER BY`. -/
abbrev KeysetColumn := SortKey

/-- `("a", "b") > ($1, $2)`. -/
def rowComparison (o : CmpOp) (cols : List KeysetColumn) (phs : List Nat) : Frag :=
  .lpar :: (sepBy .comma (cols.map fun c => [.col c.column]) ++ .rpar :: .op o :: .lpar
    :: (sepBy .comma (phs.map fun p => [.param p]) ++ [.rpar]))

/-- The disjuncts of the mixed form: equality on the columns so far, then past the next one. -/
def keysetDisjuncts : List Frag → List (KeysetColumn × Nat) → List Frag
  | _, [] => []
  | eqs, (c, p) :: rest =>
    let op := if c.desc then .lt else .gt
    paren (sepBy .kwAnd (eqs ++ [[.col c.column, .op op, .param p]]))
      :: keysetDisjuncts (eqs ++ [[.col c.column, .op .eq, .param p]]) rest

/-- **`KeysetPredicate`.** -/
def KeysetPredicate (cols : List KeysetColumn) (cursor : List Arg) (placeholderStart : Nat) :
    Except String (Frag × List Arg) :=
  if cursor = [] then .ok ([], [])
  else if cols.length ≠ cursor.length then
    .error ("runtime: KeysetPredicate: " ++ toString cols.length ++ " cols vs " ++ toString cursor.length
      ++ " cursor values")
  else
    let phs := List.range' placeholderStart cols.length
    if cols.all (·.desc) then .ok (rowComparison .lt cols phs, cursor)
    else if cols.all (!·.desc) then .ok (rowComparison .gt cols phs, cursor)
    else .ok (paren (sepBy .kwOr (keysetDisjuncts [] (cols.zip phs))), cursor)

/-! ## Row comparison is the sort order -/

variable {cols : List KeysetColumn}

theorem parseCols_sepBy (hne : cols ≠ []) (r : List Tok) :
    parseCols (sepBy .comma (cols.map fun c => [.col c.column]) ++ .rpar :: r)
      = some (cols.map SortKey.column, r) := by
  induction cols with
  | nil => exact absurd rfl hne
  | cons c cols ih =>
    cases cols with
    | nil => rfl
    | cons c' cols =>
      have hrec := ih (by simp)
      simp only [List.map_cons, sepBy, List.cons_append, List.nil_append, parseCols] at hrec ⊢
      rw [hrec]
      rfl

theorem spells_rowComparison {phs : List Nat} (hc : cols ≠ []) (hp : phs ≠ []) (o : CmpOp) :
    Spells (rowComparison o cols phs) (.row o (cols.map SortKey.column) phs) := by
  intro r
  have hcols := parseCols_sepBy hc (.op o :: .lpar :: (sepBy .comma (phs.map fun p => [.param p]) ++ .rpar :: r))
  have hphs := parseParams_sepBy hp r
  simp only [rowComparison, List.cons_append, List.append_assoc, List.nil_append, parsePred, hcols, hphs,
    Option.map_some]

/-- The keys of an ascending sort. -/
def ascending (cs : List String) : List KeysetColumn := cs.map fun c => ⟨c, false⟩

variable {V : Type} {D : Dialect V} {r s : Row V} {ps : Params V}

/-- The values of a cursor are bound to the placeholders. -/
def CursorBound (ps : Params V) : List Nat → List V → Prop :=
  List.Forall₂ fun p b => ps p = some b

theorem lift₂_eq_true {x y : Option V} {f : V → V → Bool} :
    lift₂ x y f = .true ↔ ∃ a b, x = some a ∧ y = some b ∧ f a b = true := by
  cases x with
  | none => simp [lift₂]
  | some a =>
    cases y with
    | none => simp [lift₂]
    | some b =>
      show Tri.ofBool (f a b) = .true ↔ _
      cases h : f a b <;> simp [Tri.ofBool, h]

/-- **A row comparison in one direction is true strictly after the cursor**, on every row. By induction on the
    keys; the operator is that of the common direction. -/
theorem rowCmp_eq_true_iff {keys : List KeysetColumn} {phs : List Nat} {bs : List V} {d : Bool} (hne : keys ≠ [])
    (hdir : ∀ k ∈ keys, k.desc = d) (hlin : ∀ k ∈ keys, D.Linear k.column) (hlen : keys.length = phs.length)
    (hbound : CursorBound ps phs bs) :
    rowCmp D r ps (if d then .lt else .gt) (keys.map SortKey.column) phs = .true ↔
      afterCursor D keys bs r = true := by
  induction hbound generalizing keys with
  | nil => exact absurd (List.length_eq_zero_iff.mp hlen) hne
  | @cons p b phs bs hp hbound ih =>
    cases keys with
    | nil => exact absurd rfl hne
    | cons k keys =>
      have hk := hlin k (by simp)
      have hbeyond : ∀ v, D.cmp k.column (if d then .lt else .gt) v b = k.beyond D v b := by
        intro v
        rw [SortKey.beyond, hdir k (by simp)]
      rw [afterCursor_cons hk]
      cases keys with
      | nil =>
        obtain rfl := List.length_eq_zero_iff.mp (Nat.succ.inj hlen).symm
        show lift₂ (r k.column) (ps p) _ = .true ↔ _
        rw [lift₂_eq_true]
        simp [hp, hbeyond, afterCursor]
      | cons k' keys =>
        obtain ⟨q, phs, rfl⟩ := List.exists_cons_of_length_eq_add_one (Nat.succ.inj hlen).symm
        have hrec := ih (List.cons_ne_nil _ _) (fun x hx => hdir x (List.mem_cons_of_mem _ hx))
          (fun x hx => hlin x (List.mem_cons_of_mem _ hx)) (Nat.succ.inj hlen)
        simp only [List.map_cons] at hrec ⊢
        rw [rowCmp.eq_2]
        · cases hr : r k.column with
          | none => simp [lift₂]
          | some v =>
            have heq : lift₂ (some v) (ps p) (D.cmp k.column .eq) = .ofBool (D.cmp k.column .eq v b) := by
              rw [hp]
              rfl
            have hcmp : lift₂ (some v) (ps p) (D.cmp k.column (if d then .lt else .gt))
                = .ofBool (k.beyond D v b) := by
              rw [hp, ← hbeyond]
              rfl
            rw [heq, hcmp]
            -- equal: the keys after this one decide; different: this one does
            cases hval : D.cmp k.column .eq v b with
            | true =>
              obtain rfl := (hk.eq_iff v b).mp hval
              simp [Tri.ofBool, hrec, SortKey.beyond_irrefl hk]
            | false =>
              have hvb : v ≠ b := fun h => by simp [(hk.eq_iff v b).mpr h] at hval
              cases hb : k.beyond D v b <;> simp [Tri.ofBool, hb, hvb]
        · simp

end Atlantis.Query
