import Atlantis.Query.Filter

/-!
# `Query.Translator` — `TranslateFilter`

`internal/codegen/query/translator.go`, function by function. A fragment is the list of its lexemes, and the
empty list is the empty string; the walker's counter and argument slice are passed along explicitly.

The recursion of `translateFilter` is bounded by `MaxFilterDepth`, and that bound is what the definition
recurses on: `left` is `MaxFilterDepth + 1 - depth`, so the depth check is the case `left = 0`.
-/

namespace Atlantis.Query

open Sql

/-- A SQL fragment. -/
abbrev Frag := List Tok

/-- The walker's mutable part: the next placeholder and the arguments bound so far. -/
structure Walker where
  nextPH : Nat
  args : List Arg
  deriving DecidableEq, Repr

/-- Reserve one placeholder and bind its argument. -/
def Walker.allocate (w : Walker) (v : Arg) : Nat × Walker := (w.nextPH, ⟨w.nextPH + 1, w.args ++ [v]⟩)

/-- `allocate` over a list, in order. -/
def Walker.allocateAll (w : Walker) : List Arg → List Nat × Walker
  | [] => ([], w)
  | v :: vs =>
    let (ph, w) := w.allocate v
    let (phs, w) := w.allocateAll vs
    (ph :: phs, w)

/-- What every translating function returns. -/
abbrev Out := Except String (Frag × Walker)

/-! ## Shared helpers -/

def checkString (s : String) : Except String String :=
  if s.utf8ByteSize > maxStringLen then
    .error ("string value exceeds " ++ toString maxStringLen ++ " bytes (got "
      ++ toString s.utf8ByteSize ++ ")")
  else .ok s

def stringListValues : List String → Except String (List Arg)
  | [] => .ok []
  | s :: vs => do
      let s ← checkString s
      let out ← stringListValues vs
      pure (.str s :: out)

/-- `escapeLike(s)`. -/
def escapeLike (s : String) : String := String.ofList (escape s.toList)

/-- **Escaping is exact**: between wildcards, an escaped text stands for itself and nothing else. -/
theorem escapeLike_exact (s t : String) :
    (like (escapeLike s ++ "%").toList t.toList = true ↔ s.toList <+: t.toList) ∧
    (like ("%" ++ escapeLike s).toList t.toList = true ↔ s.toList <:+ t.toList) ∧
    (like ("%" ++ escapeLike s ++ "%").toList t.toList = true ↔ s.toList <:+: t.toList) := by
  have htext : (escapeLike s).toList = escape s.toList := String.toList_ofList
  simp only [String.toList_append, htext]
  exact ⟨like_startsWith _ _, like_endsWith _ _, like_contains _ _⟩

def nullFragment (col : String) (on invert : Bool) : Frag :=
  if on then
    if invert then [.col col, .kwIs, .kwNot, .kwNull] else [.col col, .kwIs, .kwNull]
  else []

/-- The operator text `comparisonOp` returns is the lexeme of the comparison. -/
def cmpFragment (w : Walker) (col : String) (o : CmpOp) (v : Arg) : Frag × Walker :=
  let (ph, w) := w.allocate v
  ([.col col, .op o, .param ph], w)

def inFragment (w : Walker) (col : String) (vals : List Arg) (negate : Bool) : Out :=
  if vals = [] then .ok ([], w)
  else if vals.length > maxInListSize then
    .error ("in/not_in list exceeds " ++ toString maxInListSize ++ " (got " ++ toString vals.length ++ ")")
  else
    let (phs, w) := w.allocateAll vals
    let op := if negate then [Tok.kwNot, .kwIn] else [.kwIn]
    .ok (.col col :: (op ++ .lpar :: (sepBy .comma (phs.map fun ph => [.param ph]) ++ [.rpar])), w)

/-- `col BETWEEN $lo AND $hi`. -/
def betweenFragment (w : Walker) (col : String) (lo hi : Arg) : Frag × Walker :=
  let (phLo, w) := w.allocate lo
  let (phHi, w) := w.allocate hi
  ([.col col, .kwBetween, .param phLo, .kwAnd, .param phHi], w)

/-! ## The predicate kinds -/

/-- `col LIKE $n` / `col ILIKE $n` for an escaped value between wildcards. -/
def likeFragment (w : Walker) (fs : FieldSpec) (op : Tok) (before s after : String) : Out := do
  let s ← checkString s
  let (ph, w) := w.allocate (.str (before ++ escapeLike s ++ after))
  pure ([.col fs.column, op, .param ph], w)

def translateStringPredicate (w : Walker) (fs : FieldSpec) : Option StringOp → Out
  | none => .ok ([], w)
  | some (.eq s) => do let s ← checkString s; pure (cmpFragment w fs.column .eq (.str s))
  | some (.neq s) => do let s ← checkString s; pure (cmpFragment w fs.column .ne (.str s))
  | some (.in_ vs) => do let vals ← stringListValues vs; inFragment w fs.column vals false
  | some (.notIn vs) => do let vals ← stringListValues vs; inFragment w fs.column vals true
  | some (.startsWith s) => likeFragment w fs .kwLike "" s "%"
  | some (.endsWith s) => likeFragment w fs .kwLike "%" s ""
  | some (.contains s) => likeFragment w fs .kwLike "%" s "%"
  | some (.ilike s) => likeFragment w fs .kwILike "%" s "%"
  | some (.isNull on) => .ok (nullFragment fs.column on false, w)
  | some (.isNotNull on) => .ok (nullFragment fs.column on true, w)

/-- The argument for an integer read from the message, by the width of the predicate. -/
def intArg (wide : Bool) (v : Int64) : Arg := if wide then .i64 v else .i32 v.toInt32

/-- The values arrive as `val.Int()`, an `int64` at either width. -/
def translateIntPredicate (w : Walker) (fs : FieldSpec) (wide : Bool) : Option (IntOp Int64) → Out
  | none => .ok ([], w)
  | some (.cmp arm v) => .ok (cmpFragment w fs.column (comparisonOp arm) (intArg wide v))
  | some (.in_ vs) => inFragment w fs.column (vs.map (intArg wide)) false
  | some (.notIn vs) => inFragment w fs.column (vs.map (intArg wide)) true
  | some (.between lo hi) =>
    if lo > hi then
      .error ("range lo (" ++ toString lo ++ ") > hi (" ++ toString hi ++ ")")
    else .ok (betweenFragment w fs.column (intArg wide lo) (intArg wide hi))
  | some (.isNull on) => .ok (nullFragment fs.column on false, w)
  | some (.isNotNull on) => .ok (nullFragment fs.column on true, w)

def translateBoolPredicate (w : Walker) (fs : FieldSpec) : Option BoolOp → Out
  | none => .ok ([], w)
  | some (.eq b) => .ok (cmpFragment w fs.column .eq (.bool b))
  | some (.isNull on) => .ok (nullFragment fs.column on false, w)
  | some (.isNotNull on) => .ok (nullFragment fs.column on true, w)

/-- `timestampFromMessage`: the instant, or an error when the message is unset. -/
def timestampFromMessage : Option Timestamp → Except String Int
  | none => .error "nil timestamp"
  | some t => .ok t.instant

def translateTimestampPredicate (w : Walker) (fs : FieldSpec) : Option TimestampOp → Out
  | none => .ok ([], w)
  | some (.cmp arm v) => do
      let t ← timestampFromMessage (some v)
      pure (cmpFragment w fs.column (comparisonOp arm) (.time t))
  | some (.between lo hi) => do
      let lo ← (timestampFromMessage lo).mapError ("range.lo: " ++ ·)
      let hi ← (timestampFromMessage hi).mapError ("range.hi: " ++ ·)
      if lo > hi then .error "range lo > hi"
      else pure (betweenFragment w fs.column (.time lo) (.time hi))
  | some (.isNull on) => .ok (nullFragment fs.column on false, w)
  | some (.isNotNull on) => .ok (nullFragment fs.column on true, w)

def translateBytesPredicate (w : Walker) (fs : FieldSpec) : Option BytesOp → Out
  | none => .ok ([], w)
  | some (.eq b) => .ok (cmpFragment w fs.column .eq (.bytes b))
  | some (.neq b) => .ok (cmpFragment w fs.column .ne (.bytes b))
  | some (.in_ vs) => inFragment w fs.column (vs.map .bytes) false
  | some (.isNull on) => .ok (nullFragment fs.column on false, w)
  | some (.isNotNull on) => .ok (nullFragment fs.column on true, w)

-- The numeric `in` is built in place and, unlike `inFragment`, has no cap on its length.
def translateNumericPredicate (w : Walker) (fs : FieldSpec) : Option NumericOp → Out
  | none => .ok ([], w)
  | some (.cmp arm s) => do
      let s ← checkString s
      let (ph, w) := w.allocate (.str s)
      pure ([.col fs.column, .cast, .op (comparisonOp arm), .param ph, .cast], w)
  | some (.in_ vs) => do
      let vals ← stringListValues vs
      if vals = [] then pure ([], w)
      else
        let (phs, w) := w.allocateAll vals
        let list := sepBy .comma (phs.map fun ph => [.param ph, .cast])
        pure (.col fs.column :: .cast :: .kwIn :: .lpar :: (list ++ [.rpar]), w)
  | some (.isNull on) => .ok (nullFragment fs.column on false, w)
  | some (.isNotNull on) => .ok (nullFragment fs.column on true, w)

/-- The same operator on the values as `val.Int()` reads them. -/
def IntOp.widen : IntOp Int32 → IntOp Int64
  | .cmp arm v => .cmp arm v.toInt64
  | .in_ vs => .in_ (vs.map (·.toInt64))
  | .notIn vs => .notIn (vs.map (·.toInt64))
  | .between lo hi => .between lo.toInt64 hi.toInt64
  | .isNull on => .isNull on
  | .isNotNull on => .isNotNull on

/-- Dispatch on the kind in the spec. The spec and the message type come from one generator; where they
    disagree the accessors of the reflection API have no such arm to read, and no fragment is produced. -/
def translatePredicate (w : Walker) (fs : FieldSpec) : PredMsg → Out
  | .string op => if fs.kind = .string then translateStringPredicate w fs op else mismatch
  | .int32 op => if fs.kind = .int32 then translateIntPredicate w fs false (op.map IntOp.widen) else mismatch
  | .int64 op => if fs.kind = .int64 then translateIntPredicate w fs true op else mismatch
  | .bool op => if fs.kind = .bool then translateBoolPredicate w fs op else mismatch
  | .timestamp op => if fs.kind = .timestamp then translateTimestampPredicate w fs op else mismatch
  | .bytes op => if fs.kind = .bytes then translateBytesPredicate w fs op else mismatch
  | .numeric op => if fs.kind = .numeric then translateNumericPredicate w fs op else mismatch
where
  mismatch : Out := .error ("unsupported predicate kind for column " ++ fs.column)

/-! ## The descent -/

/-- Place a field after every field of a sorted slice with no greater number. -/
def insertByNumber (x : SetField) : List SetField → List SetField
  | [] => [x]
  | y :: s => if y.num > x.num then x :: y :: s else y :: insertByNumber x s

/-- `sortByNumber`: insertion sort, each field moved left past the greater numbers. -/
def sortByNumber (s : List SetField) : List SetField := s.foldl (fun sorted x => insertByNumber x sorted) []

/-- Translate each element in turn and keep the fragments that are not empty. -/
def collect {α : Type} (f : α → Walker → Out) : List α → Walker → Except String (List Frag × Walker)
  | [], w => .ok ([], w)
  | x :: xs, w => do
      let (frag, w) ← f x w
      let (parts, w) ← collect f xs w
      pure (if frag = [] then parts else frag :: parts, w)

/-- `strings.TrimPrefix(strings.TrimSuffix(p, ")"), "(")`. -/
def trimParens (p : Frag) : Frag :=
  let p := if p.getLast? = some .rpar then p.dropLast else p
  if p.head? = some .lpar then p.tail else p

/-- The end of `translateComposite`: a single part loses its parentheses. -/
def joinComposite (op : Tok) : List Frag → Frag
  | [] => []
  | [p] => trimParens p
  | parts => sepBy op parts

/-- `translateComposite`, given the translation of a member at the depth below. -/
def translateComposite (member : Filter → Walker → Out) (op : Tok) (list : List Filter) (w : Walker) : Out := do
  let (parts, w) ← collect member list w
  pure (joinComposite op (parts.map paren), w)

/-- The loop body of `translateFilter`, given the translation of a nested message. -/
def translateArm (spec : FilterSpec) (nested : Filter → Walker → Out) (sf : SetField) (w : Walker) : Out :=
  match sf with
  | .and _ ms => translateComposite nested .kwAnd ms w
  | .or _ ms => translateComposite nested .kwOr ms w
  | .not _ m => do
      let (inner, w) ← nested m w
      pure (if inner = [] then [] else .kwNot :: paren inner, w)
  | .pred _ field p =>
    match spec.fields field.name with
    | none => .error (spec.entityID ++ ": unknown filter field \"" ++ field.name ++ "\"")
    | some fs => (translatePredicate w fs p).mapError (spec.entityID ++ "." ++ field.name ++ ": " ++ ·)

/-- `translateFilter` at depth `MaxFilterDepth + 1 - left`. -/
def translateFilter (spec : FilterSpec) : (left : Nat) → Filter → Walker → Out
  | 0, _, _ => .error (spec.entityID ++ ": filter depth exceeds " ++ toString maxFilterDepth)
  | left + 1, m, w => do
      let (parts, w) ← collect (translateArm spec (translateFilter spec left)) (sortByNumber m.set) w
      pure (sepBy .kwAnd parts, w)

/-- What `TranslateFilter` returns: the fragment, the arguments and the number of placeholders consumed. -/
structure Translation where
  sql : Frag
  args : List Arg
  consumed : Nat
  deriving DecidableEq, Repr

/-- **`TranslateFilter`.** `msg` is `none` when the request carries no filter. -/
def TranslateFilter (spec : FilterSpec) (msg : Option Filter) (placeholderStart : Nat)
    (extraPredicates : List Frag) : Except String Translation := do
  let (userPart, w) ← userFilter ⟨placeholderStart, []⟩
  let parts := (if userPart = [] then [] else [paren userPart])
    ++ (extraPredicates.filter (· ≠ [])).map paren
  pure ⟨sepBy .kwAnd parts, w.args, w.nextPH - placeholderStart⟩
where
  userFilter (w : Walker) : Out :=
    match msg with
    | some m => translateFilter spec (maxFilterDepth + 1) m w
    | none => .ok ([], w)

end Atlantis.Query
