import Mathlib.Data.List.Forall2
import Atlantis.Lib.Fold
import Atlantis.Query.Translator

/-!
# `Query.TranslatorCorrect` — a fragment means what its filter asks for

The walker threads a placeholder counter and an argument slice through the descent, so the meaning of a
fragment is stated relative to where it starts: `Translates B row l w out r` says that `out` extended the
walker `w` by some arguments and that, under every binding of these from `w.nextPH` on, the fragment is a
phrase of level `l` with the truth value `r` — or empty, when `r` asks for nothing.

The levels carry the argument. A field predicate and a `NOT (…)` are units, an `and` composite is a
conjunction, and an `or` of two or more members is a **bare** disjunction: `translateComposite` wraps the
members but not the whole, and drops the wrapping of a single member again. `translateFilter` then pastes
the arms of a message together with `AND`, which binds tighter. `Shape` computes where a bare `OR` surfaces;
a message is translated faithfully when none stands next to another arm.
-/

namespace Atlantis.Query

open Sql Lib

/-! ## Where a bare `OR` surfaces -/

/-- Whether an operator contributes anything: an empty list and a null flag left false do not. -/
def StringOp.asks : StringOp → Bool
  | .in_ vs => !vs.isEmpty
  | .notIn vs => !vs.isEmpty
  | .isNull on => on
  | .isNotNull on => on
  | _ => true

def IntOp.asks {α : Type} : IntOp α → Bool
  | .in_ vs => !vs.isEmpty
  | .notIn vs => !vs.isEmpty
  | .isNull on => on
  | .isNotNull on => on
  | _ => true

def BoolOp.asks : BoolOp → Bool
  | .isNull on => on
  | .isNotNull on => on
  | .eq _ => true

def TimestampOp.asks : TimestampOp → Bool
  | .between lo hi => lo.isSome && hi.isSome
  | .isNull on => on
  | .isNotNull on => on
  | .cmp _ _ => true

def BytesOp.asks : BytesOp → Bool
  | .in_ vs => !vs.isEmpty
  | .isNull on => on
  | .isNotNull on => on
  | _ => true

def NumericOp.asks : NumericOp → Bool
  | .in_ vs => !vs.isEmpty
  | .isNull on => on
  | .isNotNull on => on
  | .cmp _ _ => true

/-- Whether a predicate message contributes anything. -/
def PredMsg.asks : PredMsg → Bool
  | .string op => op.any StringOp.asks
  | .int32 op => op.any IntOp.asks
  | .int64 op => op.any IntOp.asks
  | .bool op => op.any BoolOp.asks
  | .timestamp op => op.any TimestampOp.asks
  | .bytes op => op.any BytesOp.asks
  | .numeric op => op.any NumericOp.asks

/-- How the text of a message or an arm looks from outside: whether it is there at all, whether it has an
    `OR` outside all parentheses, and whether no message in it has such an `OR` next to another arm. -/
structure Shape where
  asks : Bool
  bareOr : Bool
  apart : Bool
  deriving DecidableEq, Repr

namespace Shape

/-- How many of the shapes are there. -/
def count (ss : List Shape) : Nat := ss.countP (·.asks)

/-- Arms pasted together with `AND`, without parentheses. -/
def message (ss : List Shape) : Shape where
  asks := decide (0 < count ss)
  bareOr := decide (count ss = 1) && ss.any (·.bareOr)
  apart := (decide (count ss ≤ 1) || !ss.any (·.bareOr)) && ss.all (·.apart)

/-- Members in parentheses joined with `AND`; a single one loses its parentheses. -/
def conj (ss : List Shape) : Shape where
  asks := decide (0 < count ss)
  bareOr := decide (count ss = 1) && ss.any (·.bareOr)
  apart := ss.all (·.apart)

/-- Members in parentheses joined with `OR`; a single one loses its parentheses. -/
def disj (ss : List Shape) : Shape where
  asks := decide (0 < count ss)
  bareOr := decide (2 ≤ count ss) || decide (count ss = 1) && ss.any (·.bareOr)
  apart := ss.all (·.apart)

end Shape

mutual

/-- The shape of a message. -/
def Filter.shape : Filter → Shape
  | .mk set => .message (shapeSet set)

/-- The shape of an arm. -/
def SetField.shape : SetField → Shape
  | .pred _ _ p => ⟨p.asks, false, true⟩
  | .and _ ms => .conj (shapeList ms)
  | .or _ ms => .disj (shapeList ms)
  | .not _ m => ⟨m.shape.asks, false, m.shape.apart⟩

def shapeSet : List SetField → List Shape
  | [] => []
  | sf :: rest => sf.shape :: shapeSet rest

def shapeList : List Filter → List Shape
  | [] => []
  | m :: rest => m.shape :: shapeList rest

end

theorem shapeSet_eq_map (set : List SetField) : shapeSet set = set.map SetField.shape := by
  induction set with
  | nil => simp [shapeSet]
  | cons sf rest ih => simp [shapeSet, ih]

theorem shapeList_eq_map (ms : List Filter) : shapeList ms = ms.map Filter.shape := by
  induction ms with
  | nil => simp [shapeList]
  | cons m rest ih => simp [shapeList, ih]

/-- **No bare `OR` next to another arm**, in the message and everything nested in it: wherever a message
    combines two or more contributing arms, none of them is an `or` of two or more contributing members, nor
    a composite whose only contributing member is such a message. -/
def Filter.OrsApart (m : Filter) : Prop := m.shape.apart = true

instance (m : Filter) : Decidable m.OrsApart := inferInstanceAs (Decidable (_ = _))

/-! ## Bindings -/

section Correct

variable {V : Type} (B : Pg V) (row : Row V)

/-- The placeholders from `p` on are bound to the arguments. -/
def Binds (ps : Params V) : Nat → List Arg → Prop
  | _, [] => True
  | p, a :: as => ps p = some (B.bind a) ∧ Binds ps (p + 1) as

variable {B} {ps : Params V}

variable {p : Nat} {as : List Arg} {t : Tri} {s : String} {v : Pred → Tri} {b d : Bool} {frag : Frag} {α : Type}
  {ms : List Filter} {read : α → Option Tri} {shape : α → Shape} {xs : List α}

theorem Binds.append_iff {bs : List Arg} :
    Binds B ps p (as ++ bs) ↔ Binds B ps p as ∧ Binds B ps (p + as.length) bs := by
  induction as generalizing p with
  | nil => simp [Binds]
  | cons a as ih =>
    have hlen : p + 1 + as.length = p + (a :: as).length := by simp only [List.length_cons]; omega
    rw [List.cons_append]
    simp only [Binds, ih, hlen, and_assoc]

/-- A list predicate ranges over the values of consecutive placeholders. -/
theorem Binds.map_range (h : Binds B ps p as) (x : Option V) (f : V → V → Bool) :
    (List.range' p as.length).map (fun q => lift₂ x (ps q) f)
      = as.map (fun a => lift x fun y => f y (B.bind a)) := by
  induction as generalizing p with
  | nil => rfl
  | cons a as ih =>
    simp only [List.length_cons, List.range'_succ, List.map_cons, h.1, lift₂_some, ih h.2]

/-- The walker after the arguments `new`. -/
def Walker.push (w : Walker) (new : List Arg) : Walker := ⟨w.nextPH + new.length, w.args ++ new⟩

@[simp] theorem Walker.push_nil (w : Walker) : w.push [] = w := by simp [Walker.push]

theorem Walker.push_push (w : Walker) (as bs : List Arg) : (w.push as).push bs = w.push (as ++ bs) := by
  simp [Walker.push, Nat.add_assoc]

@[simp] theorem Walker.push_nextPH (w : Walker) (as : List Arg) :
    (w.push as).nextPH = w.nextPH + as.length := rfl

theorem Walker.allocate_eq (w : Walker) (v : Arg) : w.allocate v = (w.nextPH, w.push [v]) := rfl

theorem Walker.allocateAll_eq (w : Walker) (vs : List Arg) :
    w.allocateAll vs = (List.range' w.nextPH vs.length, w.push vs) := by
  induction vs generalizing w with
  | nil => simp [Walker.allocateAll]
  | cons v vs ih =>
    simp only [Walker.allocateAll, Walker.allocate_eq, ih, Walker.push_push, List.singleton_append,
      List.length_cons, List.range'_succ, Walker.push_nextPH, List.length_nil, Nat.zero_add]

/-! ## What a translation means -/

/-- The fragment is a phrase with the truth value asked for, or empty when nothing is. -/
def Means (v : Pred → Tri) (l : Lvl) (frag : Frag) : Option Tri → Prop
  | none => frag = []
  | some t => Reads v l frag t

variable (B)

/-- `out` extends the walker `w` by arguments under which its fragment means `r`. -/
def Translates (l : Lvl) (w : Walker) (out : Frag × Walker) (r : Option Tri) : Prop :=
  ∃ new, out.2 = w.push new ∧
    ∀ ps, Binds B ps w.nextPH new → Means (Pred.eval B.toDialect row ps) l out.1 r

variable {B row} {w w' : Walker} {out : Frag × Walker} {r : Option Tri}

theorem Translates.mono {l l' : Lvl} (hl : ∀ {v frag t}, Reads v l frag t → Reads v l' frag t)
    (h : Translates B row l w out r) : Translates B row l' w out r := by
  obtain ⟨new, hw, hm⟩ := h
  refine ⟨new, hw, fun ps hps => ?_⟩
  cases r with
  | none => exact hm ps hps
  | some t => exact hl (hm ps hps)

/-! ### The placeholders of a fragment -/

/-- The placeholders of a fragment, in the order they stand in it. -/
def params (frag : Frag) : List Nat := frag.filterMap fun
  | .param n => some n
  | _ => none

@[simp] theorem params_append (ts us : Frag) : params (ts ++ us) = params ts ++ params us := List.filterMap_append

theorem params_sepBy {sep : Tok} (hsep : params [sep] = []) (parts : List Frag) :
    params (sepBy sep parts) = parts.flatMap params := by
  induction parts with
  | nil => rfl
  | cons p parts ih =>
    cases parts with
    | nil => simp [sepBy]
    | cons q parts =>
      have hcons : sepBy sep (p :: q :: parts) = p ++ ([sep] ++ sepBy sep (q :: parts)) := rfl
      rw [hcons, params_append, params_append, hsep, ih]
      rfl

/-- The list of an `IN`. -/
theorem params_list (unit : Nat → Frag) (hunit : ∀ p, params (unit p) = [p]) (phs : List Nat) :
    params (sepBy .comma (phs.map unit)) = phs := by
  rw [params_sepBy rfl, List.flatMap_map]
  simp [hunit]

/-- `out` extends the walker, and its placeholders are those handed out on the way to it, one after the other. -/
def Owns (w : Walker) (out : Frag × Walker) : Prop :=
  ∃ new, out.2 = w.push new ∧ params out.1 = List.range' w.nextPH new.length

/-- `out` is empty or a unit, means `r`, and has its own placeholders only. -/
structure Built (B : Pg V) (row : Row V) (w : Walker) (out : Frag × Walker) (r : Option Tri) : Prop where
  translates : Translates B row .unit w out r
  owns : Owns w out

theorem built_none (h : (.ok ([], w) : Out) = .ok out) : Built B row w out none := by
  cases h
  exact ⟨⟨[], by simp, fun _ _ => rfl⟩, [], by simp, rfl⟩

/-- One predicate over newly bound arguments. -/
theorem built_pred {n : List Arg} {p : Pred} (hw : out.2 = w.push n) (hs : Spells out.1 p)
    (hown : params out.1 = List.range' w.nextPH n.length)
    (ht : ∀ ps, Binds B ps w.nextPH n → Pred.eval B.toDialect row ps p = t) : Built B row w out (some t) :=
  ⟨⟨n, hw, fun ps hps => ht ps hps ▸ Reads.pred hs⟩, n, hw, hown⟩

/-! ## The predicate kinds -/

variable {fs : FieldSpec} {c : String}

theorem checkString_ok {t : String} (h : checkString s = .ok t) : t = s := by
  unfold checkString at h
  split at h
  · cases h
  · exact (Except.ok.inj h).symm

theorem stringListValues_ok {vs : List String} (h : stringListValues vs = .ok as) : as = vs.map .str := by
  induction vs generalizing as with
  | nil => exact (Except.ok.inj h).symm
  | cons s vs ih =>
    obtain ⟨s', hs, h⟩ := bind_ok h
    obtain ⟨as', hvs, h⟩ := bind_ok h
    rw [← Except.ok.inj h, checkString_ok hs, ih hvs]
    rfl

theorem cmpFragment_built {o : CmpOp} {a : Arg} (h : (.ok (cmpFragment w c o a) : Out) = .ok out) :
    Built B row w out (some (cmpReading B row o c a)) := by
  cases h
  have hspell : Spells (cmpFragment w c o a).1 (.cmp o c w.nextPH) := fun r => rfl
  have hpush : (cmpFragment w c o a).2 = w.push [a] := rfl
  refine built_pred hpush hspell rfl fun ps hps => ?_
  simp only [Pred.eval, hps.1, lift₂_some]
  rfl

theorem betweenFragment_built {lo hi : Arg} (h : (.ok (betweenFragment w c lo hi) : Out) = .ok out) :
    Built B row w out (some ((cmpReading B row .ge c lo).and (cmpReading B row .le c hi))) := by
  cases h
  have hspell : Spells (betweenFragment w c lo hi).1 (.between c w.nextPH (w.nextPH + 1)) := fun r => rfl
  have hpush : (betweenFragment w c lo hi).2 = w.push [lo, hi] := by
    simp [betweenFragment, Walker.allocate_eq, Walker.push_push]
  refine built_pred hpush hspell rfl fun ps hps => ?_
  simp only [Pred.eval, hps.1, hps.2.1, lift₂_some]
  rfl

theorem nullFragment_built {on invert : Bool} (h : (.ok (nullFragment c on invert, w) : Out) = .ok out) :
    Built B row w out (nullReading row c on invert) := by
  cases on with
  | false => exact built_none h
  | true =>
    cases h
    have hspell : Spells (nullFragment c true invert) (.isNull invert c) := by
      cases invert <;> exact fun r => rfl
    refine built_pred (w.push_nil).symm hspell ?_ fun ps _ => rfl
    cases invert <;> rfl

/-- The list predicate, with `IN` and `NOT IN` read from the membership test. -/
theorem inFragment_built {negate : Bool} (h : inFragment w c as negate = .ok out) :
    Built B row w out
      (listReading (fun as => if negate then (memReading B row c as).not else memReading B row c as) as) := by
  unfold inFragment at h
  by_cases hnil : as = []
  · rw [if_pos hnil] at h
    rw [listReading, if_pos hnil]
    exact built_none h
  rw [if_neg hnil] at h
  split at h
  · cases h
  rw [Walker.allocateAll_eq] at h
  rw [← Except.ok.inj h, listReading, if_neg hnil]
  have hne : List.range' w.nextPH as.length ≠ [] := by simpa using hnil
  refine built_pred (p := .inList negate c (List.range' w.nextPH as.length)) rfl (fun r => ?_) ?_ fun ps hps => ?_
  · have hlist := parseParams_sepBy hne r
    cases negate <;> simp [parsePred, hlist]
  · have hlist := params_list (fun ph => [.param ph]) (fun _ => rfl) (List.range' w.nextPH as.length)
    cases negate <;> simpa [params] using hlist
  · simp only [Pred.eval, hps.map_range]
    rfl

/-- A pattern predicate, from what its pattern matches. -/
theorem likeFragment_built (fold : Bool) {before after : String} {P : List Char → Bool}
    (h : likeFragment w fs (if fold then .kwILike else .kwLike) before s after = .ok out) (hP : ∀ t : List Char, P t =
      if fold then Sql.like ((before.toList ++ escape s.toList ++ after.toList).map B.lower) (t.map B.lower)
      else Sql.like (before.toList ++ escape s.toList ++ after.toList) t) :
    Built B row w out (some (textReading B row fs.column P)) := by
  obtain ⟨s', hs, h⟩ := bind_ok h
  rw [checkString_ok hs, Walker.allocate_eq] at h
  cases h
  refine built_pred (p := .like fold fs.column w.nextPH) rfl (fun r => by cases fold <;> rfl) (by cases fold <;> rfl)
    fun ps hps => ?_
  have htext : B.text (B.bind (.str (before ++ escapeLike s ++ after)))
      = before.toList ++ escape s.toList ++ after.toList := by
    rw [B.text_str]
    simp [escapeLike]
  have hPeq : P = _ := funext hP
  cases fold <;> simp only [Pred.eval, hps.1, lift₂_some, textReading, htext, hPeq] <;> rfl

theorem translateStringPredicate_built {op : Option StringOp}
    (h : translateStringPredicate w fs op = .ok out) :
    Built B row w out (op.bind (StringOp.reading B row fs.column)) := by
  cases op with
  | none => exact built_none h
  | some op =>
    cases op with
    | eq s | neq s =>
      obtain ⟨s', hs, h⟩ := bind_ok h
      rw [checkString_ok hs] at h
      exact cmpFragment_built h
    | in_ vs | notIn vs =>
      obtain ⟨as, has, h⟩ := bind_ok h
      rw [stringListValues_ok has] at h
      exact inFragment_built h
    | startsWith s =>
      refine likeFragment_built false h fun t => ?_
      rw [Bool.eq_iff_iff, decide_eq_true_iff]
      exact (like_startsWith s.toList t).symm
    | endsWith s =>
      refine likeFragment_built false h fun t => ?_
      rw [Bool.eq_iff_iff, decide_eq_true_iff]
      simpa using (like_endsWith s.toList t).symm
    | contains s =>
      refine likeFragment_built false h fun t => ?_
      rw [Bool.eq_iff_iff, decide_eq_true_iff]
      exact (like_contains s.toList t).symm
    | ilike s =>
      refine likeFragment_built true h fun t => ?_
      -- folding the case of an escaped value is escaping the folded value
      have hfold : (("%".toList ++ escape s.toList ++ "%".toList).map B.lower)
          = '%' :: (escape (s.toList.map B.lower) ++ ['%']) := by
        have hpct : B.lower '%' = '%' := B.lower_fix _ rfl
        simp [← escape_map B.lower_meta B.lower_fix, hpct]
      rw [if_pos rfl, hfold, Bool.eq_iff_iff, decide_eq_true_iff]
      exact (like_contains _ _).symm
    | isNull on | isNotNull on => exact nullFragment_built h

/-- At either width, from the values as the message carries them. -/
theorem translateIntPredicate_built {wide : Bool} {op : Option (IntOp Int64)}
    (h : translateIntPredicate w fs wide op = .ok out) :
    Built B row w out (op.bind (IntOp.reading B row (intArg wide) fs.column)) := by
  cases op with
  | none => exact built_none h
  | some op =>
    cases op with
    | cmp arm v => exact cmpFragment_built h
    | in_ vs | notIn vs => exact inFragment_built h
    | between lo hi =>
      simp only [translateIntPredicate] at h
      split at h
      · cases h
      · exact betweenFragment_built h
    | isNull on | isNotNull on => exact nullFragment_built h

theorem translateBoolPredicate_built {op : Option BoolOp}
    (h : translateBoolPredicate w fs op = .ok out) :
    Built B row w out (op.bind (BoolOp.reading B row fs.column)) := by
  cases op with
  | none => exact built_none h
  | some op =>
    cases op with
    | eq b => exact cmpFragment_built h
    | isNull on | isNotNull on => exact nullFragment_built h

theorem translateTimestampPredicate_built {op : Option TimestampOp}
    (h : translateTimestampPredicate w fs op = .ok out) :
    Built B row w out (op.bind (TimestampOp.reading B row fs.column)) := by
  cases op with
  | none => exact built_none h
  | some op =>
    cases op with
    | cmp arm v => exact cmpFragment_built h
    | between lo hi =>
      -- an end left unset is an error, so both are there
      obtain ⟨x, hlo, h⟩ := bind_ok h
      obtain ⟨y, hhi, h⟩ := bind_ok h
      cases lo with
      | none => cases hlo
      | some lo =>
        cases hi with
        | none => cases hhi
        | some hi =>
          cases hlo
          cases hhi
          split at h
          · cases h
          · exact betweenFragment_built h
    | isNull on | isNotNull on => exact nullFragment_built h

theorem translateBytesPredicate_built {op : Option BytesOp}
    (h : translateBytesPredicate w fs op = .ok out) :
    Built B row w out (op.bind (BytesOp.reading B row fs.column)) := by
  cases op with
  | none => exact built_none h
  | some op =>
    cases op with
    | eq b | neq b => exact cmpFragment_built h
    | in_ vs => exact inFragment_built h
    | isNull on | isNotNull on => exact nullFragment_built h

theorem translateNumericPredicate_built {op : Option NumericOp}
    (h : translateNumericPredicate w fs op = .ok out) :
    Built B row w out (op.bind (NumericOp.reading B row fs.column)) := by
  cases op with
  | none => exact built_none h
  | some op =>
    cases op with
    | cmp arm s =>
      obtain ⟨s', hs, h⟩ := bind_ok h
      rw [← Except.ok.inj h, checkString_ok hs]
      refine built_pred (n := [.str s]) (p := .numCmp (comparisonOp arm) fs.column w.nextPH) rfl
        (fun r => rfl) rfl fun ps hps => ?_
      simp only [Pred.eval, hps.1, lift₂_some]
      rfl
    | in_ vs =>
      obtain ⟨as, has, h⟩ := bind_ok h
      rw [stringListValues_ok has] at h
      show Built B row w out (if vs = [] then none else some _)
      by_cases hnil : vs = []
      · rw [if_pos (by simpa using hnil)] at h
        rw [if_pos hnil]
        exact built_none h
      rw [if_neg (by simpa using hnil), Walker.allocateAll_eq] at h
      rw [← Except.ok.inj h, if_neg hnil]
      have hne : List.range' w.nextPH (vs.map Arg.str).length ≠ [] := by simpa using hnil
      refine built_pred (p := .numIn fs.column (List.range' w.nextPH (vs.map Arg.str).length)) rfl (fun r => ?_) ?_
        fun ps hps => ?_
      · have hlist := parseCastParams_sepBy hne r
        rw [List.length_map] at hlist
        simp [parsePred, hlist]
      · have hlist := params_list (fun ph => [.param ph, .cast]) (fun _ => rfl) (List.range' w.nextPH (vs.map Arg.str).length)
        simpa [params] using hlist
      · simp only [Pred.eval, hps.map_range, List.map_map]
        rfl
    | isNull on | isNotNull on => exact nullFragment_built h

/-- **A field predicate means what its message asks for.** -/
theorem translatePredicate_built {p : PredMsg} (h : translatePredicate w fs p = .ok out) :
    Built B row w out (p.reading B row fs.column) := by
  cases p <;> simp only [translatePredicate] at h <;> split at h
  case string.isTrue => exact translateStringPredicate_built h
  case int32.isTrue op _ =>
    have hwiden : (PredMsg.int32 op).reading B row fs.column
        = (op.map IntOp.widen).bind (IntOp.reading B row (intArg false) fs.column) := by
      rw [Option.bind_map]
      refine congrArg op.bind (funext fun op => ?_)
      -- reading an `int32` through `val.Int()` loses nothing
      cases op <;> simp [IntOp.widen, IntOp.reading, intArg, Function.comp_def]
    rw [hwiden]
    exact translateIntPredicate_built h
  case int64.isTrue => exact translateIntPredicate_built h
  case bool.isTrue => exact translateBoolPredicate_built h
  case timestamp.isTrue => exact translateTimestampPredicate_built h
  case bytes.isTrue => exact translateBytesPredicate_built h
  case numeric.isTrue => exact translateNumericPredicate_built h
  all_goals cases h

/-- A predicate message reads as something exactly when it asks for something. -/
theorem PredMsg.reading_isSome (p : PredMsg) : (p.reading B row c).isSome = p.asks := by
  have hlist : ∀ {α : Type} (t : List Arg → Tri) (arg : α → Arg) (vs : List α),
      (listReading t (vs.map arg)).isSome = !vs.isEmpty := by
    intro α t arg vs
    cases vs <;> rfl
  have hnull : ∀ on invert, (nullReading row c on invert).isSome = on := by
    intro on invert
    cases on <;> rfl
  cases p with
  | string op | int32 op | int64 op | bool op | bytes op =>
    rcases op with _ | op
    · rfl
    · cases op <;> first | rfl | exact hnull _ _ | exact hlist _ _ _ |
        exact hlist (fun as => (memReading B row c as).not) _ _
  | timestamp op =>
    rcases op with _ | op
    · rfl
    · cases op with
      | cmp _ _ => rfl
      | between lo hi => cases lo <;> cases hi <;> rfl
      | isNull on | isNotNull on => exact hnull _ _
  | numeric op =>
    rcases op with _ | op
    · rfl
    · cases op with
      | cmp _ _ => rfl
      | in_ vs => cases vs <;> rfl
      | isNull on | isNotNull on => exact hnull _ _

/-! ## Joining fragments -/

/-- The level of a text with or without a bare `OR`. -/
def levelOf (bare : Bool) : Lvl := if bare then .or else .and

theorem reads_levelOf (hb : b = true → d = true) (h : Reads v (levelOf b) frag t) : Reads v (levelOf d) frag t := by
  cases b with
  | true => rw [hb rfl]; exact h
  | false =>
    cases d with
    | true => exact Reads.toOr h
    | false => exact h

theorem trimParens_paren (p : Frag) : trimParens (paren p) = p := by
  have hlast : (paren p).getLast? = some .rpar := by
    rw [paren, ← List.cons_append, List.getLast?_concat]
  have hdrop : (paren p).dropLast = .lpar :: p := by
    rw [paren, ← List.cons_append, List.dropLast_concat]
  simp only [trimParens, hlast, hdrop, if_true, List.head?_cons, List.tail_cons]

variable {parts : List Frag} {ts : List Tri}

/-- What is asked, or nothing when the list is empty. -/
def asked (f : List Tri → Tri) (ts : List Tri) : Option Tri := if ts = [] then none else some (f ts)

section

variable (h : List.Forall₂ (Reads v (levelOf b)) parts ts)

include h

/-- The arms of a message: with `AND` between them, a bare `OR` must stand alone. -/
theorem means_message (hb : ts.length ≤ 1 ∨ b = false) :
    Means v (levelOf (decide (ts.length = 1) && b)) (sepBy .kwAnd parts) (asked Tri.all ts) := by
  match parts, ts, h with
  | [], [], .nil => rfl
  | [_], [_], .cons hp .nil =>
    show Reads v (levelOf b) _ (Tri.and _ .true)
    rw [Tri.and_true]
    exact hp
  | _ :: _ :: _, _ :: _ :: _, .cons hp (.cons hq hqs) =>
    have hfalse : b = false := by
      rcases hb with hb | hb
      · simp at hb
      · exact hb
    subst hfalse
    exact Reads.sepBy_and (.cons hp (.cons hq hqs)) (by simp)

theorem forall₂_paren : List.Forall₂ (Reads v .unit) (parts.map paren) ts := by
  induction h with
  | nil => exact .nil
  | cons hp _ ih => exact .cons (Reads.paren (reads_levelOf (d := true) (fun _ => rfl) hp)) ih

/-- An `and` composite: the members keep their parentheses unless there is only one. -/
theorem means_conj :
    Means v (levelOf (decide (ts.length = 1) && b)) (joinComposite .kwAnd (parts.map paren))
      (asked Tri.all ts) := by
  match parts, ts, h with
  | [], [], .nil => rfl
  | [_], [_], .cons hp .nil =>
    show Reads v (levelOf b) (trimParens (paren _)) (Tri.and _ .true)
    rw [trimParens_paren, Tri.and_true]
    exact hp
  | _ :: _ :: _, _ :: _ :: _, .cons hp (.cons hq hqs) =>
    have hunits := forall₂_paren (.cons hp (.cons hq hqs))
    exact Reads.sepBy_and (hunits.imp fun _ _ => Reads.toAnd) (by simp)

/-- An `or` composite: with two members or more the disjunction is bare. -/
theorem means_disj :
    Means v (levelOf (decide (2 ≤ ts.length) || decide (ts.length = 1) && b))
      (joinComposite .kwOr (parts.map paren)) (asked Tri.any ts) := by
  match parts, ts, h with
  | [], [], .nil => rfl
  | [_], [_], .cons hp .nil =>
    show Reads v (levelOf b) (trimParens (paren _)) (Tri.or _ .false)
    rw [trimParens_paren, Tri.or_false]
    exact hp
  | _ :: _ :: _, t :: u :: us, .cons hp (.cons hq hqs) =>
    have hunits := forall₂_paren (.cons hp (.cons hq hqs))
    have hbare : (decide (2 ≤ (t :: u :: us).length) || decide ((t :: u :: us).length = 1) && b) = true := by
      simp
    rw [hbare]
    exact Reads.sepBy_or (hunits.imp fun _ _ h => Reads.toOr (Reads.toAnd h)) (by simp)

end

/-! ## The descent -/

theorem asked_isSome {g : List Tri → Tri} {ts : List Tri} : (asked g ts).isSome = decide (0 < ts.length) := by
  cases ts <;> rfl

variable (B row) (spec : FilterSpec)

/-- `x` was accepted and, if no bare `OR` got in the way, translated to what it asks for. -/
def Faithful (r : Option Tri) (s : Shape) (w : Walker) (out : Frag × Walker) : Prop :=
  r.isSome = s.asks ∧ (s.apart = true → Translates B row (levelOf s.bareOr) w out r)

variable {B row spec} {nested : Filter → Walker → Out}

theorem Translates.levelOf (hb : b = true → d = true) (h : Translates B row (levelOf b) w out r) :
    Translates B row (Query.levelOf d) w out r := h.mono (reads_levelOf hb)

/-- **A loop over faithfully translated elements**: how many fragments it keeps and, at a level that admits each of
    them, how they read. -/
theorem collect_faithful {f : α → Walker → Out} {parts : List Frag}
    (hf : ∀ x w out, f x w = .ok out → Faithful B row (read x) (shape x) w out) (h : collect f xs w = .ok (parts, w')) :
    Shape.count (xs.map shape) = ((xs.map read).filterMap id).length ∧
    ∀ b, (∀ x ∈ xs, (shape x).apart = true ∧ ((shape x).bareOr = true → b = true)) →
      ∃ new, w' = w.push new ∧ ∀ ps, Binds B ps w.nextPH new →
        List.Forall₂ (Reads (Pred.eval B.toDialect row ps) (levelOf b)) parts ((xs.map read).filterMap id) := by
  induction xs generalizing w parts w' with
  | nil =>
    cases h
    exact ⟨rfl, fun _ _ => ⟨[], by simp, fun _ _ => .nil⟩⟩
  | cons x xs ih =>
    obtain ⟨⟨frag, w₁⟩, hx, h⟩ := bind_ok h
    obtain ⟨⟨ps', w₂⟩, hxs, h⟩ := bind_ok h
    cases h
    obtain ⟨hasks, htr⟩ := hf x w _ hx
    obtain ⟨hcount, hrest⟩ := ih hxs
    refine ⟨?_, fun b hb => ?_⟩
    · unfold Shape.count at hcount ⊢
      rw [List.map_cons, List.map_cons, List.countP_cons, hcount, ← hasks]
      cases read x <;> rfl
    obtain ⟨hapart, hbare⟩ := hb x (by simp)
    obtain ⟨new₁, hw₁, hm₁⟩ := (htr hapart).levelOf hbare
    obtain ⟨new₂, hw₂, hm₂⟩ := hrest b fun y hy => hb y (by simp [hy])
    -- the arguments of the first element, then those of the rest
    subst hw₁ hw₂
    refine ⟨new₁ ++ new₂, w.push_push new₁ new₂, fun ps hps => ?_⟩
    obtain ⟨hps₁, hps₂⟩ := Binds.append_iff.mp hps
    have hfrag := hm₁ ps hps₁
    cases hr : read x with
    | none =>
      rw [hr] at hfrag
      have hnil : frag = [] := hfrag
      rw [List.map_cons, hr, List.filterMap_cons_none rfl, if_pos hnil]
      exact hm₂ ps hps₂
    | some t =>
      rw [hr] at hfrag
      have hne : frag ≠ [] := Reads.ne_nil hfrag
      rw [List.map_cons, hr, if_neg hne]
      exact .cons hfrag (hm₂ ps hps₂)

/-- What a loop collects, joined: with the shape `s` the joined text has the meaning that is asked for. -/
theorem faithful_of_collect {f : α → Walker → Out} {parts : List Frag} {join : List Tri → Tri} {s : Shape}
    (hf : ∀ x w out, f x w = .ok out → Faithful B row (read x) (shape x) w out) (h : collect f xs w = .ok (parts, w'))
    (hasks : s.asks = decide (0 < Shape.count (xs.map shape)))
    (hmeans : s.apart = true → (xs.map shape).all (·.apart) = true ∧ ∀ (v : Pred → Tri) ts,
      ts.length = Shape.count (xs.map shape) →
      List.Forall₂ (Reads v (levelOf ((xs.map shape).any (·.bareOr)))) parts ts →
      Means v (levelOf s.bareOr) frag (asked join ts)) :
    Faithful B row (asked join ((xs.map read).filterMap id)) s w (frag, w') := by
  obtain ⟨hcount, htr⟩ := collect_faithful hf h
  refine ⟨?_, fun hapart => ?_⟩
  · rw [asked_isSome, hasks, hcount]
  · obtain ⟨hall, hjoin⟩ := hmeans hapart
    obtain ⟨new, hw, hreads⟩ := htr ((xs.map shape).any (·.bareOr)) fun x hx =>
      ⟨List.all_eq_true.mp hall _ (List.mem_map_of_mem hx), fun hbare => List.any_eq_true.mpr ⟨_, List.mem_map_of_mem hx, hbare⟩⟩
    exact ⟨new, hw, fun ps hps => hjoin _ _ hcount.symm (hreads ps hps)⟩

/-- An arm that is a predicate is on a field of the spec. -/
theorem translateArm_pred {num : Nat} {field : FieldName} {p : PredMsg}
    (h : translateArm spec nested (.pred num field p) w = .ok out) :
    ∃ fs, spec.fields field.name = some fs ∧ translatePredicate w fs p = .ok out := by
  simp only [translateArm] at h
  split at h
  · cases h
  · rename_i fs hf
    exact ⟨fs, hf, mapError_ok h⟩

/-- **One arm of a message**, given that nested messages are translated faithfully. -/
theorem translateArm_faithful (hn : ∀ m w out, nested m w = .ok out →
      Faithful B row (m.reading B row spec) m.shape w out)
    {sf : SetField} (h : translateArm spec nested sf w = .ok out) :
    Faithful B row (sf.reading B row spec) sf.shape w out := by
  cases sf with
  | pred num field p =>
    rw [SetField.reading, SetField.shape]
    obtain ⟨fs, hf, hp⟩ := translateArm_pred h
    rw [hf]
    exact ⟨p.reading_isSome, fun _ => (translatePredicate_built hp).translates.mono Reads.toAnd⟩
  | and num ms =>
    rw [SetField.reading, SetField.shape, readingList_eq_map, shapeList_eq_map]
    obtain ⟨_, hparts, h⟩ := bind_ok h
    cases h
    refine faithful_of_collect hn hparts rfl fun hapart => ⟨hapart, fun v ts hlen hreads => ?_⟩
    have hm := means_conj hreads
    rwa [hlen] at hm
  | or num ms =>
    rw [SetField.reading, SetField.shape, readingList_eq_map, shapeList_eq_map]
    obtain ⟨_, hparts, h⟩ := bind_ok h
    cases h
    refine faithful_of_collect hn hparts rfl fun hapart => ⟨hapart, fun v ts hlen hreads => ?_⟩
    have hm := means_disj hreads
    rwa [hlen] at hm
  | not num m =>
    rw [SetField.reading, SetField.shape]
    obtain ⟨⟨inner, w'⟩, hm, h⟩ := bind_ok h
    cases h
    obtain ⟨hasks, htr⟩ := hn m w _ hm
    refine ⟨by rw [Option.isSome_map, hasks], fun hapart => ?_⟩
    -- inside the parentheses any level will do
    obtain ⟨new, hw, hmeans⟩ := (htr hapart).levelOf (d := true) fun _ => rfl
    refine ⟨new, hw, fun ps hps => ?_⟩
    have hinner := hmeans ps hps
    cases hr : m.reading B row spec with
    | none =>
      rw [hr] at hinner
      have hnil : inner = [] := hinner
      exact if_pos hnil
    | some t =>
      rw [hr] at hinner
      have hne : inner ≠ [] := Reads.ne_nil hinner
      show Reads _ .and (if inner = [] then [] else .kwNot :: paren inner) t.not
      rw [if_neg hne]
      exact (Reads.paren hinner).not.toAnd

theorem insertByNumber_perm (x : SetField) (s : List SetField) : (insertByNumber x s).Perm (x :: s) := by
  induction s with
  | nil => exact .refl _
  | cons y s ih =>
    unfold insertByNumber
    split
    · exact .refl _
    · exact (ih.cons y).trans (.swap x y s)

theorem sortByNumber_perm (s : List SetField) : (sortByNumber s).Perm s := by
  induction s using List.reverseRecOn with
  | nil => exact .refl _
  | append_singleton s x ih =>
    have hlast : sortByNumber (s ++ [x]) = insertByNumber x (sortByNumber s) := List.foldl_append
    rw [hlast]
    exact (insertByNumber_perm x _).trans ((ih.cons x).trans (List.perm_append_singleton x s).symm)

/-- What a message asks for does not depend on the order of its arms. -/
theorem allReading_perm {rs rs' : List (Option Tri)} (h : rs.Perm rs') : allReading rs = allReading rs' := by
  have hts := h.filterMap id
  unfold allReading
  by_cases hnil : rs.filterMap id = []
  · rw [if_pos hnil, if_pos (List.perm_nil.mp (hnil ▸ hts.symm))]
  · have hnil' : rs'.filterMap id ≠ [] := fun h' => hnil (List.perm_nil.mp (h' ▸ hts))
    rw [if_neg hnil, if_neg hnil', Tri.all_perm hts]

theorem Shape.message_perm {ss ss' : List Shape} (h : ss.Perm ss') : Shape.message ss = Shape.message ss' := by
  have hany : ss.any (·.bareOr) = ss'.any (·.bareOr) := by
    rw [Bool.eq_iff_iff, List.any_eq_true, List.any_eq_true]
    exact exists_congr fun s => and_congr_left' h.mem_iff
  have hall : ss.all (·.apart) = ss'.all (·.apart) := by
    rw [Bool.eq_iff_iff, List.all_eq_true, List.all_eq_true]
    exact forall_congr' fun s => imp_congr_left h.mem_iff
  have hcount : Shape.count ss = Shape.count ss' := h.countP_eq _
  unfold Shape.message
  rw [hcount, hany, hall]

/-- **The descent.** By induction on the levels left: the arms of a message are translated faithfully
    because the messages nested in them are. -/
theorem translateFilter_faithful (left : Nat) (m : Filter) (w : Walker) (out : Frag × Walker)
    (h : translateFilter spec left m w = .ok out) :
    Faithful B row (m.reading B row spec) m.shape w out := by
  induction left generalizing m w out with
  | zero => cases h
  | succ left ih =>
    obtain ⟨set⟩ := m
    obtain ⟨⟨parts, w'⟩, hparts, h⟩ := bind_ok h
    change collect _ (sortByNumber set) w = _ at hparts
    have harms : ∀ sf w out, translateArm spec (translateFilter spec left) sf w = .ok out →
        Faithful B row (SetField.reading B row spec sf) (SetField.shape sf) w out :=
      fun sf w out hok => translateArm_faithful ih hok
    cases h
    have hperm : (sortByNumber set).Perm set := sortByNumber_perm set
    rw [Filter.reading, readingSet_eq_map, Filter.shape, shapeSet_eq_map, ← Shape.message_perm (hperm.map _),
      ← allReading_perm (hperm.map _)]
    refine faithful_of_collect harms hparts rfl fun hapart => ?_
    obtain ⟨halone, hall⟩ := Bool.and_eq_true_iff.mp hapart
    refine ⟨hall, fun v ts hlen hreads => ?_⟩
    have hm := means_message hreads (by simpa [hlen] using halone)
    rwa [hlen] at hm

/-! ## `TranslateFilter` -/

variable {msg : Option Filter} {start : Nat} {extras : List Frag} {tr : Translation} {rs : List (Option Tri)}

/-- A part of the clause is read in parentheses of its own, and left out when it is empty. -/
theorem part_reads (h : Means v .or frag r) :
    List.Forall₂ (Reads v .unit) (if frag = [] then [] else [paren frag]) r.toList := by
  cases r with
  | none =>
    have hnil : frag = [] := h
    rw [if_pos hnil]
    exact .nil
  | some t =>
    rw [if_neg (Reads.ne_nil h)]
    exact .cons (Reads.paren h) .nil

theorem extraPredicates_read (h : List.Forall₂ (Means v .or) extras rs) :
    List.Forall₂ (Reads v .unit) ((extras.filter (· ≠ [])).map paren) (rs.filterMap id) := by
  induction h with
  | nil => exact .nil
  | @cons e r es rs he _ ih =>
    cases r with
    | none =>
      have hnil : e = [] := he
      simpa [hnil] using ih
    | some t =>
      have hne : e ≠ [] := Reads.ne_nil he
      rw [List.filter_cons_of_pos (by simpa using hne)]
      exact .cons (Reads.paren he) ih

/-- **The whole clause.** The user's filter and the extra predicates are conjoined, whatever the filter
    looks like inside: its own meaning is the only thing that a bare `OR` can change. -/
theorem TranslateFilter_reads {ps : Params V} {r : Option Tri}
    (huser : ∀ m w out, msg = some m → translateFilter spec (maxFilterDepth + 1) m w = .ok out →
      Translates B row .or w out r)
    (hnone : msg = none → r = none)
    (h : TranslateFilter spec msg start extras = .ok tr) (hps : Binds B ps start tr.args)
    (hex : List.Forall₂ (Means (Pred.eval B.toDialect row ps) .or) extras rs) :
    fragValue B.toDialect row ps tr.sql = some (Tri.all (r.toList ++ rs.filterMap id)) := by
  obtain ⟨⟨userPart, w⟩, huserPart, h⟩ := bind_ok h
  rw [← Except.ok.inj h] at hps ⊢
  have hmeans : Means (Pred.eval B.toDialect row ps) .or userPart r := by
    cases msg with
    | none =>
      rw [hnone rfl]
      exact (Prod.mk.inj (Except.ok.inj huserPart)).1.symm
    | some m =>
      obtain ⟨new, hw, hm⟩ := huser m _ _ rfl huserPart
      have hargs : w.args = new := by
        have hw' : w = _ := hw
        rw [hw']
        rfl
      exact hm ps (hargs ▸ hps)
  have hunits := List.rel_append (part_reads hmeans) (extraPredicates_read hex)
  exact fragValue_sepBy_and (hunits.imp fun _ _ => Reads.toAnd)

/-- **Translation preserves meaning** where no bare `OR` stands next to another arm: evaluated with SQL's
    precedence and the arguments bound from `placeholderStart` on, the fragment has on every row the truth
    value of the filter's own reading. -/
theorem TranslateFilter_preserves_meaning {m : Filter} {ps : Params V}
    (h : TranslateFilter spec (some m) start [] = .ok tr) (hapart : m.OrsApart)
    (hps : Binds B ps start tr.args) :
    fragValue B.toDialect row ps tr.sql = some (m.holds B row spec) := by
  have huser : ∀ m' w out, some m = some m' → translateFilter spec (maxFilterDepth + 1) m' w = .ok out →
      Translates B row .or w out (m.reading B row spec) := by
    rintro m' w out ⟨⟩ hok
    exact ((translateFilter_faithful _ m w out hok).2 hapart).levelOf (d := true) fun _ => rfl
  rw [TranslateFilter_reads huser (by simp) h hps .nil, Filter.holds]
  cases m.reading B row spec <;> simp

end Correct

/-! ## A concrete database -/

/-- A database whose values are the arguments themselves, with integers ordered and text folded by nothing. -/
def literalPg : Pg Arg where
  cmp _ o x y :=
    match o, x, y with
    | .eq, x, y => x == y
    | .ne, x, y => x != y
    | .lt, .i64 a, .i64 b => a < b
    | .le, .i64 a, .i64 b => a ≤ b
    | .gt, .i64 a, .i64 b => a > b
    | .ge, .i64 a, .i64 b => a ≥ b
    | _, _, _ => false
  numCmp o x y :=
    match o with
    | .eq => x == y
    | .ne => x != y
    | _ => false
  text
    | .str s => s.toList
    | _ => []
  lower := id
  lower_meta := isMeta_id
  lower_fix := id_fix
  bind := id
  text_str _ := rfl

/-- An entity with two text columns. -/
def ticketSpec : FilterSpec where
  entityID := "support.Ticket"
  tableName := "support_ticket"
  fields name :=
    if name = "status" ∨ name = "owner" then some ⟨name, .string, false⟩ else none

/-- `field = value`. -/
def fieldEq (num : Nat) (field : FieldName) (value : String) : SetField :=
  .pred num field (.string (some (.eq value)))

def statusField : FieldName := ⟨"status", by decide⟩
def ownerField : FieldName := ⟨"owner", by decide⟩

/-- Open tickets of either of two owners. -/
def openOfEither : Filter :=
  .mk [fieldEq 1 statusField "open",
    .or 101 [.mk [fieldEq 2 ownerField "ann"], .mk [fieldEq 2 ownerField "bob"]]]

/-- The same question, with the disjunction in a group of its own. -/
def openOfEitherGrouped : Filter :=
  .mk [.and 100 [.mk [fieldEq 1 statusField "open"],
    .mk [.or 101 [.mk [fieldEq 2 ownerField "ann"], .mk [fieldEq 2 ownerField "bob"]]]]]

/-- A closed ticket of the second owner. -/
def closedTicket : Row Arg := fun c =>
  if c = "status" then some (.str "closed") else if c = "owner" then some (.str "bob") else none

/-- The three arguments of either filter, from `$1` on. -/
def threeArgs : Params Arg := fun n =>
  match n with
  | 1 => some (.str "open")
  | 2 => some (.str "ann")
  | 3 => some (.str "bob")
  | _ => none

/-- Pasted next to another arm, an `or` escapes it: `status = $1 AND (owner = $2) OR (owner = $3)` keeps a
    closed ticket that the filter excludes. -/
theorem TranslateFilter_or_escapes :
    ∃ tr, TranslateFilter ticketSpec (some openOfEither) 1 [] = .ok tr ∧
      Binds literalPg threeArgs 1 tr.args ∧
      fragValue literalPg.toDialect closedTicket threeArgs tr.sql = some .true ∧
      openOfEither.holds literalPg closedTicket ticketSpec = .false := by
  refine ⟨⟨paren [.col "status", .op .eq, .param 1, .kwAnd, .lpar, .col "owner", .op .eq, .param 2, .rpar,
    .kwOr, .lpar, .col "owner", .op .eq, .param 3, .rpar], [.str "open", .str "ann", .str "bob"], 3⟩,
    by decide +kernel, ⟨rfl, rfl, rfl, trivial⟩, by decide +kernel, by decide +kernel⟩

/-- Grouped by hand, the same question is translated faithfully. -/
theorem TranslateFilter_preserves_meaning_grouped :
    ∃ tr, TranslateFilter ticketSpec (some openOfEitherGrouped) 1 [] = .ok tr ∧
      openOfEitherGrouped.OrsApart ∧
      fragValue literalPg.toDialect closedTicket threeArgs tr.sql
        = some (openOfEitherGrouped.holds literalPg closedTicket ticketSpec) := by
  have hok : TranslateFilter ticketSpec (some openOfEitherGrouped) 1 [] = .ok ⟨paren
      [.lpar, .col "status", .op .eq, .param 1, .rpar, .kwAnd, .lpar, .lpar, .col "owner", .op .eq, .param 2,
        .rpar, .kwOr, .lpar, .col "owner", .op .eq, .param 3, .rpar, .rpar],
      [.str "open", .str "ann", .str "bob"], 3⟩ := by decide +kernel
  have hapart : openOfEitherGrouped.OrsApart := by decide +kernel
  exact ⟨_, hok, hapart, TranslateFilter_preserves_meaning hok hapart ⟨rfl, rfl, rfl, trivial⟩⟩

end Atlantis.Query
