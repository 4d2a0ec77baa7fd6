import Mathlib.Algebra.Ring.Int.Defs
import Mathlib.Data.String.Basic

/-!
# `Sandbox.Value` — comparing the values of the simulator

The simulator stores the Go values that callers bind, whatever their dynamic type: an integer of any width, numerics as
text, slices as they come. `compareValues` has an arm for six types; any other pair, and any pair of two types, compares
as equal. So it orders a column by value for the kinds whose values are of one of these types and stand for themselves:
strings, booleans and timestamps. Where it has no arm the operators do not fail, they read `=`.
-/

namespace Atlantis.Sandbox

/-! ## Code -/

/-- `time.Time`: an instant, and the location it is told in. -/
structure Moment where
  instant : Int
  location : String
  deriving DecidableEq, Repr

/-- The integer types that callers bind. -/
inductive IntType where
  | int64
  | int
  | int32
  | uint
  | uint32
  | uint64
  deriving DecidableEq, Repr

/-- A Go value that is not `nil`, by its dynamic type; `anys` and `object` are what JSON is decoded to. -/
inductive Value where
  | int (type : IntType) (n : Int)
  | float64 (x : Float)
  | float32 (x : Float32)
  | string (s : String)
  | bool (b : Bool)
  | time (t : Moment)
  | bytes (l : List UInt8)
  | int64s (l : List Int)
  | strings (l : List String)
  | bools (l : List Bool)
  | float32s (l : List Float32)
  | float64s (l : List Float)
  | anys (l : List (Option Value))
  | object (m : List (String × Option Value))

/-- `ColKind`. -/
inductive ColKind where
  | int64
  | string
  | bool
  | time
  | bytes
  | numeric
  | vector
  | array
  deriving DecidableEq, Repr

/-- `compareValues`. -/
def compareValues : Value → Value → Ordering
  | .int .int64 a, .int .int64 b => compare a b
  | .float64 a, .float64 b => if a < b then .lt else if b < a then .gt else .eq
  | .float32 a, .float32 b => if a < b then .lt else if b < a then .gt else .eq
  | .string a, .string b => compare a b
  | .bool a, .bool b => compare a b
  | .time a, .time b => compare a.instant b.instant
  | _, _ => .eq

/-- `CmpOp`. -/
inductive CmpOp where
  | eq
  | lt
  | le
  | gt
  | ge
  | ne
  deriving DecidableEq, Repr

/-- `compareWithOp`. -/
def compareWithOp (a : Option Value) (op : CmpOp) (b : Option Value) : Bool :=
  match a, b with
  | some a, some b =>
    let c := compareValues a b
    match op with
    | .eq => c.isEq
    | .ne => c.isNe
    | .lt => c.isLT
    | .le => c.isLE
    | .gt => c.isGT
    | .ge => c.isGE
  | _, _ => false

/-! ## The values of a column -/

/-- The pairs that `compareValues` has an arm for. -/
def Comparable : Value → Value → Prop
  | .int .int64 _, .int .int64 _ | .float64 _, .float64 _ | .float32 _, .float32 _ | .string _, .string _
  | .bool _, .bool _ | .time _, .time _ => True
  | _, _ => False

/-- What a column of a kind stores: the Go types that the catalog names for it, integers in any width. -/
def ColKind.Stores : ColKind → Value → Prop
  | .int64, .int _ _ | .string, .string _ | .bool, .bool _ | .time, .time _ | .bytes, .bytes _ | .numeric, .string _
  | .vector, .float32s _ | .array, .int64s _ | .array, .strings _ | .array, .bools _ | .array, .anys _ => True
  | _, _ => False

/-- A number in decimal notation: `mantissa / 10 ^ scale`. -/
structure Decimal where
  mantissa : Int
  scale : Nat
  deriving DecidableEq

def Decimal.compare (a b : Decimal) : Ordering :=
  Ord.compare (a.mantissa * 10 ^ b.scale) (b.mantissa * 10 ^ a.scale)

def digitsOf (l : List Char) : Option Nat :=
  if l ≠ [] ∧ l.all Char.isDigit then some (l.foldl (fun n c => 10 * n + (c.toNat - '0'.toNat)) 0) else none

def unsignedDecimal (l : List Char) : Option Decimal :=
  match l.span (· ≠ '.') with
  | (whole, []) => (digitsOf whole).map fun n => ⟨n, 0⟩
  | (whole, _ :: fraction) => (digitsOf (whole ++ fraction)).map fun n => ⟨n, fraction.length⟩

/-- The number that a text of a numeric column stands for. -/
def decimal (s : String) : Option Decimal :=
  match s.toList with
  | '-' :: l => (unsignedDecimal l).map fun d => ⟨-d.mantissa, d.scale⟩
  | l => unsignedDecimal l

/-- Equality of the values that a column of a kind holds: integers of two widths by number, timestamps by instant,
    numerics by number. -/
def ColKind.Same : ColKind → Value → Value → Prop
  | .numeric, .string s, .string t =>
    match decimal s, decimal t with
    | some x, some y => x.compare y = .eq
    | _, _ => s = t
  | _, .int _ m, .int _ n => m = n
  | _, .time s, .time t => s.instant = t.instant
  | _, a, b => a = b

/-- **`compareValues` orders the values of a kind**: a total order, zero for equal values only, and numerics by number. -/
structure Ordered (k : ColKind) : Prop where
  eq_iff : ∀ {a b}, k.Stores a → k.Stores b → (compareValues a b = .eq ↔ k.Same a b)
  swap : ∀ {a b}, k.Stores a → k.Stores b → compareValues b a = (compareValues a b).swap
  trans : ∀ {a b c}, k.Stores a → k.Stores b → k.Stores c → compareValues a b = .lt → compareValues b c = .lt →
    compareValues a c = .lt
  numeric : k = .numeric → ∀ {s t x y}, decimal s = some x → decimal t = some y →
    compareValues (.string s) (.string t) = x.compare y

/-- A kind whose values are compared as the elements of a linear order that they stand for. -/
theorem Ordered.of_linear {α : Type} [LinearOrder α] {k : ColKind} (rep : Value → α) (hk : k ≠ .numeric)
    (hcompare : ∀ {a b}, k.Stores a → k.Stores b →
      compareValues a b = compare (rep a) (rep b) ∧ (k.Same a b ↔ rep a = rep b)) : Ordered k := by
  refine ⟨fun ha hb => ?_, fun ha hb => ?_, fun ha hb hc hab hbc => ?_, fun h => absurd h hk⟩
  · rw [(hcompare ha hb).1, (hcompare ha hb).2, compare_eq_iff_eq]
  · rw [(hcompare ha hb).1, (hcompare hb ha).1]
    exact Std.OrientedCmp.eq_swap
  · rw [(hcompare ha hb).1, compare_lt_iff_lt] at hab
    rw [(hcompare hb hc).1, compare_lt_iff_lt] at hbc
    rw [(hcompare ha hc).1, compare_lt_iff_lt]
    exact lt_trans hab hbc

theorem ordered_string : Ordered .string := by
  refine .of_linear (fun | .string s => s | _ => "") (by decide) fun {a b} ha hb => ?_
  cases a <;> try exact ha.elim
  cases b <;> try exact hb.elim
  exact ⟨rfl, by simp [ColKind.Same]⟩

theorem ordered_bool : Ordered .bool := by
  refine .of_linear (fun | .bool b => b | _ => false) (by decide) fun {a b} ha hb => ?_
  cases a <;> try exact ha.elim
  cases b <;> try exact hb.elim
  exact ⟨rfl, by simp [ColKind.Same]⟩

theorem ordered_time : Ordered .time := by
  refine .of_linear (fun | .time t => t.instant | _ => 0) (by decide) fun {a b} ha hb => ?_
  cases a <;> try exact ha.elim
  cases b <;> try exact hb.elim
  exact ⟨rfl, Iff.rfl⟩

end Atlantis.Sandbox
