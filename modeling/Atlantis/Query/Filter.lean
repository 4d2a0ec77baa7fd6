import Atlantis.Sql.Eval

/-!
# `Query.Filter` — filter messages and what they ask for

The messages of `atlantis/common/v1/predicates.proto` and an entity's `XFilter`, as the translator sees them
through reflection: the fields that are set, each with its number. A predicate message holds at most one arm
of its `op` oneof.

The second half gives the messages their meaning, independently of any SQL text: a message asks for all of
its arms, `and` / `or` for all / some of their members, `not` for the contrary, and an arm that says nothing
(no operator set, an empty list, a null flag left false, a composite of such arms) asks for nothing —
`reading` is then `none`.
-/

namespace Atlantis.Query

open Sql

/-- A bind argument, by the Go type the translator hands to the driver. -/
inductive Arg where
  | str (s : String)
  | i32 (v : Int32)
  | i64 (v : Int64)
  | bool (b : Bool)
  | time (ns : Int)
  | bytes (b : List UInt8)
  deriving DecidableEq, Repr

/-- The database with its driver: how arguments become values. -/
structure Pg (V : Type) extends Dialect V where
  bind : Arg → V
  text_str : ∀ s, text (bind (.str s)) = s.toList

/-! ## Predicate messages -/

/-- The comparison arms shared by the ordered predicates. -/
inductive CmpArm where
  | eq | neq | lt | lte | gt | gte
  deriving DecidableEq, Repr

/-- `google.protobuf.Timestamp`. -/
structure Timestamp where
  seconds : Int64
  nanos : Int32
  deriving DecidableEq, Repr

/-- `StringPredicate.op`. -/
inductive StringOp where
  | eq (s : String)
  | neq (s : String)
  | in_ (values : List String)
  | notIn (values : List String)
  | startsWith (s : String)
  | endsWith (s : String)
  | contains (s : String)
  | ilike (s : String)
  | isNull (on : Bool)
  | isNotNull (on : Bool)
  deriving DecidableEq, Repr

/-- `Int32Predicate.op` and `Int64Predicate.op`. -/
inductive IntOp (α : Type) where
  | cmp (arm : CmpArm) (v : α)
  | in_ (values : List α)
  | notIn (values : List α)
  | between (lo hi : α)
  | isNull (on : Bool)
  | isNotNull (on : Bool)
  deriving DecidableEq, Repr

/-- `BoolPredicate.op`. -/
inductive BoolOp where
  | eq (b : Bool)
  | isNull (on : Bool)
  | isNotNull (on : Bool)
  deriving DecidableEq, Repr

/-- `TimestampPredicate.op`; the ends of a range may be left unset. -/
inductive TimestampOp where
  | cmp (arm : CmpArm) (v : Timestamp)
  | between (lo hi : Option Timestamp)
  | isNull (on : Bool)
  | isNotNull (on : Bool)
  deriving DecidableEq, Repr

/-- `BytesPredicate.op`. -/
inductive BytesOp where
  | eq (b : List UInt8)
  | neq (b : List UInt8)
  | in_ (values : List (List UInt8))
  | isNull (on : Bool)
  | isNotNull (on : Bool)
  deriving DecidableEq, Repr

/-- `NumericPredicate.op`. -/
inductive NumericOp where
  | cmp (arm : CmpArm) (s : String)
  | in_ (values : List String)
  | isNull (on : Bool)
  | isNotNull (on : Bool)
  deriving DecidableEq, Repr

/-- A predicate message; `none` is an unset oneof. -/
inductive PredMsg where
  | string (op : Option StringOp)
  | int32 (op : Option (IntOp Int32))
  | int64 (op : Option (IntOp Int64))
  | bool (op : Option BoolOp)
  | timestamp (op : Option TimestampOp)
  | bytes (op : Option BytesOp)
  | numeric (op : Option NumericOp)
  deriving DecidableEq, Repr

/-! ## Filter messages -/

/-- The name of a field predicate. The translator tells the composite arms by their names, so no field of a
    filter message carries one of these. -/
structure FieldName where
  name : String
  notComposite : name ≠ "and" ∧ name ≠ "or" ∧ name ≠ "not"
  deriving DecidableEq, Repr

mutual

/-- An `XFilter` message: its set fields, in the order reflection yields them. -/
inductive Filter where
  | mk (set : List SetField)

/-- A set field: its number with a field predicate or a composite arm. -/
inductive SetField where
  | pred (num : Nat) (field : FieldName) (p : PredMsg)
  | and (num : Nat) (ms : List Filter)
  | or (num : Nat) (ms : List Filter)
  | not (num : Nat) (m : Filter)

end

/-- The set fields of a message. -/
def Filter.set : Filter → List SetField
  | .mk s => s

/-- `fd.Number()`. -/
def SetField.num : SetField → Nat
  | .pred n _ _ => n
  | .and n _ => n
  | .or n _ => n
  | .not n _ => n

/-! ## The translator's tables -/

/-- `query.PredicateKind`. -/
inductive PredicateKind where
  | unknown | string | int32 | int64 | bool | timestamp | bytes | numeric
  deriving DecidableEq, Repr

/-- `query.FieldSpec`. -/
structure FieldSpec where
  column : String
  kind : PredicateKind
  hasTrigramIndex : Bool := false
  deriving DecidableEq, Repr

/-- `query.FilterSpec`. -/
structure FilterSpec where
  entityID : String
  tableName : String
  fields : String → Option FieldSpec

def maxFilterDepth : Nat := 10
def maxInListSize : Nat := 200
def maxStringLen : Nat := 1024

/-! ## What a message asks for -/

variable {V : Type} (B : Pg V) (row : Row V)

/-- The comparison an arm names. -/
def comparisonOp : CmpArm → CmpOp
  | .eq => .eq
  | .neq => .ne
  | .lt => .lt
  | .lte => .le
  | .gt => .gt
  | .gte => .ge

/-- The column compares to the argument as `o` says. -/
def cmpReading (o : CmpOp) (c : String) (a : Arg) : Tri := lift (row c) fun x => B.cmp c o x (B.bind a)

/-- The column equals one of the arguments. -/
def memReading (c : String) (as : List Arg) : Tri := Tri.any (as.map (cmpReading B row .eq c))

/-- A test of the column's text. -/
def textReading (c : String) (P : List Char → Bool) : Tri := lift (row c) fun x => P (B.text x)

/-- A list arm says nothing when its list is empty. -/
def listReading (t : List Arg → Tri) (as : List Arg) : Option Tri := if as = [] then none else some (t as)

/-- A null arm says nothing when its flag is false. -/
def nullReading (c : String) (on invert : Bool) : Option Tri :=
  if on then some (.ofBool (if invert then (row c).isSome else (row c).isNone)) else none

def StringOp.reading (c : String) : StringOp → Option Tri
  | .eq s => some (cmpReading B row .eq c (.str s))
  | .neq s => some (cmpReading B row .ne c (.str s))
  | .in_ vs => listReading (memReading B row c) (vs.map .str)
  | .notIn vs => listReading (fun as => (memReading B row c as).not) (vs.map .str)
  | .startsWith s => some (textReading B row c fun t => decide (s.toList <+: t))
  | .endsWith s => some (textReading B row c fun t => decide (s.toList <:+ t))
  | .contains s => some (textReading B row c fun t => decide (s.toList <:+: t))
  | .ilike s => some (textReading B row c fun t => decide (s.toList.map B.lower <:+: t.map B.lower))
  | .isNull on => nullReading row c on false
  | .isNotNull on => nullReading row c on true

def IntOp.reading {α : Type} (arg : α → Arg) (c : String) : IntOp α → Option Tri
  | .cmp arm v => some (cmpReading B row (comparisonOp arm) c (arg v))
  | .in_ vs => listReading (memReading B row c) (vs.map arg)
  | .notIn vs => listReading (fun as => (memReading B row c as).not) (vs.map arg)
  | .between lo hi => some ((cmpReading B row .ge c (arg lo)).and (cmpReading B row .le c (arg hi)))
  | .isNull on => nullReading row c on false
  | .isNotNull on => nullReading row c on true

def BoolOp.reading (c : String) : BoolOp → Option Tri
  | .eq b => some (cmpReading B row .eq c (.bool b))
  | .isNull on => nullReading row c on false
  | .isNotNull on => nullReading row c on true

/-- The instant a timestamp names, in nanoseconds since the epoch. -/
def Timestamp.instant (t : Timestamp) : Int := t.seconds.toInt * 1000000000 + t.nanos.toInt

def TimestampOp.reading (c : String) : TimestampOp → Option Tri
  | .cmp arm v => some (cmpReading B row (comparisonOp arm) c (.time v.instant))
  | .between (some lo) (some hi) =>
    some ((cmpReading B row .ge c (.time lo.instant)).and (cmpReading B row .le c (.time hi.instant)))
  | .between _ _ => none
  | .isNull on => nullReading row c on false
  | .isNotNull on => nullReading row c on true

def BytesOp.reading (c : String) : BytesOp → Option Tri
  | .eq b => some (cmpReading B row .eq c (.bytes b))
  | .neq b => some (cmpReading B row .ne c (.bytes b))
  | .in_ vs => listReading (memReading B row c) (vs.map .bytes)
  | .isNull on => nullReading row c on false
  | .isNotNull on => nullReading row c on true

/-- The column compares, as a number, to the decimal the argument spells. -/
def numReading (o : CmpOp) (c : String) (s : String) : Tri :=
  lift (row c) fun x => B.numCmp o x (B.bind (.str s))

def NumericOp.reading (c : String) : NumericOp → Option Tri
  | .cmp arm s => some (numReading B row (comparisonOp arm) c s)
  | .in_ vs => if vs = [] then none else some (Tri.any (vs.map (numReading B row .eq c)))
  | .isNull on => nullReading row c on false
  | .isNotNull on => nullReading row c on true

def PredMsg.reading (c : String) : PredMsg → Option Tri
  | .string op => op.bind (StringOp.reading B row c)
  | .int32 op => op.bind (IntOp.reading B row .i32 c)
  | .int64 op => op.bind (IntOp.reading B row .i64 c)
  | .bool op => op.bind (BoolOp.reading B row c)
  | .timestamp op => op.bind (TimestampOp.reading B row c)
  | .bytes op => op.bind (BytesOp.reading B row c)
  | .numeric op => op.bind (NumericOp.reading B row c)

/-- The conjunction of what is asked; `none` when nothing is. -/
def allReading (rs : List (Option Tri)) : Option Tri :=
  if rs.filterMap id = [] then none else some (Tri.all (rs.filterMap id))

/-- The disjunction of what is asked; `none` when nothing is. -/
def anyReading (rs : List (Option Tri)) : Option Tri :=
  if rs.filterMap id = [] then none else some (Tri.any (rs.filterMap id))

variable (spec : FilterSpec)

mutual

/-- A message asks for all of its arms. -/
def Filter.reading : Filter → Option Tri
  | .mk set => allReading (readingSet set)

/-- What one set field asks for; a field predicate is about the column its spec names. -/
def SetField.reading : SetField → Option Tri
  | .pred _ field p => (spec.fields field.name).bind fun fs => p.reading B row fs.column
  | .and _ ms => allReading (readingList ms)
  | .or _ ms => anyReading (readingList ms)
  | .not _ m => m.reading.map Tri.not

def readingSet : List SetField → List (Option Tri)
  | [] => []
  | sf :: rest => sf.reading :: readingSet rest

def readingList : List Filter → List (Option Tri)
  | [] => []
  | m :: rest => m.reading :: readingList rest

end

/-- **The filter's own reading** of a row: true when the message asks for nothing. -/
def Filter.holds (m : Filter) : Tri := (m.reading B row spec).getD .true

theorem readingSet_eq_map (set : List SetField) :
    readingSet B row spec set = set.map (SetField.reading B row spec) := by
  induction set with
  | nil => simp [readingSet]
  | cons sf rest ih => simp [readingSet, ih]

theorem readingList_eq_map (ms : List Filter) :
    readingList B row spec ms = ms.map (Filter.reading B row spec) := by
  induction ms with
  | nil => simp [readingList]
  | cons m rest ih => simp [readingList, ih]

end Atlantis.Query
