import Atlantis.Lib.Netstring
import Atlantis.Proto.Runtime

/-!
# `Server.CacheId` — the id of a row in the cache

A write enqueues an invalidation under a string that stands for the row: `runtime.CompositeID` of the row's key. The
key comes from three places. `handleCreate` scans it from `RETURNING`, `handleUpdate` binds it from the entity message
(`bindPKValue`), `handleDelete` from the fields of the request (`goValueFromProtoReflect`), and each prints what it has.

The composition loses nothing (`compositeID_inj`): ids are equal exactly if the printed columns are. So the id belongs
to the row if each key column is spelled once, that is, if what the three places print for it is equal exactly when
Postgres takes it for the same value (`oneRowOneID_of_spelledOnce`). Plain text, integers, booleans and bytes are. A type
whose equality is coarser than its text is not: a `citext` key is looked up in any letter case and printed in the one that
was sent (`citext_key_two_ids`). Two updates that spell such a column in two ways have two ids, whatever the other columns
are (`OneRowOneID.respelling_none`).
-/

namespace Atlantis.Server

open Lib Schema

/-! ## Printing a key -/

/-- A key field of a message, as `protoreflect` reads it. Of a list only what it prints as matters. The float that the
    delete request of a vector key has stands for no vector, and is left out. -/
inductive KeyMsg where
  | string (s : Bytes)
  | int (n : Int)
  | bool (b : Bool)
  | timestamp (sub : Option (Int × Int))
  | bytes (b : Bytes)
  | list (printed : Bytes)
  deriving DecidableEq, Repr

/-- A Go value of type `any`. -/
inductive GoVal where
  | string (s : Bytes)
  | int64 (n : Int)
  | int32 (n : Int)
  | bool (b : Bool)
  | time (sec nanos : Int)
  | bytes (b : Bytes)
  | list (printed : Bytes)
  deriving DecidableEq, Repr

/-- `int32(n)` and `int64(n)`. -/
def toInt32 (n : Int) : Int := n.bmod (1 <<< 32)
def toInt64 (n : Int) : Int := n.bmod (1 <<< 64)

namespace KeyMsg

/-- The field of the message has the type. -/
def ofType : Proto.WireType × Bool → KeyMsg → Bool
  | (_, true), .list _ | (.string, false), .string _ | (.int32, false), .int _ | (.int64, false), .int _
  | (.bool, false), .bool _ | (.timestamp, false), .timestamp _ | (.bytes, false), .bytes _ => true
  | _, _ => false

/-- `Value.String()`, on the kinds the fields of text columns have: the string, or a list as it prints. -/
def asString : KeyMsg → Option GoVal
  | .string s => some (.string s)
  | .list printed => some (.string printed)
  | _ => none

/-- `Value.Int()`, which panics on other kinds. -/
def asInt : KeyMsg → Option Int
  | .int n => some n
  | _ => none

/-- `Value.Bool()`, which panics on other kinds. -/
def asBool : KeyMsg → Option GoVal
  | .bool b => some (.bool b)
  | _ => none

/-- `Value.Message()`, on a timestamp. -/
def asMessage : KeyMsg → Option (Option (Int × Int))
  | .timestamp sub => some sub
  | _ => none

/-- `Value.Bytes()`, which panics on other kinds. -/
def asBytes : KeyMsg → Option GoVal
  | .bytes b => some (.bytes b)
  | _ => none

/-- `Value.Interface()`. Only `timestamptz` and `date` columns have timestamps, and none of these come here. -/
def asInterface : KeyMsg → Option GoVal
  | .string s => some (.string s)
  | .int n => some (.int64 n)
  | .bool b => some (.bool b)
  | .timestamp _ => none
  | .bytes b => some (.bytes b)
  | .list printed => some (.list printed)

end KeyMsg

/-- `timestampToTime`: the zero time, if there is no timestamp. `time.Unix` carries what is not within a second. -/
def timestampToTime : Option (Int × Int) → GoVal
  | none => .time (-62135596800) 0
  | some (sec, nanos) => .time (sec + toInt32 nanos / 1000000000) (toInt32 nanos % 1000000000)

/-- `bindPKValue`; none where reading the field panics. -/
def bindPKValue (t : FieldType) (m : KeyMsg) : Option GoVal :=
  match t.name with
  | "text" | "varchar" | "citext" | "uuid" | "numeric" => m.asString
  | "bigint" => m.asInt.map .int64
  | "int" | "smallint" => m.asInt.map fun n => .int32 (toInt32 n)
  | "boolean" => m.asBool
  | "timestamptz" | "date" => m.asMessage.map timestampToTime
  | _ => m.asInterface

/-- `goValueFromProtoReflect`. A timestamp becomes the numeral of the sum of its two numbers. -/
def goValueFromProto (t : FieldType) (m : KeyMsg) : Option GoVal :=
  match t.name with
  | "text" | "varchar" | "citext" | "uuid" | "numeric" | "interval" => m.asString
  | "bigint" => m.asInt.map .int64
  | "int" | "smallint" => m.asInt.map fun n => .int32 (toInt32 n)
  | "boolean" => m.asBool
  | "timestamptz" | "date" =>
    m.asMessage.map fun sub =>
      let (sec, nanos) := sub.getD (0, 0)
      .string (signedDecimal (toInt64 (sec + toInt32 nanos)))
  | "bytea" | "jsonb" => m.asBytes
  | _ => m.asInterface

/-- The scan targets of `makePKScanTargets`. -/
inductive ScanTarget where
  | string | int64 | int32
  deriving DecidableEq, Repr

def makePKScanTarget (t : FieldType) : ScanTarget :=
  match t.name with
  | "bigint" => .int64
  | "int" | "smallint" => .int32
  | _ => .string

/-- `runtime.CompositeID` of what its parts print as; `EncodeKeyArg` is `netstring`. -/
def CompositeID : List Bytes → Bytes
  | [] => []
  | p :: ps => netstring p ++ ps.flatMap fun q => 124 :: netstring q

/-- What the code takes from Postgres and its driver: what a bound argument stands for in a comparison with a column,
    when two values of a column are equal, what a value scans as, and how a time prints. -/
structure KeyDriver (V : Type) where
  resolve : FieldType → GoVal → Option V
  same : FieldType → V → V → Prop
  scanText : FieldType → V → Option Bytes
  scanInt : FieldType → V → Option Int
  formatTime : Int → Int → Bytes

variable {V : Type} (D : KeyDriver V)

/-- `sprintCanonical`. -/
def KeyDriver.sprintCanonical : GoVal → Bytes
  | .string s => s
  | .bytes b => b
  | .time seconds nanos => D.formatTime seconds nanos
  | .int64 n | .int32 n => signedDecimal n
  | .bool b => if b then [116, 114, 117, 101] else [102, 97, 108, 115, 101]
  | .list printed => printed

/-- A scanned key column: `readPKScanTargets`. -/
def KeyDriver.scan (t : FieldType) (v : V) : Option GoVal :=
  match makePKScanTarget t with
  | .string => (D.scanText t v).map .string
  | .int64 => (D.scanInt t v).map .int64
  | .int32 => (D.scanInt t v).map .int32

/-- The handlers that enqueue an invalidation. -/
inductive WriteHandler where
  | create | update | delete
  deriving DecidableEq, Repr

/-- **A handler has a key column**: the value it stands for, and what is printed for it. In the request of a delete the
    field is a singular one, also for an array. -/
inductive KeySource (t : FieldType) : WriteHandler → V → Bytes → Prop where
  | create (v : V) (x : GoVal) : D.scan t v = some x → KeySource t .create v (D.sprintCanonical x)
  | update (m : KeyMsg) (x : GoVal) (v : V) : m.ofType (Proto.applyProtoFieldType t) = true → bindPKValue t m = some x →
      D.resolve t x = some v → KeySource t .update v (D.sprintCanonical x)
  | delete (m : KeyMsg) (x : GoVal) (v : V) : m.ofType (Proto.setProtoType t, false) = true → goValueFromProto t m = some x →
      D.resolve t x = some v → KeySource t .delete v (D.sprintCanonical x)

/-- A write of an entity with these key columns: the key it stands for, and what is printed for each column. -/
inductive WriteKey (h : WriteHandler) : List FieldType → List V → List Bytes → Prop where
  | nil : WriteKey h [] [] []
  | cons {t : FieldType} {ts : List FieldType} {v : V} {vs : List V} {p : Bytes} {ps : List Bytes} :
      KeySource D t h v p → WriteKey h ts vs ps → WriteKey h (t :: ts) (v :: vs) (p :: ps)

/-- Postgres takes the two keys for the same row. -/
def KeyDriver.SameRow : List FieldType → List V → List V → Prop
  | [], [], [] => True
  | t :: ts, v :: vs, w :: ws => D.same t v w ∧ KeyDriver.SameRow ts vs ws
  | _, _, _ => False

/-- **One row, one cache id**: two writes enqueue equal ids exactly if they are of the same row. -/
def OneRowOneID (ts : List FieldType) : Prop :=
  ∀ h h' vs vs' ps ps', WriteKey D h ts vs ps → WriteKey D h' ts vs' ps' →
    (D.SameRow ts vs vs' ↔ CompositeID ps = CompositeID ps')

/-- The column is spelled once: what is printed for it is equal exactly if Postgres takes it for equal. -/
def KeyDriver.SpelledOnce (t : FieldType) : Prop :=
  ∀ h h' v v' p p', KeySource D t h v p → KeySource D t h' v' p' → (D.same t v v' ↔ p = p')

/-- An update can name some value of the column. -/
def KeyDriver.Nameable (t : FieldType) : Prop := ∃ v p, KeySource D t .update v p

/-! ## Composition -/

/-- **Ids are equal exactly if the printed columns are.** -/
theorem compositeID_inj {ps ps' : List Bytes} (hlen : ps.length = ps'.length) (h : CompositeID ps = CompositeID ps') :
    ps = ps' := by
  have hbar : PrefixFree fun q : Bytes => 124 :: netstring q := by
    intro x y r r' heq
    exact netstring_prefixFree x y r r' (List.cons.inj heq).2
  cases ps with
  | nil => exact (List.length_eq_zero_iff.mp hlen.symm).symm
  | cons p ps =>
    cases ps' with
    | nil => cases hlen
    | cons p' ps' =>
      obtain ⟨rfl, hrest⟩ := netstring_prefixFree p p' _ _ h
      have hrest' : (ps.flatMap fun q => 124 :: netstring q) ++ [] = (ps'.flatMap fun q => 124 :: netstring q) ++ [] := by
        rw [List.append_nil, List.append_nil]
        exact hrest
      rw [(hbar.flatMap (Nat.succ.inj hlen) hrest').1]

variable {D} {h h' : WriteHandler} {ts : List FieldType} {vs vs' : List V} {ps ps' : List Bytes}

theorem WriteKey.length (hk : WriteKey D h ts vs ps) : ps.length = ts.length := by
  induction hk with
  | nil => rfl
  | cons _ _ ih => exact congrArg Nat.succ ih

theorem compositeID_eq_iff (hk : WriteKey D h ts vs ps) (hk' : WriteKey D h' ts vs' ps') :
    CompositeID ps = CompositeID ps' ↔ ps = ps' :=
  ⟨compositeID_inj (hk.length.trans hk'.length.symm), congrArg CompositeID⟩

/-- Column by column. -/
theorem sameRow_iff (hts : ∀ t ∈ ts, D.SpelledOnce t) (hk : WriteKey D h ts vs ps) (hk' : WriteKey D h' ts vs' ps') :
    D.SameRow ts vs vs' ↔ ps = ps' := by
  induction hk generalizing vs' ps' with
  | nil =>
    cases hk' with
    | nil => exact ⟨fun _ => rfl, fun _ => trivial⟩
  | cons hsource hrest ih =>
    cases hk' with
    | cons hsource' hrest' =>
      have hhead := hts _ List.mem_cons_self _ _ _ _ _ _ hsource hsource'
      have htail := ih (fun t ht => hts t (List.mem_cons_of_mem _ ht)) hrest'
      unfold KeyDriver.SameRow
      rw [hhead, htail, List.cons.injEq]

/-- A key with a choice for each type of column, and another one for the columns of one type. -/
theorem writeKey_update {f : FieldType → V} {g : FieldType → Bytes} (hts : ∀ u ∈ ts, KeySource D u h (f u) (g u))
    {t : FieldType} {v : V} {p : Bytes} (hsource : KeySource D t h v p) :
    WriteKey D h ts (ts.map (Function.update f t v)) (ts.map (Function.update g t p)) := by
  induction ts with
  | nil => exact .nil
  | cons u ts ih =>
    obtain ⟨hu, hrest⟩ := List.forall_mem_cons.mp hts
    refine .cons ?_ (ih hrest)
    by_cases hut : u = t
    · simpa [hut] using hsource
    · simpa [hut] using hu

theorem sameRow_map {f f' : FieldType → V} : D.SameRow ts (ts.map f) (ts.map f') ↔ ∀ t ∈ ts, D.same t (f t) (f' t) := by
  induction ts with
  | nil => simp [KeyDriver.SameRow]
  | cons t ts ih => simp [KeyDriver.SameRow, ih]

/-- The id belongs to the row if every key column is spelled once. -/
theorem oneRowOneID_of_spelledOnce {V : Type} {D : KeyDriver V} {ts : List FieldType}
    (hts : ∀ t ∈ ts, D.SpelledOnce t) : OneRowOneID D ts := by
  intro h h' vs vs' ps ps' hk hk'
  rw [compositeID_eq_iff hk hk']
  exact sameRow_iff hts hk hk'

/-! ## What Postgres takes for equal -/

/-- Text that is compared as it is. -/
def textKey (t : FieldType) : Prop := t.isArray = false ∧ (t.name = "text" ∨ t.name = "varchar")

/-- Values that are compared as they are, and that the driver does not scan into a string. -/
def wholeKey (t : FieldType) : Prop := t.isArray = false ∧ (t.name = "boolean" ∨ t.name = "bytea")

def intKey (t : FieldType) : Prop := t.isArray = false ∧ (t.name = "bigint" ∨ t.name = "int" ∨ t.name = "smallint")

/-- Two arguments that Postgres takes for one value of a column. -/
def respelling (t : FieldType) : Option (GoVal × GoVal) :=
  if t.isArray then none
  else match t.name with
    | "citext" => some (.string [65], .string [97])
    | "uuid" => some (.string (List.replicate 32 65), .string (List.replicate 32 97))
    | "numeric" => some (.string [49], .string [49, 46, 48])
    | "timestamptz" => some (.time 0 0, .time 0 1)
    | "date" => some (.time 0 0, .time 1 0)
    -- `1` and ` 1`
    | "jsonb" => some (.bytes [49], .bytes [32, 49])
    -- `1d` and `24h`
    | "interval" => some (.string [49, 100], .string [50, 52, 104])
    | _ => none

instance decidableTextKey (t : FieldType) : Decidable (textKey t) :=
  inferInstanceAs (Decidable (_ ∧ (_ ∨ _)))

instance decidableWholeKey (t : FieldType) : Decidable (wholeKey t) :=
  inferInstanceAs (Decidable (_ ∧ (_ ∨ _)))

instance decidableIntKey (t : FieldType) : Decidable (intKey t) :=
  inferInstanceAs (Decidable (_ ∧ (_ ∨ _ ∨ _)))

/-- What is assumed of Postgres and its driver. Text, integers, booleans and bytes are bound and compared as what they are
    (`text` of a boolean is `true` or `false`), and text and integers are scanned so; there is no plan to scan a boolean or
    bytes into a string. `citext` and `uuid` are looked up in any letter case, `numeric` without its trailing zeros, `jsonb`
    without spaces, an `interval` by its length; a `timestamptz` has microseconds and a `date` has days. A list, printed or
    not, is no argument for an array or a vector. -/
structure KeyDriver.Postgres {V : Type} (D : KeyDriver V) (text : V → Bytes) (num : V → Int) : Prop where
  same_refl : ∀ t v, D.same t v v
  sameText : ∀ t v w, textKey t ∨ wholeKey t → (D.same t v w ↔ text v = text w)
  resolveText : ∀ t s v, textKey t → D.resolve t (.string s) = some v → text v = s
  resolveBool : ∀ t b v, wholeKey t → D.resolve t (.bool b) = some v → text v = D.sprintCanonical (.bool b)
  resolveBytes : ∀ t b v, wholeKey t → D.resolve t (.bytes b) = some v → text v = b
  scanText : ∀ t v s, textKey t → D.scanText t v = some s → text v = s
  scanWhole : ∀ t v, wholeKey t → D.scanText t v = none
  sameInt : ∀ t v w, intKey t → (D.same t v w ↔ num v = num w)
  resolveInt64 : ∀ t n v, intKey t → D.resolve t (.int64 n) = some v → num v = n
  resolveInt32 : ∀ t n v, intKey t → D.resolve t (.int32 n) = some v → num v = n
  scanInt : ∀ t v n, intKey t → D.scanInt t v = some n → num v = n
  resolveList : ∀ t printed x, (Proto.applyProtoFieldType t).2 = true → bindPKValue t (.list printed) = some x →
    D.resolve t x = none
  respells : ∀ t x x', respelling t = some (x, x') →
    ∃ v v', D.resolve t x = some v ∧ D.resolve t x' = some v' ∧ D.same t v v'
  formatTime_inj : ∀ sec nanos sec' nanos', D.formatTime sec nanos = D.formatTime sec' nanos' →
    sec = sec' ∧ nanos = nanos'

section

variable {text : V → Bytes} {num : V → Int} {t : FieldType} {v : V} {p : Bytes}

/-- Integers are bound alike from the entity and from the request. -/
theorem goValueFromProto_eq (ht : intKey t) (m : KeyMsg) : goValueFromProto t m = bindPKValue t m := by
  unfold goValueFromProto bindPKValue
  rcases ht.2 with ht | ht | ht <;> rw [ht] <;> rfl

variable (hD : D.Postgres text num)

include hD

/-- An integer column prints as its number, in either width. -/
theorem KeyDriver.Postgres.printed_int (ht : intKey t) (hsource : KeySource D t h v p) : p = signedDecimal (num v) := by
  have hbound : ∀ m x v, bindPKValue t m = some x → D.resolve t x = some v →
      D.sprintCanonical x = signedDecimal (num v) := by
    intro m x v hbind hresolve
    have hnum : ∃ n, x = .int64 n ∨ x = .int32 n := by
      unfold bindPKValue at hbind
      rcases ht.2 with ht | ht | ht <;> rw [ht] at hbind <;>
        obtain ⟨n, hn, rfl⟩ := Option.map_eq_some_iff.mp hbind <;> simp
    obtain ⟨n, rfl | rfl⟩ := hnum
    · rw [hD.resolveInt64 t n v ht hresolve]
      rfl
    · rw [hD.resolveInt32 t n v ht hresolve]
      rfl
  cases hsource with
  | create v x hscan =>
    have hnum : ∃ n, D.scanInt t v = some n ∧ D.sprintCanonical x = signedDecimal n := by
      unfold KeyDriver.scan makePKScanTarget at hscan
      rcases ht.2 with ht | ht | ht <;> rw [ht] at hscan <;>
        obtain ⟨n, hn, rfl⟩ := Option.map_eq_some_iff.mp hscan <;> exact ⟨n, hn, rfl⟩
    obtain ⟨n, hn, hprint⟩ := hnum
    rw [hprint, hD.scanInt t v n ht hn]
  | update m x v _ hbind hresolve => exact hbound m x v hbind hresolve
  | delete m x v _ hbind hresolve => exact hbound m x v (goValueFromProto_eq ht m ▸ hbind) hresolve

/-- Text, a boolean and bytes print as what they are, whoever has them; no create has a boolean or bytes. -/
theorem KeyDriver.Postgres.printed_text (ht : textKey t ∨ wholeKey t) (hsource : KeySource D t h v p) : p = text v := by
  have hname : t.name = "text" ∨ t.name = "varchar" ∨ t.name = "boolean" ∨ t.name = "bytea" :=
    ht.elim (fun ht => ht.2.imp id .inl) fun ht => .inr (.inr ht.2)
  have hbound : ∀ m x, m.ofType (Proto.setProtoType t, false) = true → (bindPKValue t m = some x ∨
      goValueFromProto t m = some x) → D.resolve t x = some v → D.sprintCanonical x = text v := by
    intro m x hm hx hresolve
    unfold Proto.setProtoType at hm
    unfold bindPKValue goValueFromProto at hx
    rcases ht with ht | ht <;> rcases ht.2 with hname | hname <;> rw [hname] at hm hx <;> cases m <;> cases hm <;>
      rcases hx with hx | hx <;> cases hx
    all_goals first
      | exact (hD.resolveText t _ v ht hresolve).symm
      | exact (hD.resolveBool t _ v ht hresolve).symm
      | exact (hD.resolveBytes t _ v ht hresolve).symm
  cases hsource with
  | create v x hscan =>
    have hstring : D.scan t v = (D.scanText t v).map .string := by
      unfold KeyDriver.scan makePKScanTarget
      rcases hname with hname | hname | hname | hname <;> rw [hname] <;> rfl
    rw [hstring] at hscan
    obtain ⟨s, hs, rfl⟩ := Option.map_eq_some_iff.mp hscan
    rcases ht with ht | ht
    · exact (hD.scanText t v s ht hs).symm
    · cases (hD.scanWhole t v ht).symm.trans hs
  | update m x v hm hbind hresolve =>
    have hsingle : Proto.applyProtoFieldType t = (Proto.setProtoType t, false) := by
      cases t with
      | array elem => rcases ht with ht | ht <;> cases ht.1
      | scalar name =>
        refine if_neg ?_
        rintro rfl
        simp [FieldType.name] at hname
    exact hbound m x (hsingle ▸ hm) (.inl hbind) hresolve
  | delete m x v hm hbind hresolve => exact hbound m x hm (.inr hbind) hresolve

/-- Columns for which equal keys print alike. -/
def ExactKey (t : FieldType) : Prop := textKey t ∨ wholeKey t ∨ intKey t

instance (t : FieldType) : Decidable (ExactKey t) := inferInstanceAs (Decidable (_ ∨ _ ∨ _))

/-- **Text, boolean, byte and integer columns are spelled once.** -/
theorem KeyDriver.Postgres.spelledOnce (ht : ExactKey t) : D.SpelledOnce t := by
  intro h h' v v' p p' hsource hsource'
  rcases ht with ht | ht | ht
  · rw [hD.printed_text (.inl ht) hsource, hD.printed_text (.inl ht) hsource']
    exact hD.sameText t v v' (.inl ht)
  · rw [hD.printed_text (.inr ht) hsource, hD.printed_text (.inr ht) hsource']
    exact hD.sameText t v v' (.inr ht)
  · rw [hD.printed_int ht hsource, hD.printed_int ht hsource', hD.sameInt t v v' ht]
    exact ⟨congrArg signedDecimal, signedDecimal_inj⟩

/-- An update can be sent either of two arguments for one value, and they print apart. -/
theorem KeyDriver.Postgres.exists_respelling {x x' : GoVal} (hx : respelling t = some (x, x')) :
    ∃ v v' p p', KeySource D t .update v p ∧ KeySource D t .update v' p' ∧ D.same t v v' ∧ p ≠ p' := by
  obtain ⟨v, v', hv, hv', hsame⟩ := hD.respells t x x' hx
  have hsent : ∃ m m', (m.ofType (Proto.applyProtoFieldType t) = true ∧ bindPKValue t m = some x) ∧
      (m'.ofType (Proto.applyProtoFieldType t) = true ∧ bindPKValue t m' = some x') ∧
      D.sprintCanonical x ≠ D.sprintCanonical x' := by
    have htime : ∀ sec nanos, (sec, nanos) ≠ ((0, 0) : Int × Int) →
        D.sprintCanonical (.time 0 0) ≠ D.sprintCanonical (.time sec nanos) := by
      intro sec nanos hne heq
      obtain ⟨rfl, rfl⟩ := hD.formatTime_inj 0 0 sec nanos heq
      exact hne rfl
    have hplain : ∀ b b' : Bytes, b ≠ b' → D.sprintCanonical (.string b) ≠ D.sprintCanonical (.string b') :=
      fun _ _ hne => hne
    cases t with
    | array elem => cases hx
    | scalar name =>
      simp only [respelling, FieldType.isArray, FieldType.name, Bool.false_eq_true, if_false] at hx
      split at hx <;> cases hx
      case h_1 | h_2 | h_3 | h_7 => exact ⟨.string _, .string _, ⟨rfl, rfl⟩, ⟨rfl, rfl⟩, hplain _ _ (by decide)⟩
      case h_4 =>
        exact ⟨.timestamp (some (0, 0)), .timestamp (some (0, 1)), ⟨rfl, rfl⟩, ⟨rfl, rfl⟩, htime 0 1 (by decide)⟩
      case h_5 =>
        exact ⟨.timestamp (some (0, 0)), .timestamp (some (1, 0)), ⟨rfl, rfl⟩, ⟨rfl, rfl⟩, htime 1 0 (by decide)⟩
      case h_6 => exact ⟨.bytes _, .bytes _, ⟨rfl, rfl⟩, ⟨rfl, rfl⟩, hplain _ _ (by decide)⟩
  obtain ⟨m, m', ⟨hm, hbind⟩, ⟨hm', hbind'⟩, hprint⟩ := hsent
  exact ⟨v, v', _, _, .update m x v hm hbind hv, .update m' x' v' hm' hbind' hv', hsame, hprint⟩

/-- **A column that can be spelled in two ways gives a row two ids**, where an update can name the other columns. -/
theorem OneRowOneID.respelling_none (hone : OneRowOneID D ts) (hnamed : ∀ u ∈ ts, D.Nameable u) (ht : t ∈ ts) :
    respelling t = none := by
  by_contra hsome
  obtain ⟨⟨x, x'⟩, hx⟩ := Option.ne_none_iff_exists'.mp hsome
  obtain ⟨v, v', p, p', hsource, hsource', hsame, hprint⟩ := hD.exists_respelling hx
  have : Nonempty V := ⟨v⟩
  choose! f g hf using hnamed
  -- this column varies, the others are named once
  have hkey := writeKey_update hf hsource
  have hkey' := writeKey_update hf hsource'
  have hiff := hone _ _ _ _ _ _ hkey hkey'
  rw [compositeID_eq_iff hkey hkey', sameRow_map, List.map_inj_left] at hiff
  have hprinted := hiff.mp fun u _ => by
    by_cases hut : u = t
    · simpa [hut] using hsame
    · simpa [hut] using hD.same_refl u (f u)
  exact hprint (by simpa using hprinted t ht)

/-- A column of a type that messages have is exact or can be spelled in two ways, if an update can name it at all. -/
theorem KeyDriver.Postgres.exact_or_respelled (hknown : (Proto.ProtoType t).isOk = true) (hnamed : D.Nameable t) :
    ExactKey t ∨ (respelling t).isSome := by
  have hsingle : (Proto.applyProtoFieldType t).2 = false := by
    rw [← Bool.not_eq_true]
    intro hlist
    obtain ⟨v, p, hsource⟩ := hnamed
    cases hsource with
    | update m x v hm hbind hresolve =>
      have hprinted : ∃ printed, m = .list printed := by
        rw [← Prod.mk.eta (p := Proto.applyProtoFieldType t), hlist] at hm
        cases m with
        | list printed => exact ⟨printed, rfl⟩
        | _ => cases hm
      obtain ⟨printed, rfl⟩ := hprinted
      cases (hD.resolveList t printed x hlist hbind).symm.trans hresolve
  cases t with
  | array elem => cases hsingle
  | scalar name =>
    unfold Proto.ProtoType at hknown
    split at hknown
    case h_16 => cases hknown
    case h_15 => cases hsingle
    all_goals simp [ExactKey, textKey, wholeKey, intKey, respelling, FieldType.isArray, FieldType.name]

end

/-- The key columns of an entity, `pkCols`. -/
def keyTypes (e : Entity) : List FieldType := (Proto.PKFields e).map Field.type

/-- **One row, one cache id, exactly where all key columns are exact**, if an update can name a row of the entity. -/
theorem oneRowOneID_iff {V : Type} {D : KeyDriver V} {text : V → Bytes} {num : V → Int} (hD : D.Postgres text num)
    (e : Entity) :
    ((∀ t ∈ keyTypes e, ExactKey t) → OneRowOneID D (keyTypes e)) ∧
    ((∀ t ∈ keyTypes e, (Proto.ProtoType t).isOk = true ∧ D.Nameable t) → OneRowOneID D (keyTypes e) →
      ∀ t ∈ keyTypes e, ExactKey t) := by
  constructor
  · intro hts
    exact oneRowOneID_of_spelledOnce fun t ht => hD.spelledOnce (hts t ht)
  · intro hnamed hone t ht
    refine (hD.exact_or_respelled (hnamed t ht).1 (hnamed t ht).2).resolve_right ?_
    rw [hone.respelling_none hD (fun u hu => (hnamed u hu).2) ht]
    exact Bool.false_ne_true

/-! ## A driver -/

/-- ASCII letters in lower case. -/
def lowerByte (b : UInt8) : UInt8 := if 65 ≤ b ∧ b ≤ 90 then b + 32 else b

/-- A numeral with a point, without the zeros at its end. -/
def trimNumeric (s : Bytes) : Bytes :=
  if 46 ∈ s then (((s.reverse.dropWhile (· == 48)).dropWhile (· == 46)).reverse) else s

/-- The text of a value, and its number. -/
def GoVal.text : GoVal → Bytes
  | .string s | .bytes s => s
  | .bool b => if b then [116, 114, 117, 101] else [102, 97, 108, 115, 101]
  | _ => []

def GoVal.num : GoVal → Int
  | .int64 n | .int32 n => n
  | _ => 0

/-- What Postgres compares. -/
def GoVal.fold (t : FieldType) (x : GoVal) : GoVal :=
  match t.name with
  | "text" | "varchar" | "boolean" | "bytea" => .string x.text
  | "bigint" | "int" | "smallint" => .int64 x.num
  | "citext" | "uuid" => .string (x.text.map lowerByte)
  | "numeric" => .string (trimNumeric x.text)
  | "timestamptz" =>
    match x with
    | .time sec nanos => .time sec (nanos / 1000)
    | x => x
  | "date" =>
    match x with
    | .time sec _ => .time (sec / 86400) 0
    | x => x
  | "jsonb" => .bytes (x.text.filter (· ≠ 32))
  | "interval" => .string (if x.text = [50, 52, 104] then [49, 100] else x.text)
  | _ => x

/-- A driver that takes every argument but lists, and scans strings and integers. -/
def foldDriver : KeyDriver GoVal where
  resolve t x := if (Proto.applyProtoFieldType t).2 then none else some x
  same t x y := x.fold t = y.fold t
  scanText t x :=
    match x with
    | .string s => if wholeKey t then none else some s
    | _ => none
  scanInt _ x :=
    match x with
    | .int64 n | .int32 n => some n
    | _ => none
  formatTime sec nanos := netstring (signedDecimal sec) ++ signedDecimal nanos

theorem GoVal.fold_text {t : FieldType} (ht : textKey t ∨ wholeKey t) (x : GoVal) : x.fold t = .string x.text := by
  unfold GoVal.fold
  rcases ht with ⟨_, hname | hname⟩ | ⟨_, hname | hname⟩ <;> rw [hname] <;> rfl

theorem GoVal.fold_int {t : FieldType} (ht : intKey t) (x : GoVal) : x.fold t = .int64 x.num := by
  unfold GoVal.fold
  rcases ht.2 with hname | hname | hname <;> rw [hname] <;> rfl

theorem foldDriver_resolve {t : FieldType} {x v : GoVal} (h : foldDriver.resolve t x = some v) : v = x :=
  (Option.some.inj (Option.ite_none_left_eq_some.mp h).2).symm

theorem foldDriver_postgres : foldDriver.Postgres GoVal.text GoVal.num where
  same_refl _ _ := rfl
  sameText t v w ht := by
    show v.fold t = w.fold t ↔ _
    rw [GoVal.fold_text ht, GoVal.fold_text ht, GoVal.string.injEq]
  resolveText _ _ _ _ hv := by
    rw [foldDriver_resolve hv]
    rfl
  resolveBool _ _ _ _ hv := by
    rw [foldDriver_resolve hv]
    rfl
  resolveBytes _ _ _ _ hv := by
    rw [foldDriver_resolve hv]
    rfl
  scanText _ v _ _ hs := by
    cases v with
    | string => exact Option.some.inj (Option.ite_none_left_eq_some.mp hs).2
    | _ => cases hs
  scanWhole t v ht := by
    cases v with
    | string => exact if_pos ht
    | _ => rfl
  sameInt t v w ht := by
    show v.fold t = w.fold t ↔ _
    rw [GoVal.fold_int ht, GoVal.fold_int ht, GoVal.int64.injEq]
  resolveInt64 _ _ _ _ hv := by
    rw [foldDriver_resolve hv]
    rfl
  resolveInt32 _ _ _ _ hv := by
    rw [foldDriver_resolve hv]
    rfl
  scanInt _ v _ _ hn := by
    cases v with
    | int64 | int32 => exact Option.some.inj hn
    | _ => cases hn
  resolveList _ _ _ hlist _ := if_pos hlist
  respells t x x' hx := by
    cases t with
    | array elem => cases hx
    | scalar name =>
      simp only [respelling, FieldType.isArray, FieldType.name, Bool.false_eq_true, if_false] at hx
      split at hx <;> cases hx <;> exact ⟨_, _, rfl, rfl, rfl⟩
  formatTime_inj sec nanos sec' nanos' heq := by
    obtain ⟨hsec, hnanos⟩ := netstring_prefixFree _ _ _ _ heq
    exact ⟨signedDecimal_inj hsec, signedDecimal_inj hnanos⟩

/-- An entity whose key is a number and a column of the type. -/
def keyedBy (type : String) : Entity where
  name := "Account"
  namespace_ := "crm"
  fields := [{ name := "tenant", type := .simple "bigint", notNull := true }, { name := "id", type := .simple type, notNull := true }]
  compositePK := ["tenant", "id"]

/-- **One row has two cache ids.** A `citext` key is created as `A` and updated as `a`. It is the same row for
    Postgres, and the update invalidates an id that the row was never cached under. -/
theorem citext_key_two_ids :
    WriteKey foldDriver .create (keyTypes (keyedBy "citext")) [.int64 1, .string [65]] [[49], [65]] ∧
    WriteKey foldDriver .update (keyTypes (keyedBy "citext")) [.int64 1, .string [97]] [[49], [97]] ∧
    foldDriver.SameRow (keyTypes (keyedBy "citext")) [.int64 1, .string [65]] [.int64 1, .string [97]] ∧
    CompositeID [[49], [65]] ≠ CompositeID [[49], [97]] :=
  ⟨.cons (.create _ (.int64 1) rfl) (.cons (.create _ (.string [65]) rfl) .nil),
    .cons (.update (.int 1) (.int64 1) _ rfl rfl rfl) (.cons (.update (.string [97]) (.string [97]) _ rfl rfl rfl) .nil),
    ⟨rfl, rfl, trivial⟩, by decide +kernel⟩

/-- A number and a boolean are all right; with a timestamp, that an update can name, it is not so. -/
theorem oneRowOneID_iff_keyed :
    OneRowOneID foldDriver (keyTypes (keyedBy "boolean")) ∧ ¬ OneRowOneID foldDriver (keyTypes (keyedBy "timestamptz")) := by
  constructor
  · exact (oneRowOneID_iff foldDriver_postgres (keyedBy "boolean")).1 (by decide +kernel)
  · intro hone
    have hnamed : ∀ t ∈ keyTypes (keyedBy "timestamptz"), (Proto.ProtoType t).isOk = true ∧ foldDriver.Nameable t := by
      intro t ht
      rcases List.mem_cons.mp ht with rfl | ht
      · exact ⟨rfl, _, _, .update (.int 1) (.int64 1) _ rfl rfl rfl⟩
      · rw [List.mem_singleton.mp ht]
        exact ⟨rfl, _, _, .update (.timestamp none) _ _ rfl rfl rfl⟩
    have hexact := (oneRowOneID_iff foldDriver_postgres (keyedBy "timestamptz")).2 hnamed hone
    revert hexact
    decide +kernel

end Atlantis.Server
