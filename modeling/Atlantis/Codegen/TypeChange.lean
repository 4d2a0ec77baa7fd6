import Atlantis.Codegen.Diff
import Atlantis.Lib.Fold
import Mathlib.Data.Rat.Floor
import Mathlib.Tactic.Positivity

/-!
# `Codegen.TypeChange` — what `ALTER COLUMN … TYPE` does to the values there are

`emitTypeChange` writes no `USING`: Postgres converts each value by assignment. `classifyTypeChange` is to answer `Additive`
only where none is refused or changed. But it reads `Len`, `VecDim`, `NumP` and `NumS` of the types themselves, which are 0
in an array; it does not read `HasNumP`; and it compares precision and scale one by one:

* `varchar(200)[]` to `varchar(10)[]`, `vector(3)[]` to `vector(4)[]`;
* `numeric` to `numeric(4, 2)`;
* `numeric(4, 2)` to `numeric(4, 3)`, which has a digit less before the point.

`keepsValues_iff` says that there is nothing else.
-/

namespace Atlantis.Codegen

open Schema

/-! ## Values -/

/-- A value that is no array. -/
inductive Scalar where
  | int (n : Int)
  | text (s : String)
  | numeric (q : ℚ)
  | vector (xs : List ℚ)
  /-- Of a type without parameters. -/
  | other (type : String) (x : Nat)

/-- A column's value. Postgres has one array type for all dimensions: the elements stand in a row. -/
inductive ColumnValue where
  | scalar (v : Scalar)
  | array (elems : List (Option Scalar))

/-- The integers of a rank: 16, 32 and 64 bits. -/
def InRank (rank : Nat) (n : Int) : Prop := -2 ^ (8 * 2 ^ rank - 1) ≤ n ∧ n < 2 ^ (8 * 2 ^ rank - 1)

instance (rank : Nat) (n : Int) : Decidable (InRank rank n) := inferInstanceAs (Decidable (_ ∧ _))

/-- The numbers of `numeric(p, s)`: `p` digits, of which `s` stand after the point. -/
def Digits (p s : Nat) (q : ℚ) : Prop := ∃ k : ℤ, |k| < 10 ^ p ∧ q = k / 10 ^ s

/-- `HasNumP`. -/
def hasNumP : FieldType → Bool
  | .scalar _ _ _ _ _ h => h
  | .array _ => false

/-- The values of a scalar type, as `sqlType` writes it. A `Len` of 0 is no limit. -/
def HoldsScalar (t : FieldType) (v : Scalar) : Prop :=
  match intRank t.name with
  | some rank => ∃ n, v = .int n ∧ InRank rank n
  | none =>
    if t.name = "varchar" then ∃ s, v = .text s ∧ (t.len = 0 ∨ s.length ≤ t.len)
    else if t.name = "numeric" then
      ∃ q, v = .numeric q ∧ if hasNumP t then Digits t.numP t.numS q else ∃ p s, Digits p s q
    else if t.name = "vector" then ∃ xs, v = .vector xs ∧ xs.length = t.vecDim
    else ∃ x, v = .other t.name x

/-- The type of the elements, or the type itself. -/
def inner : FieldType → FieldType
  | .array elem => inner elem
  | t => t

/-- The values of a type. -/
def Holds (t : FieldType) : ColumnValue → Prop
  | .scalar v => t.isArray = false ∧ HoldsScalar (inner t) v
  | .array elems => t.isArray = true ∧ ∀ v, some v ∈ elems → HoldsScalar (inner t) v

/-! ## The conversion -/

/-- Rounding to `s` digits after the point, ties away from zero, as a number of units of the last digit. -/
def roundTo (s : Nat) (q : ℚ) : ℤ := if 0 ≤ q then ⌊q * 10 ^ s + 1 / 2⌋ else -⌊-q * 10 ^ s + 1 / 2⌋

/-- The conversion to a type of the same family, by assignment; `none` is an error. Only blanks are cut off a text. -/
def convertScalar (t : FieldType) : Scalar → Option Scalar
  | .int n => (intRank t.name).bind fun rank => if InRank rank n then some (.int n) else none
  | .text s =>
    if t.len = 0 ∨ s.length ≤ t.len then some (.text s)
    else if (s.toList.drop t.len).all (· = ' ') then some (.text (String.ofList (s.toList.take t.len)))
    else none
  | .numeric q =>
    if hasNumP t then
      if |roundTo t.numS q| < 10 ^ t.numP then some (.numeric (roundTo t.numS q / 10 ^ t.numS)) else none
    else some (.numeric q)
  | .vector xs => if xs.length = t.vecDim then some (.vector xs) else none
  | .other type x => some (.other type x)

/-- The conversion of an element. NULL stays. -/
def convertElem (t : FieldType) : Option Scalar → Option (Option Scalar)
  | none => some none
  | some v => (convertScalar t v).map some

/-- The conversion of a column's value. -/
def convert (t : FieldType) : ColumnValue → Option ColumnValue
  | .scalar v => (convertScalar (inner t) v).map .scalar
  | .array elems => (elems.mapM (convertElem (inner t))).map .array

/-- **The property.** Each value of the old type is one of the new and is converted to itself. -/
def KeepsValues (a b : FieldType) : Prop := ∀ v, Holds a v → Holds b v ∧ convert b v = some v

/-- The parameters of scalar types of one name leave room. -/
def ParametersFit (a b : FieldType) : Prop :=
  (a.name = "varchar" → b.len = 0 ∨ a.len ≠ 0 ∧ a.len ≤ b.len) ∧
    (a.name = "numeric" → hasNumP b = true →
      hasNumP a = true ∧ (a.numP = 0 ∨ a.numS ≤ b.numS ∧ a.numP + b.numS ≤ b.numP + a.numS)) ∧
    (a.name = "vector" → a.vecDim = b.vecDim)

/-! ## Digits -/

theorem roundTo_units {s : Nat} (k : ℤ) : roundTo s (k / 10 ^ s) = k := by
  have hhalf (m : ℤ) : ⌊(m : ℚ) + 1 / 2⌋ = m := by
    rw [Int.floor_intCast_add]
    norm_num
  unfold roundTo
  split
  · rw [div_mul_cancel₀ _ (by positivity), hhalf]
  · have hneg : -((k : ℚ) / 10 ^ s) * 10 ^ s = ((-k : ℤ) : ℚ) := by
      rw [neg_mul, div_mul_cancel₀ _ (by positivity), Int.cast_neg]
    rw [hneg, hhalf, neg_neg]

theorem units_eq {s d : Nat} {k m : ℤ} (h : (k : ℚ) / 10 ^ s = m / 10 ^ (s + d)) : m = k * 10 ^ d := by
  have hs : (10 : ℚ) ^ s ≠ 0 := by positivity
  rw [div_eq_div_iff hs (by positivity), pow_add, mul_comm (m : ℚ), mul_left_comm, mul_right_inj' hs] at h
  exact_mod_cast h.symm

/-- **Digits for digits.** The number of those before the point and of those after it must not get less. -/
theorem digits_subset_iff {p s p' s' : Nat} :
    (∀ q, Digits p s q → Digits p' s' q) ↔ p = 0 ∨ s ≤ s' ∧ p + s' ≤ p' + s := by
  constructor
  · intro h
    rcases Nat.eq_zero_or_pos p with hp | hp
    · exact .inl hp
    have hone : (1 : ℤ) < 10 ^ p := one_lt_pow₀ (by norm_num) (by omega)
    -- the smallest number
    have hs : s ≤ s' := by
      obtain ⟨m, -, hm⟩ := h (1 / 10 ^ s) ⟨1, by simpa using hone, by simp⟩
      by_contra hlt
      obtain ⟨d, rfl⟩ := Nat.exists_eq_add_of_lt (Nat.lt_of_not_le hlt)
      have hunits := @units_eq s' (d + 1) m 1 (by simpa [Nat.add_assoc] using hm.symm)
      have hdvd : (10 : ℤ) ∣ 1 := hunits ▸ Dvd.dvd.mul_left (dvd_pow_self 10 (by omega)) m
      omega
    -- the largest
    obtain ⟨d, rfl⟩ := Nat.exists_eq_add_of_le hs
    obtain ⟨m, hm, heq⟩ := h (((10 ^ p - 1 : ℤ) : ℚ) / 10 ^ s)
      ⟨10 ^ p - 1, by rw [abs_of_nonneg (by omega)]; omega, rfl⟩
    obtain rfl := units_eq heq
    rw [abs_of_nonneg (mul_nonneg (by omega) (by positivity))] at hm
    refine .inr ⟨hs, ?_⟩
    by_contra hlt
    have hten : (10 : ℤ) ^ (p - 1) ≤ 10 ^ p - 1 := by
      have hsucc : (10 : ℤ) ^ p = 10 ^ (p - 1) * 10 := by rw [← pow_succ, Nat.sub_add_cancel hp]
      have hpos : (0 : ℤ) < 10 ^ (p - 1) := by positivity
      omega
    have hle : (10 : ℤ) ^ p' ≤ 10 ^ (p - 1) * 10 ^ d := by
      rw [← pow_add]
      exact pow_le_pow_right₀ (by norm_num) (by omega)
    exact absurd (hm.trans_le hle) (not_lt.mpr (mul_le_mul_of_nonneg_right hten (by positivity)))
  · rintro h q ⟨k, hk, rfl⟩
    rcases h with rfl | ⟨hs, hp⟩
    · obtain rfl : k = 0 := by simpa using hk
      exact ⟨0, by simp, by simp⟩
    obtain ⟨d, rfl⟩ := Nat.exists_eq_add_of_le hs
    refine ⟨k * 10 ^ d, ?_, ?_⟩
    · rw [abs_mul, abs_of_nonneg (show (0 : ℤ) ≤ 10 ^ d by positivity)]
      calc |k| * 10 ^ d < 10 ^ p * 10 ^ d := mul_lt_mul_of_pos_right hk (by positivity)
        _ = 10 ^ (p + d) := (pow_add _ _ _).symm
        _ ≤ 10 ^ p' := pow_le_pow_right₀ (by norm_num) (by omega)
    · rw [pow_add, Int.cast_mul, Int.cast_pow, Int.cast_ofNat, mul_div_mul_right _ _ (by positivity)]

/-- No precision is enough for all numbers. -/
theorem digits_bounded (p s : Nat) : ¬ ∀ q, (∃ p s, Digits p s q) → Digits p s q := by
  intro h
  have hsub := digits_subset_iff.mp fun q hq => h q ⟨p + s + 1, s, hq⟩
  omega

/-! ## Scalar types -/

variable {a b t : FieldType}

theorem inRank_mono {o n : Nat} {i : Int} (hon : o ≤ n) (h : InRank o i) : InRank n i := by
  have hbits : (2 : ℤ) ^ (8 * 2 ^ o - 1) ≤ 2 ^ (8 * 2 ^ n - 1) := by
    refine pow_le_pow_right₀ (by norm_num) ?_
    have hpow : 2 ^ o ≤ 2 ^ n := Nat.pow_le_pow_right (by norm_num) hon
    omega
  exact ⟨(neg_le_neg hbits).trans h.1, h.2.trans_le hbits⟩

/-- Sets of values under one constructor are compared by what it is applied to. -/
theorem forall_built_iff {α : Type} {mk : α → Scalar} (hmk : mk.Injective) {P Q : α → Prop} :
    (∀ v, (∃ x, v = mk x ∧ P x) → ∃ x, v = mk x ∧ Q x) ↔ ∀ x, P x → Q x := by
  constructor
  · intro h x hx
    obtain ⟨y, heq, hy⟩ := h (mk x) ⟨x, rfl, hx⟩
    exact hmk heq ▸ hy
  · rintro h _ ⟨x, rfl, hx⟩
    exact ⟨x, rfl, h x hx⟩

/-- Only three types have parameters, and none of them is a type of integers. -/
theorem parametersFit_of_rank {rank : Nat} (h : intRank a.name = some rank) : ParametersFit a b := by
  refine ⟨?_, ?_, ?_⟩ <;> intro hname <;> rw [hname] at h <;> cases h

theorem holdsScalar_subset_iff (h : a.name = b.name ∨ isWidening a.name b.name = true) :
    (∀ v, HoldsScalar a v → HoldsScalar b v) ↔ ParametersFit a b := by
  rcases h with hname | hwider
  · unfold HoldsScalar
    rw [← hname]
    split
    · rename_i hrank
      exact iff_of_true (fun _ hv => hv) (parametersFit_of_rank hrank)
    unfold ParametersFit
    split
    · rename_i hvarchar
      rw [forall_built_iff fun _ _ => Scalar.text.inj]
      simp only [hvarchar, String.reduceEq, IsEmpty.forall_iff, and_true, forall_const]
      constructor
      · intro h
        by_contra! hfit
        -- one character too many
        have hlen := h ("".pushn 'x' (b.len + 1))
        simp at hlen
        omega
      · intro hfit s hlen
        omega
    split
    · rename_i hnumeric
      rw [forall_built_iff fun _ _ => Scalar.numeric.inj]
      simp only [hnumeric, String.reduceEq, IsEmpty.forall_iff, and_true, true_and, forall_const]
      by_cases hb : hasNumP b
      · by_cases ha : hasNumP a
        · simp [ha, hb, digits_subset_iff]
        · simpa [ha, hb] using digits_bounded b.numP b.numS
      · by_cases ha : hasNumP a
        · simpa [ha, hb] using fun q hq => ⟨_, _, hq⟩
        · simp [ha, hb]
    split
    · rename_i hvector
      rw [forall_built_iff fun _ _ => Scalar.vector.inj]
      simp only [hvector, String.reduceEq, IsEmpty.forall_iff, true_and, forall_const]
      constructor
      · intro h
        simpa using h (List.replicate a.vecDim 0)
      · intro hdim xs hlen
        exact hlen.trans hdim
    · rename_i hvarchar hnumeric hvector
      simp [hvarchar, hnumeric, hvector]
  · unfold isWidening at hwider
    split at hwider
    · rename_i o n ho hn
      refine iff_of_true ?_ (parametersFit_of_rank ho)
      unfold HoldsScalar
      rw [ho, hn]
      rintro _ ⟨i, rfl, hi⟩
      exact ⟨i, rfl, inRank_mono (of_decide_eq_true hwider).le hi⟩
    · cases hwider

theorem convertScalar_of_holds {v : Scalar} (h : HoldsScalar t v) : convertScalar t v = some v := by
  unfold HoldsScalar at h
  split at h
  · rename_i hrank
    obtain ⟨n, rfl, hn⟩ := h
    simp [convertScalar, hrank, hn]
  split at h
  · obtain ⟨s, rfl, hs⟩ := h
    simp [convertScalar, hs]
  split at h
  · obtain ⟨q, rfl, hq⟩ := h
    by_cases hp : hasNumP t
    · rw [if_pos hp] at hq
      obtain ⟨k, hk, rfl⟩ := hq
      simp [convertScalar, hp, roundTo_units, hk]
    · simp [convertScalar, hp]
  split at h
  · obtain ⟨xs, rfl, hxs⟩ := h
    simp [convertScalar, hxs]
  · obtain ⟨x, rfl⟩ := h
    rfl

/-! ## Columns -/

theorem convert_of_holds {v : ColumnValue} (h : Holds t v) : convert t v = some v := by
  cases v with
  | scalar v => simp [convert, convertScalar_of_holds h.2]
  | array elems =>
    have helems : elems.mapM (convertElem (inner t)) = some elems := by
      obtain ⟨-, h⟩ := h
      induction elems with
      | nil => rfl
      | cons elem rest ih =>
        rw [List.mapM_cons, ih fun v hv => h v (List.mem_cons_of_mem _ hv)]
        cases elem with
        | none => rfl
        | some v => simp [convertElem, convertScalar_of_holds (h v List.mem_cons_self)]
    rw [convert, helems]
    rfl

theorem name_inner (t : FieldType) : (inner t).name = t.name := by
  induction t with
  | scalar => rfl
  | array elem ih => exact ih

theorem keepsValues_iff_inner (harray : a.isArray = b.isArray) :
    KeepsValues a b ↔ ∀ v, HoldsScalar (inner a) v → HoldsScalar (inner b) v := by
  constructor
  · intro h v hv
    cases hb : b.isArray with
    | false => exact (h (.scalar v) ⟨harray.trans hb, hv⟩).1.2
    | true => exact (h (.array [some v]) ⟨harray.trans hb, by simpa using hv⟩).1.2 v List.mem_cons_self
  · intro h v hv
    have hb : Holds b v := by
      cases v with
      | scalar v => exact ⟨harray ▸ hv.1, h v hv.2⟩
      | array elems => exact ⟨harray ▸ hv.1, fun v hmem => h v (hv.2 v hmem)⟩
    exact ⟨hb, convert_of_holds hb⟩

/-- **An accepted change keeps all values exactly if the parameters of the innermost types leave room.** -/
theorem keepsValues_iff (h : typeEqual a b = true ∨ classifyTypeChange a b = .additive) :
    KeepsValues a b ↔ ParametersFit (inner a) (inner b) := by
  -- what is called equal or additive is an array in both or in none, of one name or of a wider one
  obtain ⟨harray, hname⟩ : a.isArray = b.isArray ∧ (a.name = b.name ∨ isWidening a.name b.name = true) := by
    rcases h with heq | hclass
    · obtain rfl := eq_of_beq heq
      exact ⟨rfl, .inl rfl⟩
    unfold classifyTypeChange at hclass
    split at hclass
    · cases hclass
    rename_i harray
    refine ⟨not_not.mp harray, ?_⟩
    split at hclass
    · rename_i hvector
      exact .inl (hvector.1.trans hvector.2.symm)
    split at hclass
    · left
      assumption
    split at hclass
    · right
      assumption
    · cases hclass
  rw [keepsValues_iff_inner harray]
  refine holdsScalar_subset_iff ?_
  rwa [name_inner, name_inner]

/-- `varchar(10)` may become `varchar(20)`. -/
theorem varchar_widened : KeepsValues (.scalar "varchar" 0 10 0 0 false) (.scalar "varchar" 0 20 0 0 false) :=
  (keepsValues_iff (.inr rfl)).mpr (by simp [ParametersFit, inner, FieldType.name, FieldType.len])

/-- 10.00 is no number of `numeric(4, 3)`. -/
theorem numeric_overflows :
    classifyTypeChange (.scalar "numeric" 0 0 4 2 true) (.scalar "numeric" 0 0 4 3 true) = .additive ∧
      ¬ KeepsValues (.scalar "numeric" 0 0 4 2 true) (.scalar "numeric" 0 0 4 3 true) := by
  refine ⟨rfl, ?_⟩
  intro h
  rw [keepsValues_iff_inner (by rfl)] at h
  have hfit := (holdsScalar_subset_iff (.inl (by rfl))).mp h
  simp [ParametersFit, inner, FieldType.name, FieldType.numP, FieldType.numS, hasNumP] at hfit

end Atlantis.Codegen
