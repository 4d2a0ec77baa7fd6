import Mathlib.Algebra.Ring.Nat
import Mathlib.Data.List.Basic

/-!
# `Schema.Duration` — the durations of the DSL

`parseDurationMS` of `internal/dsl/ir.go` and the bounds that lowering checks on what it returns. The lexer takes any
number of digits before a unit. `strconv.Atoi` refuses numbers that do not fit a Go `int`; the product with the unit is
not checked, and wraps around. So a duration is read exactly if it fits in milliseconds, or not even its digits fit
(`exact_iff`).
-/

namespace Atlantis.Schema

/-- A `TokDuration`. -/
structure DurationLit where
  digits : List Char
  unit : Char
  nonempty : digits ≠ []
  isDigit : ∀ c ∈ digits, c.isDigit = true
  isUnit : unit ∈ ['s', 'm', 'h', 'd']

def DurationLit.text (d : DurationLit) : List Char := d.digits ++ [d.unit]

def digitsValue (cs : List Char) : Nat := cs.foldl (fun n c => 10 * n + (c.toNat - '0'.toNat)) 0

/-- `strconv.Atoi`, without the signs, which the lexer does not let through. -/
def atoi (cs : List Char) : Option Int64 :=
  if cs ≠ [] ∧ cs.all Char.isDigit ∧ digitsValue cs < 2 ^ 63 then some (Int64.ofNat (digitsValue cs)) else none

def parseDurationMS (s : List Char) : Except String Int64 :=
  match s.getLast? with
  | none => .error "empty duration"
  | some unit =>
    match atoi s.dropLast with
    | none => .error ("not a number: " ++ String.ofList s.dropLast)
    | some n =>
      match unit with
      | 's' => .ok (n * 1000)
      | 'm' => .ok (n * 60 * 1000)
      | 'h' => .ok (n * 60 * 60 * 1000)
      | 'd' => .ok (n * 24 * 60 * 60 * 1000)
      | _ => .error ("unknown duration unit '" ++ unit.toString ++ "' (use s/m/h/d)")

/-- `lowerJob`, on `heartbeat`. -/
def lowerHeartbeat (s : List Char) : Except String Int64 :=
  match parseDurationMS s with
  | .error err => .error ("invalid heartbeat " ++ (String.ofList s).quote ++ ": " ++ err)
  | .ok ms => if ms ≤ 0 then .error ("heartbeat must be positive, got " ++ (String.ofList s).quote) else .ok ms

/-- `lowerMembers` and `validateEntity`, on `query_timeout`. -/
def lowerQueryTimeout (id : String) (s : List Char) : Except String Int64 :=
  match parseDurationMS s with
  | .error err => .error ("invalid query_timeout " ++ (String.ofList s).quote ++ ": " ++ err)
  | .ok ms =>
    if ms = 0 then .ok ms
    else if ms < 50 then .error (id ++ " query_timeout " ++ toString ms ++ "ms < 50ms minimum")
    else if 30000 < ms then .error (id ++ " query_timeout " ++ toString ms ++ "ms > 30s maximum")
    else .ok ms

/-- The milliseconds of a unit. -/
def unitMS : Char → Nat
  | 's' => 1000
  | 'm' => 60 * 1000
  | 'h' => 60 * 60 * 1000
  | _ => 24 * 60 * 60 * 1000

/-- What was written, in milliseconds. -/
def DurationLit.ms (d : DurationLit) : Nat := digitsValue d.digits * unitMS d.unit

/-- **The duration is read exactly or refused**, and the bounds that are checked hold of what was written. -/
structure DurationLit.Exact (d : DurationLit) : Prop where
  parsed : ∀ ms, parseDurationMS d.text = .ok ms → ms.toInt = d.ms
  heartbeat : ∀ ms, lowerHeartbeat d.text = .ok ms → 0 < d.ms
  queryTimeout : ∀ id ms, lowerQueryTimeout id d.text = .ok ms → d.ms = 0 ∨ 50 ≤ d.ms ∧ d.ms ≤ 30000

variable {d : DurationLit} {ms : Int64}

/-- The product is taken modulo `2 ^ 64`. -/
theorem parseDurationMS_ok_iff :
    parseDurationMS d.text = .ok ms ↔ digitsValue d.digits < 2 ^ 63 ∧ ms = Int64.ofNat d.ms := by
  have hdigits : d.digits.all Char.isDigit = true := List.all_eq_true.mpr d.isDigit
  unfold parseDurationMS DurationLit.text DurationLit.ms atoi
  rw [List.getLast?_concat, List.dropLast_concat]
  by_cases hfits : digitsValue d.digits < 2 ^ 63
  · rw [if_pos ⟨d.nonempty, hdigits, hfits⟩, and_iff_right hfits]
    have hunit := d.isUnit
    simp only [List.mem_cons, List.not_mem_nil, or_false] at hunit
    rcases hunit with h | h | h | h <;> rw [h] <;>
      simp [unitMS, Int64.ofNat_mul, Int64.mul_assoc, eq_comm]
  · rw [if_neg fun h => hfits h.2.2]
    exact iff_of_false (fun h => by cases h) fun h => hfits h.1

theorem toInt_eq_iff : ms = Int64.ofNat d.ms → (ms.toInt = d.ms ↔ d.ms < 2 ^ 63) := by
  rintro rfl
  constructor
  · intro h
    have := Int64.toInt_lt (Int64.ofNat d.ms)
    omega
  · intro h
    exact Int64.toInt_ofNat_of_lt h

/-- **A duration is read exactly iff it fits 64 bits in milliseconds**, or its digits alone do not. -/
theorem exact_iff (d : DurationLit) : d.Exact ↔ 2 ^ 63 ≤ digitsValue d.digits ∨ d.ms < 2 ^ 63 := by
  constructor
  · intro h
    by_contra hwraps
    obtain ⟨hfits, hms⟩ := not_or.mp hwraps
    have hparsed := parseDurationMS_ok_iff.mpr ⟨Nat.not_le.mp hfits, rfl⟩
    exact hms ((toInt_eq_iff rfl).mp (h.parsed _ hparsed))
  · intro h
    have hparsed : ∀ ms, parseDurationMS d.text = .ok ms → ms.toInt = d.ms := by
      intro ms hms
      obtain ⟨hfits, heq⟩ := parseDurationMS_ok_iff.mp hms
      exact (toInt_eq_iff heq).mpr (h.resolve_left (Nat.not_le.mpr hfits))
    refine ⟨hparsed, fun ms hms => ?_, fun id ms hms => ?_⟩
    · unfold lowerHeartbeat at hms
      split at hms
      · cases hms
      rename_i hok
      have hexact := hparsed _ hok
      split at hms
      · cases hms
      rename_i hpos
      have hzero : (0 : Int64).toInt = 0 := rfl
      rw [Int64.le_iff_toInt_le] at hpos
      omega
    · unfold lowerQueryTimeout at hms
      split at hms
      · cases hms
      rename_i hok
      have hexact := hparsed _ hok
      split at hms
      · rename_i hnone
        rw [hnone] at hexact
        exact .inl (Int.ofNat_eq_zero.mp hexact.symm)
      split at hms
      · cases hms
      split at hms
      · cases hms
      rename_i hmin hmax
      have hbounds : (50 : Int64).toInt = 50 ∧ (30000 : Int64).toInt = 30000 := ⟨rfl, rfl⟩
      rw [Int64.lt_iff_toInt_lt] at hmin hmax
      right
      omega

/-- A timeout of half a billion years passes for one of 384 milliseconds. -/
theorem long_timeout_wraps : ∃ d : DurationLit, d.text = "18446744073709552s".toList ∧ ¬ d.Exact ∧
    lowerQueryTimeout "app.Job" d.text = .ok 384 ∧ d.ms = 18446744073709552000 := by
  refine ⟨⟨"18446744073709552".toList, 's', by decide, List.all_eq_true.mp rfl, by decide⟩, rfl, fun h => ?_,
    by decide +kernel, by decide +kernel⟩
  have hparsed := h.parsed 384 (by decide +kernel)
  revert hparsed
  decide +kernel

end Atlantis.Schema
