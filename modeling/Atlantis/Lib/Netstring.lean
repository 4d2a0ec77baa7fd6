import Mathlib.Data.Nat.Digits.Defs
import Atlantis.Lib.Varint

/-!
# `Lib.Netstring` — byte strings with their length in front

Decimal numerals, and the code that writes a byte string after its length and a colon. A numeral has no colon in it, so
the length is read off first and tells how far the byte string goes: the code is prefix-free (`netstring_prefixFree`),
whatever bytes the string has.
-/

namespace Atlantis.Lib

/-- The decimal numeral of a number, in ASCII. -/
def decimal (n : Nat) : Bytes :=
  if n = 0 then [48] else (Nat.digits 10 n).reverse.map fun d => UInt8.ofNat (48 + d)

/-- The numeral of an integer. -/
def signedDecimal : Int → Bytes
  | .ofNat n => decimal n
  | .negSucc n => 45 :: decimal (n + 1)

def netstring (b : Bytes) : Bytes := decimal b.length ++ 58 :: b

theorem digit_inj {d d' : Nat} (hd : d < 10) (hd' : d' < 10) (h : UInt8.ofNat (48 + d) = UInt8.ofNat (48 + d')) :
    d = d' := by
  have heq := congrArg UInt8.toNat h
  rw [UInt8.toNat_ofNat_of_lt' (by show 48 + d < 256; omega), UInt8.toNat_ofNat_of_lt' (by show 48 + d' < 256; omega)] at heq
  omega

/-- Lists of digits are told apart by how they are written. -/
theorem map_digit_inj {l l' : List Nat} (hl : ∀ d ∈ l, d < 10) (hl' : ∀ d ∈ l', d < 10)
    (h : l.map (fun d => UInt8.ofNat (48 + d)) = l'.map fun d => UInt8.ofNat (48 + d)) : l = l' := by
  induction l generalizing l' with
  | nil => exact (List.map_eq_nil_iff.mp h.symm).symm
  | cons d l ih =>
    cases l' with
    | nil => cases h
    | cons d' l' =>
      obtain ⟨hhead, htail⟩ := List.cons.inj h
      rw [digit_inj (hl d List.mem_cons_self) (hl' d' List.mem_cons_self) hhead,
        ih (fun x hx => hl x (List.mem_cons_of_mem _ hx)) (fun x hx => hl' x (List.mem_cons_of_mem _ hx)) htail]

/-- A numeral is the writing of a list of digits that stands for its number. -/
theorem exists_digits (n : Nat) : ∃ l : List Nat, (∀ d ∈ l, d < 10) ∧
    decimal n = l.map (fun d => UInt8.ofNat (48 + d)) ∧ Nat.ofDigits 10 l.reverse = n := by
  by_cases hn : n = 0
  · refine ⟨[0], by simp, ?_, ?_⟩
    · unfold decimal
      rw [if_pos hn]
      rfl
    · rw [hn]
      rfl
  · refine ⟨(Nat.digits 10 n).reverse, fun d hd => ?_, ?_, ?_⟩
    · exact Nat.digits_lt_base (by decide) (List.mem_reverse.mp hd)
    · unfold decimal
      rw [if_neg hn]
    · rw [List.reverse_reverse]
      exact Nat.ofDigits_digits 10 n

theorem decimal_inj {n m : Nat} (h : decimal n = decimal m) : n = m := by
  obtain ⟨l, hl, hwrite, hvalue⟩ := exists_digits n
  obtain ⟨l', hl', hwrite', hvalue'⟩ := exists_digits m
  rw [hwrite, hwrite'] at h
  rw [← hvalue, ← hvalue', map_digit_inj hl hl' h]

/-- Every byte of a numeral is a digit. -/
theorem mem_decimal {n : Nat} {b : UInt8} (h : b ∈ decimal n) : 48 ≤ b.toNat ∧ b.toNat ≤ 57 := by
  obtain ⟨l, hl, hwrite, _⟩ := exists_digits n
  rw [hwrite] at h
  obtain ⟨d, hd, rfl⟩ := List.mem_map.mp h
  have hlt := hl d hd
  rw [UInt8.toNat_ofNat_of_lt' (by show 48 + d < 256; omega)]
  omega

theorem signedDecimal_inj {x y : Int} (h : signedDecimal x = signedDecimal y) : x = y := by
  -- a numeral does not begin with a minus sign
  have hsign : ∀ n m, decimal n ≠ 45 :: decimal m := by
    intro n m heq
    have hmem : (45 : UInt8) ∈ decimal n := by
      rw [heq]
      exact List.mem_cons_self
    exact absurd (mem_decimal hmem).1 (by decide)
  cases x with
  | ofNat n =>
    cases y with
    | ofNat m => rw [decimal_inj h]
    | negSucc m => exact absurd h (hsign _ _)
  | negSucc n =>
    cases y with
    | ofNat m => exact absurd h.symm (hsign _ _)
    | negSucc m =>
      have heq := decimal_inj (List.cons.inj h).2
      rw [Nat.succ.inj heq]

/-- What comes before the first separator, and what after it. -/
theorem append_cons_inj {α : Type} {sep : α} {l l' r r' : List α} (hl : sep ∉ l) (hl' : sep ∉ l')
    (h : l ++ sep :: r = l' ++ sep :: r') : l = l' ∧ r = r' := by
  induction l generalizing l' with
  | nil =>
    cases l' with
    | nil => exact ⟨rfl, (List.cons.inj h).2⟩
    | cons x l' =>
      obtain ⟨rfl, _⟩ := List.cons.inj h
      exact absurd List.mem_cons_self hl'
  | cons x l ih =>
    cases l' with
    | nil =>
      obtain ⟨rfl, _⟩ := List.cons.inj h
      exact absurd List.mem_cons_self hl
    | cons y l' =>
      obtain ⟨rfl, hrest⟩ := List.cons.inj h
      obtain ⟨rfl, hr⟩ := ih (fun hm => hl (List.mem_cons_of_mem _ hm)) (fun hm => hl' (List.mem_cons_of_mem _ hm))
        hrest
      exact ⟨rfl, hr⟩

/-- **A byte string after its length can be told from what follows.** -/
theorem netstring_prefixFree : PrefixFree netstring := by
  intro x y r r' h
  have hcolon : ∀ n, (58 : UInt8) ∉ decimal n := fun n hm => absurd (mem_decimal hm).2 (by decide)
  unfold netstring at h
  rw [List.append_assoc, List.append_assoc, List.cons_append, List.cons_append] at h
  obtain ⟨hlen, hrest⟩ := append_cons_inj (hcolon _) (hcolon _) h
  exact List.append_inj hrest (decimal_inj hlen)

end Atlantis.Lib
