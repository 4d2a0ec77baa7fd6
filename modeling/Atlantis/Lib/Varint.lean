import Mathlib.Algebra.Group.Nat.Defs
import Mathlib.Data.List.Basic

/-!
# `Lib.Varint` — byte strings that can be taken apart again

A code is *prefix-free* when what stands behind a code word can be told from the word itself. Such codes may
be written one after the other and nothing is lost; `PrefixFree.flatMap` says so for a run of words whose
number is known. The base-128 numbers of Go's `encoding/binary` are a code of this kind (`uvarint`, and
`varint` for signed numbers), and so is a byte string behind its length (`frame`).

`readUvarint` is the reader with its two limits, ten bytes and 64 bits; it reads back what `uvarint` writes
for every number that fits (`readUvarint_uvarint`).
-/

namespace Atlantis.Lib

abbrev Bytes := List UInt8

/-! ## Codes -/

variable {α β γ : Type}

/-- What follows a code word can be told from it. -/
def PrefixFree (enc : α → List β) : Prop :=
  ∀ (x y : α) (r r' : List β), enc x ++ r = enc y ++ r' → x = y ∧ r = r'

/-- A code of names is a code of what has the names. -/
theorem PrefixFree.comp {enc : α → List β} (h : PrefixFree enc) {f : γ → α} (hf : Function.Injective f) :
    PrefixFree fun x => enc (f x) := by
  intro x y r r' heq
  obtain ⟨hxy, hr⟩ := h _ _ _ _ heq
  exact ⟨hf hxy, hr⟩

/-- Runs of as many code words can be taken apart, word by word. -/
theorem PrefixFree.flatMap {enc : α → List β} (h : PrefixFree enc) {xs ys : List α} {r r' : List β}
    (hlen : xs.length = ys.length) (heq : xs.flatMap enc ++ r = ys.flatMap enc ++ r') : xs = ys ∧ r = r' := by
  induction xs generalizing ys with
  | nil =>
    have hys : ys = [] := List.length_eq_zero_iff.mp hlen.symm
    subst hys
    exact ⟨rfl, heq⟩
  | cons x xs ih =>
    cases ys with
    | nil => cases hlen
    | cons y ys =>
      simp only [List.flatMap_cons, List.append_assoc] at heq
      obtain ⟨rfl, hrest⟩ := h _ _ _ _ heq
      obtain ⟨rfl, hr⟩ := ih (Nat.succ.inj hlen) hrest
      exact ⟨rfl, hr⟩

/-! ## Numbers -/

/-- `binary.PutUvarint`: seven bits a byte, the lowest first, the top bit set on all but the last. -/
def uvarint (x : Nat) : Bytes :=
  if x < 128 then [UInt8.ofNat x] else UInt8.ofNat (x % 128 + 128) :: uvarint (x / 128)
termination_by x

/-- `binary.PutVarint`: the sign goes to the lowest bit. -/
def varint (v : Int) : Bytes := uvarint (if 0 ≤ v then 2 * v else -2 * v - 1).toNat

/-- `binary.Uvarint` from its `i`-th byte on: the number and the bytes behind it; `none` where Go reports a
    buffer that is too small or a number that is too large. -/
def readUvarintFrom (i : Nat) : Bytes → Option (Nat × Bytes)
  | [] => none
  | b :: bs =>
    if i = 10 then none
    else if b.toNat < 128 then
      if i = 9 ∧ b.toNat > 1 then none else some (b.toNat, bs)
    else (readUvarintFrom (i + 1) bs).map fun (x, rest) => (b.toNat % 128 + 128 * x, rest)

def readUvarint : Bytes → Option (Nat × Bytes) := readUvarintFrom 0

theorem toNat_byte {n : Nat} (h : n < 256) : (UInt8.ofNat n).toNat = n := by
  rw [UInt8.toNat_ofNat']
  exact Nat.mod_eq_of_lt h

theorem byte_inj {m n : Nat} (hm : m < 256) (hn : n < 256) (h : UInt8.ofNat m = UInt8.ofNat n) : m = n := by
  rw [← toNat_byte hm, ← toNat_byte hn, h]

theorem uvarint_prefixFree : PrefixFree uvarint := by
  intro x
  induction x using Nat.strongRecOn with
  | ind x ih =>
    intro y r r' heq
    rw [uvarint.eq_1 x, uvarint.eq_1 y] at heq
    -- the top bit of the first byte says whether the number ends there
    split at heq <;> split at heq <;> rename_i hx hy <;>
      simp only [List.cons_append, List.nil_append, List.cons.injEq] at heq <;> obtain ⟨hb, hrest⟩ := heq
    · exact ⟨byte_inj (by omega) (by omega) hb, hrest⟩
    · have := byte_inj (by omega) (by omega) hb
      omega
    · have := byte_inj (by omega) (by omega) hb
      omega
    · have hlow := byte_inj (by omega) (by omega) hb
      obtain ⟨hhigh, hr⟩ := ih (x / 128) (by omega) _ _ _ hrest
      exact ⟨by omega, hr⟩

theorem varint_prefixFree : PrefixFree varint := by
  refine uvarint_prefixFree.comp ?_
  intro v w h
  simp only at h
  split at h <;> split at h <;> omega

theorem readUvarintFrom_uvarint (i x : Nat) (rest : Bytes) (hi : i ≤ 9) (hx : x < 2 ^ (64 - 7 * i)) :
    readUvarintFrom i (uvarint x ++ rest) = some (x, rest) := by
  induction x using Nat.strongRecOn generalizing i with
  | ind x ih =>
    rw [uvarint]
    split
    · rename_i hlt
      have hb : (UInt8.ofNat x).toNat = x := toNat_byte (by omega)
      have hfit : ¬(i = 9 ∧ x > 1) := by
        rintro ⟨rfl, hbig⟩
        have htwo : x < 2 := hx
        omega
      simp only [List.cons_append, List.nil_append, readUvarintFrom, hb]
      rw [if_neg (by omega), if_pos hlt, if_neg hfit]
    · rename_i hge
      have hb : (UInt8.ofNat (x % 128 + 128)).toNat = x % 128 + 128 := toNat_byte (by omega)
      -- a number of more than seven bits leaves room for one more byte
      have hroom : 7 < 64 - 7 * i := by
        by_contra hsmall
        have hle : 2 ^ (64 - 7 * i) ≤ 2 ^ 7 := Nat.pow_le_pow_right (by omega) (by omega)
        omega
      have hsplit : 2 ^ (64 - 7 * i) = 2 ^ (64 - 7 * (i + 1)) * 128 := by
        rw [show 64 - 7 * i = (64 - 7 * (i + 1)) + 7 by omega, Nat.pow_add]
      have hrec := ih (x / 128) (by omega) (i + 1) (by omega) (by omega)
      simp only [List.cons_append, readUvarintFrom, hb, hrec, Option.map_some]
      rw [if_neg (by omega), if_neg (by omega)]
      have hval : (x % 128 + 128) % 128 + 128 * (x / 128) = x := by omega
      rw [hval]

/-- **The reader reads back what was written**, and leaves what follows. -/
theorem readUvarint_uvarint {x : Nat} (hx : x < 2 ^ 64) (rest : Bytes) :
    readUvarint (uvarint x ++ rest) = some (x, rest) :=
  readUvarintFrom_uvarint 0 x rest (by omega) hx

/-- Reading a number takes at least one byte. -/
theorem readUvarintFrom_length {i n : Nat} {b rest : Bytes} (h : readUvarintFrom i b = some (n, rest)) :
    rest.length < b.length := by
  induction b generalizing i n with
  | nil => cases h
  | cons c b ih =>
    rw [readUvarintFrom] at h
    split at h
    · cases h
    split at h
    · split at h
      · cases h
      · rw [← (Prod.mk.inj (Option.some.inj h)).2]
        exact Nat.lt_succ_self _
    · obtain ⟨⟨m, r⟩, hq, heq⟩ := Option.map_eq_some_iff.mp h
      obtain ⟨_, rfl⟩ := Prod.mk.inj heq
      exact Nat.lt_succ_of_lt (ih hq)

/-! ## Frames -/

/-- A byte string behind its length. -/
def frame (b : Bytes) : Bytes := uvarint b.length ++ b

theorem readUvarint_frame {b : Bytes} (h : b.length < 2 ^ 64) (rest : Bytes) :
    readUvarint (frame b ++ rest) = some (b.length, b ++ rest) := by
  rw [frame, List.append_assoc]
  exact readUvarint_uvarint h _

theorem frame_prefixFree : PrefixFree frame := by
  intro x y r r' heq
  simp only [frame, List.append_assoc] at heq
  obtain ⟨hlen, hrest⟩ := uvarint_prefixFree _ _ _ _ heq
  exact List.append_inj hrest hlen

end Atlantis.Lib
