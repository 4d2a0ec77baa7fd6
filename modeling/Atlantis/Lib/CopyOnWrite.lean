import Mathlib.Data.List.Infix

/-!
# `Lib.CopyOnWrite` — cells with a one-way flag

A store of cells, each with a value and a flag that says whether the cell has been captured. Captured cells are not
written: a holder that wants to write one moves to a copy. The flag is never taken back.

`Owned` is the invariant: a cell that is not flagged has at most one holder, and everything that was captured is
flagged. It is kept by what a holder does: write its own cell or flag one (`Owned.mono`), move to a cell that is new
(`Owned.fresh`) or to a flagged one (`Owned.point`). None of them changes what another holder, or a capture, reads.
-/

namespace Atlantis.Lib
namespace Cow

/-- A cell: its value, and whether it has been captured. -/
structure Cell (α : Type) where
  value : α
  shared : Bool
  deriving DecidableEq, Repr

/-- The cells allocated so far; a pointer is an index. -/
abbrev Store (α : Type) := List (Cell α)

variable {α : Type}

def read (s : Store α) (p : Nat) : Option α := s[p]?.map Cell.value

/-- The cell has been captured. -/
def Shared (s : Store α) (p : Nat) : Prop := ∃ c, s[p]? = some c ∧ c.shared = true

def share (s : Store α) (p : Nat) : Store α := s.modify p fun c => { c with shared := true }

def write (s : Store α) (p : Nat) (a : α) : Store α := s.modify p fun c => { c with value := a }

/-- The cell to write instead of `p`: itself, or a copy at the end of the store. -/
def writable (s : Store α) (p : Nat) : Store α × Nat :=
  match s[p]? with
  | some c => if c.shared then (s ++ [{ value := c.value, shared := false }], s.length) else (s, p)
  | none => (s, p)

variable {ι : Type} {s s' : Store α} {p q p' : Nat} {a : α}

@[simp] theorem length_share : (share s p).length = s.length := List.length_modify ..

@[simp] theorem length_write : (write s p a).length = s.length := List.length_modify ..

theorem getElem?_share : (share s p)[q]? = if p = q then s[q]?.map fun c => { c with shared := true } else s[q]? := by
  unfold share
  rw [List.getElem?_modify]
  split <;> simp

@[simp] theorem read_share : read (share s p) q = read s q := by
  unfold read
  rw [getElem?_share]
  split
  · rw [Option.map_map]
    rfl
  · rfl

theorem getElem?_write : (write s p a)[q]? = if p = q then s[q]?.map fun c => { c with value := a } else s[q]? := by
  unfold write
  rw [List.getElem?_modify]
  split <;> simp

theorem read_write_self (h : p < s.length) : read (write s p a) p = some a := by
  unfold read
  rw [getElem?_write, if_pos rfl, List.getElem?_eq_getElem h]
  rfl

theorem read_write_of_ne (h : p ≠ q) : read (write s p a) q = read s q := by
  unfold read
  rw [getElem?_write, if_neg h]

theorem shared_share_self (h : p < s.length) : Shared (share s p) p := by
  refine ⟨{ value := s[p].value, shared := true }, ?_, rfl⟩
  rw [getElem?_share, if_pos rfl, List.getElem?_eq_getElem h]
  rfl

theorem Shared.share (h : Shared s q) : Shared (share s p) q := by
  obtain ⟨c, hc, hshared⟩ := h
  rw [Shared, getElem?_share]
  split
  · exact ⟨{ c with shared := true }, by rw [hc]; rfl, rfl⟩
  · exact ⟨c, hc, hshared⟩

theorem shared_write : Shared (write s p a) q ↔ Shared s q := by
  unfold Shared
  rw [getElem?_write]
  split
  · cases h : s[q]? with
    | none => simp
    | some c => simp
  · exact Iff.rfl

theorem Shared.lt (h : Shared s p) : p < s.length := by
  obtain ⟨c, hc, _⟩ := h
  exact (List.getElem?_eq_some_iff.mp hc).1

theorem getElem?_of_append (h : s <+: s') (hp : p < s.length) : s'[p]? = s[p]? := by
  obtain ⟨t, rfl⟩ := h
  exact List.getElem?_append_left hp

theorem read_of_append (h : s <+: s') (hp : p < s.length) : read s' p = read s p := by
  unfold read
  rw [getElem?_of_append h hp]

theorem Shared.append (h : s <+: s') (hp : Shared s p) : Shared s' p := by
  obtain ⟨c, hc, hshared⟩ := hp
  exact ⟨c, (getElem?_of_append h (List.getElem?_eq_some_iff.mp hc).1).trans hc, hshared⟩

/-- **The invariant.** `hold` are the pointers that are written through, `caught` the captured ones. -/
structure Owned (s : Store α) (hold : ι → Option Nat) (caught : Nat → Prop) : Prop where
  bound : ∀ i p, hold i = some p → p < s.length
  caught : ∀ p, caught p → Shared s p
  exclusive : ∀ i j p, hold i = some p → hold j = some p → ¬ Shared s p → i = j

variable {hold : ι → Option Nat} {caught : Nat → Prop} {i j : ι}

/-- Cells stay and stay flagged, holders let go or move to flagged cells, and flagged cells are captured. -/
theorem Owned.mono {hold' : ι → Option Nat} {caught' : Nat → Prop} (h : Owned s hold caught)
    (hlen : s.length ≤ s'.length) (hshared : ∀ p, Shared s p → Shared s' p)
    (hhold : ∀ i p, hold' i = some p → hold i = some p) (hcaught : ∀ p, caught' p → caught p ∨ Shared s' p) :
    Owned s' hold' caught' where
  bound i p hi := Nat.lt_of_lt_of_le (h.bound i p (hhold i p hi)) hlen
  caught p hp := by
    rcases hcaught p hp with hp | hp
    · exact hshared p (h.caught p hp)
    · exact hp
  exclusive i j p hi hj hunshared := h.exclusive i j p (hhold i p hi) (hhold j p hj) fun hp => hunshared (hshared p hp)

/-- Cells are added. -/
theorem Owned.grow (h : Owned s hold caught) (hs : s <+: s') : Owned s' hold caught :=
  h.mono hs.length_le (fun _ => Shared.append hs) (fun _ _ hi => hi) fun _ hp => .inl hp

variable [DecidableEq ι]

/-- A holder moves to a cell that is flagged, or that has no holder. -/
theorem Owned.point (h : Owned s hold caught) (hlt : p < s.length) (hp : ¬ Shared s p → ∀ j, hold j ≠ some p) :
    Owned s (Function.update hold i (some p)) caught where
  bound j q hj := by
    rw [Function.update_apply] at hj
    split at hj
    · exact Option.some.inj hj ▸ hlt
    · exact h.bound j q hj
  caught := h.caught
  exclusive j k q hj hk hunshared := by
    rw [Function.update_apply] at hj hk
    split at hj <;> split at hk
    · rename_i hji hki
      rw [hji, hki]
    · obtain rfl := Option.some.inj hj
      exact absurd hk (hp hunshared k)
    · obtain rfl := Option.some.inj hk
      exact absurd hj (hp hunshared j)
    · exact h.exclusive j k q hj hk hunshared

/-- A holder moves to a cell that was not there before. -/
theorem Owned.fresh (h : Owned s hold caught) (hs : s <+: s') (hp : s.length ≤ p) (hp' : p < s'.length) :
    Owned s' (Function.update hold i (some p)) caught :=
  (h.grow hs).point hp' fun _ j hj => absurd (h.bound j p hj) (Nat.not_lt.mpr hp)

/-! ## One write -/

/-- **What a write does to the store**, by a holder that goes from `p` to `p'`: nothing, to a cell that is new, or to its
    own cell, which is not flagged. -/
inductive Moved (s : Store α) (p : Nat) : Store α → Nat → Prop where
  | stay : Moved s p s p
  | fresh (c : Cell α) : Moved s p (s ++ [c]) s.length
  | inPlace (a : α) : ¬ Shared s p → p < s.length → Moved s p (write s p a) p

theorem append_write (hs : s <+: s') (hp : s.length ≤ p) : s <+: write s' p a := by
  rw [List.prefix_iff_getElem?] at hs ⊢
  intro q hq
  rw [getElem?_write, if_neg (Nat.ne_of_gt (Nat.lt_of_lt_of_le hq hp))]
  exact hs q hq

theorem read_concat_of_ne {c : Cell α} (hq : q ≠ s.length) : read (s ++ [c]) q = read s q := by
  unfold read
  rw [List.getElem?_append]
  split
  · rfl
  · rename_i hge
    rw [List.getElem?_eq_none (Nat.le_of_not_lt hge), List.getElem?_eq_none]
    show 1 ≤ q - s.length
    omega

/-- The cell to write, and the cell written. -/
theorem moved_writable (hp : p < s.length) : Moved s p (writable s p).1 (writable s p).2 ∧
    read (writable s p).1 (writable s p).2 = read s p ∧
    ∀ a, Moved s p (write (writable s p).1 (writable s p).2 a) (writable s p).2 ∧
      read (write (writable s p).1 (writable s p).2 a) (writable s p).2 = some a := by
  have hcell : s[p]? = some s[p] := List.getElem?_eq_getElem hp
  unfold writable
  rw [hcell]
  dsimp only
  split
  · have hwrite : ∀ (c : Cell α) a, write (s ++ [c]) s.length a = s ++ [{ c with value := a }] :=
      fun c a => List.modifyTailIdx_add _ 0 s [c]
    refine ⟨.fresh _, ?_, fun a => ⟨hwrite _ a ▸ .fresh _, read_write_self (by simp)⟩⟩
    unfold read
    rw [hcell, List.getElem?_concat_length]
    rfl
  · rename_i hshared
    have hunshared : ¬ Shared s p := by
      rintro ⟨c, hc, htrue⟩
      rw [hcell] at hc
      exact hshared (Option.some.inj hc ▸ htrue)
    exact ⟨.stay, rfl, fun a => ⟨.inPlace a hunshared hp, read_write_self hp⟩⟩

/-- Cells other than the holder's are as they were. -/
theorem Moved.read_of_ne (h : Moved s p s' p') (hq : q ≠ p') : read s' q = read s q := by
  cases h with
  | stay => rfl
  | fresh c => exact read_concat_of_ne hq
  | inPlace a _ _ => exact read_write_of_ne (Ne.symm hq)

/-- Flagged cells are not written. -/
theorem Moved.read_shared (h : Moved s p s' p') (hq : Shared s q) : read s' q = read s q := by
  cases h with
  | stay => rfl
  | fresh c => exact read_concat_of_ne hq.lt.ne
  | inPlace a hunshared _ =>
    apply read_write_of_ne
    rintro rfl
    exact hunshared hq

omit [DecidableEq ι] in
/-- The cells of other holders are not written. -/
theorem Owned.read_moved (h : Owned s hold caught) (hi : hold i = some p) (hm : Moved s p s' p') (hij : j ≠ i)
    (hj : hold j = some q) : read s' q = read s q := by
  cases hm with
  | stay => rfl
  | fresh c => exact read_concat_of_ne (h.bound j q hj).ne
  | inPlace a hunshared _ =>
    refine read_write_of_ne ?_
    rintro rfl
    exact hij (h.exclusive j i p hj hi hunshared)

theorem Owned.moved (h : Owned s hold caught) (hi : hold i = some p) (hm : Moved s p s' p') :
    Owned s' (Function.update hold i (some p')) caught := by
  have hself : Function.update hold i (some p) = hold := by
    rw [← hi]
    exact Function.update_eq_self i hold
  cases hm with
  | stay =>
    rw [hself]
    exact h
  | fresh c => exact h.fresh (List.prefix_append ..) le_rfl (by simp)
  | inPlace a _ _ =>
    rw [hself]
    exact h.mono length_write.ge (fun _ => shared_write.mpr) (fun _ _ hi => hi) fun _ hp => .inl hp

/-- A write of a new cell is to new cells. -/
theorem Moved.new {s₀ : Store α} (hs : s₀ <+: s) (hle : s₀.length ≤ p) (hlt : p < s.length)
    (hm : Moved s p s' p') : s₀ <+: s' ∧ s₀.length ≤ p' ∧ p' < s'.length := by
  cases hm with
  | stay => exact ⟨hs, hle, hlt⟩
  | fresh c => exact ⟨hs.trans (List.prefix_append ..), hs.length_le, by simp⟩
  | inPlace a _ _ =>
    refine ⟨append_write hs hle, hle, ?_⟩
    rw [length_write]
    exact hlt

end Cow
end Atlantis.Lib
