import Mathlib.Data.List.Chain
import Mathlib.Data.Set.Basic

/-!
# `Lib.Ledger` — tokens that are given out once

A ledger says which token each name holds and which tokens are retired. It is sound if no token is held by two names
and none is both held and retired. A ledger follows another if names that stay keep their tokens, the tokens of names
that go are retired, and new names get tokens the old ledger does not know.

Soundness is kept from one ledger to the next (`Follows.sound`), and since nothing that was ever held is forgotten
(`held_or_retired`), soundness of every ledger in a history already means that no token is held by two names at any
two points of it (`holder_unique`).
-/

namespace Atlantis.Lib

/-- Who holds which token, and the tokens that nobody may hold again. -/
structure Ledger (ν κ : Type) where
  live : ν → Option κ
  retired : Set κ

namespace Ledger

variable {ν κ : Type} {l old new : Ledger ν κ} {n n' : ν} {k : κ}

/-- A token has one holder, who is not holding a retired one. -/
structure Sound (l : Ledger ν κ) : Prop where
  inj : ∀ {n n' k}, l.live n = some k → l.live n' = some k → n = n'
  disjoint : ∀ {n k}, l.live n = some k → k ∉ l.retired

/-- The tokens a ledger has seen. -/
def Known (l : Ledger ν κ) (k : κ) : Prop := k ∈ l.retired ∨ ∃ n, l.live n = some k

/-- The next ledger. -/
structure Follows (old new : Ledger ν κ) : Prop where
  kept : ∀ {n k k'}, old.live n = some k → new.live n = some k' → k' = k
  fresh : ∀ {n k}, old.live n = none → new.live n = some k → ¬ old.Known k
  apart : ∀ {n n' k}, old.live n = none → old.live n' = none → new.live n = some k → new.live n' = some k → n = n'
  retired : ∀ {k}, k ∈ new.retired ↔ k ∈ old.retired ∨ ∃ n, old.live n = some k ∧ new.live n = none

/-- The holder of a token, before the step: the same name, or nobody. -/
theorem Follows.holder (h : Follows old new) (hn : new.live n = some k) :
    old.live n = some k ∨ (old.live n = none ∧ ¬ old.Known k) := by
  cases hold : old.live n with
  | none => exact .inr ⟨rfl, h.fresh hold hn⟩
  | some k' =>
    obtain rfl := h.kept hold hn
    exact .inl rfl

/-- **A step keeps a ledger sound.** -/
theorem Follows.sound (h : Follows old new) (hold : old.Sound) : new.Sound where
  inj := by
    intro n n' k hn hn'
    rcases h.holder hn with hkept | ⟨hnone, hfresh⟩
    · rcases h.holder hn' with hkept' | ⟨_, hfresh'⟩
      · exact hold.inj hkept hkept'
      · exact absurd (.inr ⟨n, hkept⟩) hfresh'
    · rcases h.holder hn' with hkept' | ⟨hnone', _⟩
      · exact absurd (.inr ⟨n', hkept'⟩) hfresh
      · exact h.apart hnone hnone' hn hn'
  disjoint := by
    intro n k hn hk
    rcases h.holder hn with hkept | ⟨_, hfresh⟩
    · rcases h.retired.mp hk with hk | ⟨m, hm, hgone⟩
      · exact hold.disjoint hkept hk
      · -- the token was held by `n` alone, and `n` is still there
        obtain rfl := hold.inj hkept hm
        rw [hgone] at hn
        cases hn
    · rcases h.retired.mp hk with hk | ⟨m, hm, _⟩
      · exact hfresh (.inl hk)
      · exact hfresh (.inr ⟨m, hm⟩)

/-- What is held stays with its holder or is retired. -/
theorem Follows.held_or_retired (h : Follows old new) (hn : old.live n = some k) :
    new.live n = some k ∨ k ∈ new.retired := by
  cases hnew : new.live n with
  | none => exact .inr (h.retired.mpr (.inr ⟨n, hn, hnew⟩))
  | some k' =>
    obtain rfl := h.kept hn hnew
    exact .inl rfl

/-! ## Histories, newest ledger first -/

variable {h : List (Ledger ν κ)}

/-- The newest ledger accounts for everything that was ever held. -/
theorem held_or_retired (hchain : (l :: h).IsChain fun new old => Follows old new) {m : Ledger ν κ} (hm : m ∈ l :: h)
    (hn : m.live n = some k) : l.live n = some k ∨ k ∈ l.retired := by
  induction h generalizing l with
  | nil =>
    obtain rfl := List.mem_singleton.mp hm
    exact .inl hn
  | cons old h ih =>
    obtain ⟨hfollows, hchain⟩ := List.isChain_cons_cons.mp hchain
    rcases List.mem_cons.mp hm with rfl | hm
    · exact .inl hn
    · rcases ih hchain hm with hheld | hretired
      · exact hfollows.held_or_retired hheld
      · exact .inr (hfollows.retired.mpr (.inl hretired))

/-- **No token is ever held by two names.** -/
theorem holder_unique (hchain : h.IsChain fun new old => Follows old new) (hsound : ∀ l ∈ h, l.Sound)
    {l l' : Ledger ν κ} (hl : l ∈ h) (hl' : l' ∈ h) (hn : l.live n = some k) (hn' : l'.live n' = some k) : n = n' := by
  induction h with
  | nil => cases hl
  | cons top h ih =>
    have htop : ∀ {m : Ledger ν κ} {a b : ν}, m ∈ top :: h → m.live a = some k → top.live b = some k → a = b := by
      intro m a b hm ha hb
      rcases held_or_retired hchain hm ha with hheld | hretired
      · exact (hsound top List.mem_cons_self).inj hheld hb
      · exact absurd hretired ((hsound top List.mem_cons_self).disjoint hb)
    rcases List.mem_cons.mp hl with rfl | hmem
    · exact (htop hl' hn' hn).symm
    rcases List.mem_cons.mp hl' with rfl | hmem'
    · exact htop hl hn hn'
    · exact ih hchain.tail (fun l hl => hsound l (List.mem_cons_of_mem _ hl)) hmem hmem'

end Ledger
end Atlantis.Lib
