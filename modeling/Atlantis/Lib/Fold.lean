import Mathlib.Data.List.Basic

/-!
# `Lib.Fold` — computations that may fail, and finite maps

Rules for `Except` and for folding a fallible step over a list: what an invariant of the step says about a
fold that succeeded, and when a fold succeeds. The invariant sees the part of the list already done.

`IsMap f l` reads a function into `Option` as the finite map with the entries `l`.
-/

namespace Atlantis.Lib

/-! ## Peeling computations -/

variable {ε α β : Type} {x : Except ε α}

/-- Peel one step off a computation that succeeded. -/
theorem bind_ok {f : α → Except ε β} {b : β} (h : (x >>= f) = .ok b) : ∃ a, x = .ok a ∧ f a = .ok b := by
  cases x with
  | error e => cases h
  | ok a => exact ⟨a, rfl, h⟩

theorem bind_eq_ok {f : α → Except ε β} {b : β} : (x >>= f) = .ok b ↔ ∃ a, x = .ok a ∧ f a = .ok b := by
  constructor
  · exact bind_ok
  · rintro ⟨a, rfl, h⟩
    exact h

theorem map_ok {f : α → β} {b : β} (h : x.map f = .ok b) : ∃ a, x = .ok a ∧ f a = b := by
  cases x with
  | error e => cases h
  | ok a => exact ⟨a, rfl, Except.ok.inj h⟩

theorem mapError_ok {ε' : Type} {f : ε → ε'} {a : α} (h : x.mapError f = .ok a) : x = .ok a := by
  cases x with
  | error err => cases h
  | ok b => exact congrArg _ (Except.ok.inj h)

theorem exists_ok (h : x.isOk = true) : ∃ a, x = .ok a := by
  cases x with
  | error e => cases h
  | ok a => exact ⟨a, rfl⟩

theorem eq_ok_of_toOption {a : α} (h : x.toOption = some a) : x = .ok a := by
  cases x with
  | error e => cases h
  | ok b => exact congrArg _ (Option.some.inj h)

/-- What a computation returns can be tested. -/
instance decidableExistsOk {p : α → Prop} [DecidablePred p] : (x : Except ε α) → Decidable (∃ a, x = .ok a ∧ p a)
  | .error _ => .isFalse nofun
  | .ok a => decidable_of_iff (p a) ⟨fun h => ⟨a, rfl, h⟩, fun ⟨_, heq, h⟩ => Except.ok.inj heq ▸ h⟩

instance decidableIsOk : (x : Except ε α) → Decidable (∃ a, x = .ok a)
  | .error _ => .isFalse nofun
  | .ok a => .isTrue ⟨a, rfl⟩

instance decidableEqError [DecidableEq ε] (e : ε) : (x : Except ε α) → Decidable (x = .error e)
  | .error e' => decidable_of_iff (e' = e) ⟨congrArg _, Except.error.inj⟩
  | .ok _ => .isFalse nofun

instance decidableExistsSome {p : α → Prop} [DecidablePred p] : (o : Option α) → Decidable (∃ a, o = some a ∧ p a)
  | none => .isFalse nofun
  | some a => decidable_of_iff (p a) ⟨fun h => ⟨a, rfl, h⟩, fun ⟨_, heq, h⟩ => Option.some.inj heq ▸ h⟩

variable {ε σ α : Type} {f : σ → α → Except ε σ}

variable {xs : List α} {s s' : σ} {I : List α → σ → Prop}

/-- **Simulation rule.** A fold that succeeds on one state succeeds on a related one. -/
theorem foldlM_simulation {τ : Type} {g : τ → α → Except ε τ} {R : σ → τ → Prop} {t : τ} (hR : R s t)
    (step : ∀ x ∈ xs, ∀ s s' t, R s t → f s x = .ok s' → ∃ t', g t x = .ok t' ∧ R s' t') (h : xs.foldlM f s = .ok s') :
    ∃ t', xs.foldlM g t = .ok t' ∧ R s' t' := by
  induction xs generalizing s t with
  | nil =>
    cases h
    exact ⟨t, rfl, hR⟩
  | cons x xs ih =>
    obtain ⟨s₁, h₁, h⟩ := bind_ok h
    obtain ⟨t₁, ht₁, hR₁⟩ := step x List.mem_cons_self s s₁ t hR h₁
    obtain ⟨t', ht', hR'⟩ := ih hR₁ (fun x hx => step x (List.mem_cons_of_mem _ hx)) h
    refine ⟨t', ?_, hR'⟩
    rw [List.foldlM_cons, ht₁]
    exact ht'

/-- A fold whose steps make `g` of the state, where they succeed, makes the fold of `g`. -/
theorem foldlM_foldl {g : σ → α → σ} (hf : ∀ x s s', f s x = .ok s' → s' = g s x) (h : xs.foldlM f s = .ok s') :
    s' = xs.foldl g s := by
  induction xs generalizing s with
  | nil => exact (Except.ok.inj h).symm
  | cons x xs ih =>
    obtain ⟨s₁, h₁, h⟩ := bind_ok h
    rw [List.foldl_cons, ← hf x s s₁ h₁]
    exact ih h

/-- Every step of a fold that succeeded did. -/
theorem foldlM_step {x : α} (hx : x ∈ xs) (h : xs.foldlM f s = .ok s') : ∃ s₁ s₂, f s₁ x = .ok s₂ := by
  induction xs generalizing s with
  | nil => cases hx
  | cons y xs ih =>
    obtain ⟨s₁, h₁, h⟩ := bind_ok h
    rcases List.mem_cons.mp hx with rfl | hx
    · exact ⟨s, s₁, h₁⟩
    · exact ih hx h

/-- **Invariant rule.** What every successful step keeps holds at the end of a fold that succeeded. -/
theorem foldlM_invariant (h₀ : I [] s)
    (step : ∀ pre x rest s s', xs = pre ++ x :: rest → I pre s → f s x = .ok s' → I (pre ++ [x]) s')
    (h : xs.foldlM f s = .ok s') : I xs s' := by
  have hgen : ∀ (rest pre : List α) (s : σ), xs = pre ++ rest → I pre s → rest.foldlM f s = .ok s' → I xs s' := by
    intro rest
    induction rest with
    | nil =>
      intro pre s hxs hI hrun
      cases hrun
      rw [hxs, List.append_nil]
      exact hI
    | cons x rest ih =>
      intro pre s hxs hI hrun
      obtain ⟨s₁, hx, hrest⟩ := bind_ok hrun
      refine ih (pre ++ [x]) s₁ ?_ (step pre x rest s s₁ hxs hI hx) hrest
      rw [hxs, List.append_assoc, List.singleton_append]
  exact hgen xs [] s rfl h₀ h

/-- **Progress rule.** A fold whose every step can be taken, and keeps the invariant, succeeds. -/
theorem foldlM_total (h₀ : I [] s)
    (step : ∀ pre x rest s, xs = pre ++ x :: rest → I pre s → ∃ s', f s x = .ok s' ∧ I (pre ++ [x]) s') :
    ∃ s', xs.foldlM f s = .ok s' ∧ I xs s' := by
  have hgen : ∀ (rest pre : List α) (s : σ), xs = pre ++ rest → I pre s →
      ∃ s', rest.foldlM f s = .ok s' ∧ I xs s' := by
    intro rest
    induction rest with
    | nil =>
      intro pre s hxs hI
      refine ⟨s, rfl, ?_⟩
      rw [hxs, List.append_nil]
      exact hI
    | cons x rest ih =>
      intro pre s hxs hI
      obtain ⟨s₁, hx, hI₁⟩ := step pre x rest s hxs hI
      have hxs₁ : xs = (pre ++ [x]) ++ rest := by rw [hxs, List.append_assoc, List.singleton_append]
      obtain ⟨s', hrun, hI'⟩ := ih (pre ++ [x]) s₁ hxs₁ hI₁
      refine ⟨s', ?_, hI'⟩
      rw [List.foldlM_cons, hx]
      exact hrun
  exact hgen xs [] s rfl h₀

variable {ε α β : Type} {f : α → Except ε β} {xs : List α} {ys : List β}

/-- A map succeeds if it does on every element. -/
theorem mapM_ok_iff : xs.mapM f = .ok ys ↔ List.Forall₂ (fun x y => f x = .ok y) xs ys := by
  constructor
  · intro h
    induction xs generalizing ys with
    | nil =>
      cases h
      exact .nil
    | cons x xs ih =>
      rw [List.mapM_cons] at h
      obtain ⟨y, hy, h⟩ := bind_ok h
      obtain ⟨ys', hys, h⟩ := bind_ok h
      cases h
      exact .cons hy (ih hys)
  · intro h
    induction h with
    | nil => rfl
    | cons hy _ ih =>
      rw [List.mapM_cons, hy, ih]
      rfl

/-- A map that succeeded has the value of every element, and no others. -/
theorem mapM_mem (h : xs.mapM f = .ok ys) :
    (∀ x ∈ xs, ∃ y ∈ ys, f x = .ok y) ∧ ∀ y ∈ ys, ∃ x ∈ xs, f x = .ok y := by
  rw [mapM_ok_iff] at h
  induction h with
  | nil => simp
  | @cons x y xs ys hy _ ih =>
    simp only [List.mem_cons, forall_eq_or_imp, exists_eq_or_imp]
    exact ⟨⟨.inl hy, fun z hz => .inr (ih.1 z hz)⟩, .inl hy, fun z hz => .inr (ih.2 z hz)⟩

/-- A map that succeeds on certain elements only, with a value that is known. -/
theorem mapM_eq_ok_iff {g : α → β} {p : α → Prop} (h : ∀ x y, f x = .ok y ↔ p x ∧ y = g x) :
    xs.mapM f = .ok ys ↔ (∀ x ∈ xs, p x) ∧ ys = xs.map g := by
  induction xs generalizing ys with
  | nil => exact ⟨fun h => ⟨List.forall_mem_nil _, (Except.ok.inj h).symm⟩, fun h => congrArg Except.ok h.2.symm⟩
  | cons x xs ih =>
    simp only [List.mapM_cons, bind_eq_ok, h, ih, List.forall_mem_cons]
    constructor
    · rintro ⟨_, ⟨hx, rfl⟩, _, ⟨hxs, rfl⟩, hys⟩
      exact ⟨⟨hx, hxs⟩, (Except.ok.inj hys).symm⟩
    · rintro ⟨⟨hx, hxs⟩, rfl⟩
      exact ⟨_, ⟨hx, rfl⟩, _, ⟨hxs, rfl⟩, rfl⟩

theorem mapM_total (h : ∀ x ∈ xs, ∃ y, f x = .ok y) : ∃ ys, xs.mapM f = .ok ys := by
  induction xs with
  | nil => exact ⟨[], rfl⟩
  | cons x xs ih =>
    obtain ⟨y, hy⟩ := h x List.mem_cons_self
    obtain ⟨ys, hys⟩ := ih fun z hz => h z (List.mem_cons_of_mem _ hz)
    exact ⟨y :: ys, by rw [List.mapM_cons, hy, hys]; rfl⟩

/-! ## Counting -/

/-- A map that takes some elements out of `p`, and none in, lowers their number. -/
theorem countP_map_lt_countP {f : α → α} {p : α → Bool} {l : List α} (hle : ∀ x, p (f x) = true → p x = true)
    (hx : ∃ x ∈ l, p x = true ∧ p (f x) = false) : (l.map f).countP p < l.countP p := by
  have hmono : ∀ l : List α, (l.map f).countP p ≤ l.countP p := by
    intro l
    rw [List.countP_map]
    exact List.countP_mono_left fun x _ hx => hle x hx
  obtain ⟨x, hx, hpx, hpfx⟩ := hx
  obtain ⟨before, after, rfl⟩ := List.append_of_mem hx
  have hbefore := hmono before
  have hafter := hmono after
  simp only [List.map_append, List.map_cons, List.countP_append, List.countP_cons, hpx, hpfx, if_true, Bool.false_eq_true,
    if_false]
  omega

/-! ## Finite maps -/

/-- `f` is the map with the entries `l`. -/
def IsMap {β : Type} (f : String → Option β) (l : List (String × β)) : Prop := ∀ n b, f n = some b ↔ (n, b) ∈ l

namespace IsMap

variable {β : Type} {f g : String → Option β} {l l' : List (String × β)} {n : String} {b : β}

theorem empty : IsMap (fun _ => (none : Option β)) [] := by
  intro n b
  simp

theorem add (h : IsMap f l) (hn : f n = none) : IsMap (Function.update f n (some b)) (l ++ [(n, b)]) := by
  intro m c
  by_cases hm : m = n
  · subst hm
    have hout : (m, c) ∉ l := by
      intro hmem
      rw [← h, hn] at hmem
      cases hmem
    simp [hout, eq_comm]
  · rw [Function.update_of_ne hm, h]
    simp [hm]

theorem eq_none (h : IsMap f l) : f n = none ↔ n ∉ l.map Prod.fst := by
  rw [Option.eq_none_iff_forall_not_mem]
  constructor
  · intro hno hmem
    obtain ⟨⟨m, b⟩, hb, rfl⟩ := List.mem_map.mp hmem
    exact hno b ((h m b).mpr hb)
  · intro hno b hb
    exact hno (List.mem_map.mpr ⟨(n, b), (h n b).mp hb, rfl⟩)

theorem map {α γ : Type} {l : List α} {name : α → String} {body : α → β} (h : IsMap f (l.map fun a => (name a, body a)))
    (g : String → β → γ) : IsMap (fun n => (f n).map (g n)) (l.map fun a => (name a, g (name a) (body a))) := by
  intro n c
  simp only [Option.map_eq_some_iff, h n _, List.mem_map, Prod.mk.injEq]
  constructor
  · rintro ⟨_, ⟨a, ha, rfl, rfl⟩, rfl⟩
    exact ⟨a, ha, rfl, rfl⟩
  · rintro ⟨a, ha, rfl, rfl⟩
    exact ⟨_, ⟨a, ha, rfl, rfl⟩, rfl⟩

theorem congr (h : IsMap f l) (hl : ∀ x, x ∈ l ↔ x ∈ l') : IsMap f l' := fun n b => (h n b).trans (hl (n, b))

/-- The entries determine the map. -/
theorem unique (h : IsMap f l) (h' : IsMap g l) : f = g := by
  funext n
  apply Option.ext
  intro b
  exact (h n b).trans (h' n b).symm

end IsMap

end Atlantis.Lib
