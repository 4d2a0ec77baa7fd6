import Atlantis.Lib.Fold

/-!
# `Lib.Reorder` — the same steps in another order

A list of steps is folded over a state and stops at the first that fails. Some steps may be delayed: where a delayed
step `y` finds the state `free` for it, a step `x` that came after it can just as well come before (`Passes`). Then a
list runs to the same state when delayed steps that stood at its front, in any order, go to their places
(`foldlM_of_front`), and when the second halves of its steps all go to the end (`foldlM_unzip`).
-/

namespace Atlantis.Lib

variable {ε σ α : Type} (f : σ → α → Except ε σ) (free : σ → α → Prop)

/-- Taking `x` leaves the state free for `y`. -/
def Keeps (x y : α) : Prop := ∀ {c c₁ : σ}, free c y → f c x = .ok c₁ → free c₁ y

/-- `x` after `y` can also be taken before it. -/
structure Passes (x y : α) : Prop where
  keeps : Keeps f free x y
  swap : ∀ {c c₁ c₂ : σ}, free c y → f c y = .ok c₁ → f c₁ x = .ok c₂ → ∃ c₃, f c x = .ok c₃ ∧ f c₃ y = .ok c₂

variable {f free} {c c₁ c₂ : σ} {x : α} {l ys : List α}

theorem foldlM_append_iff :
    (ys ++ l).foldlM f c = .ok c₁ ↔ ∃ c₀, ys.foldlM f c = .ok c₀ ∧ l.foldlM f c₀ = .ok c₁ := by
  rw [List.foldlM_append]
  exact bind_eq_ok

/-- One step moves in front of those it passes. -/
theorem foldlM_move (hpass : ∀ y ∈ ys, Passes f free x y) (hkeeps : ys.Pairwise fun y y' => Keeps f free y y')
    (hfree : ∀ y ∈ ys, free c y) (h : ys.foldlM f c = .ok c₁) (hx : f c₁ x = .ok c₂) :
    ∃ c₃, f c x = .ok c₃ ∧ ys.foldlM f c₃ = .ok c₂ := by
  induction ys generalizing c with
  | nil =>
    cases h
    exact ⟨c₂, hx, rfl⟩
  | cons y ys ih =>
    obtain ⟨cy, hy, h⟩ := bind_ok h
    obtain ⟨hhead, htail⟩ := List.pairwise_cons.mp hkeeps
    have hfree' : ∀ y' ∈ ys, free cy y' := fun y' hy' => hhead y' hy' (hfree y' (List.mem_cons_of_mem _ hy')) hy
    obtain ⟨c₄, hx', hrest⟩ := ih (fun y' hy' => hpass y' (List.mem_cons_of_mem _ hy')) htail hfree' h
    obtain ⟨c₃, hx₃, hy₃⟩ := (hpass y List.mem_cons_self).swap (hfree y List.mem_cons_self) hy hx'
    exact ⟨c₃, hx₃, bind_eq_ok.mpr ⟨_, hy₃, hrest⟩⟩

/-- **Delayed steps at the front**, in any order, can go to their places, if what stands before them there passes them. -/
theorem foldlM_of_front {p : α → Bool} {first : List α} (hperm : first.Perm (l.filter p))
    (hpass : l.Pairwise fun x y => p y = true → x ≠ y ∧ Passes f free x y)
    (hkeeps : ∀ x ∈ l, ∀ y ∈ l, x ≠ y → Keeps f free x y) (hfree : ∀ y ∈ l, p y = true → free c y)
    (h : (first ++ l.filter fun x => !p x).foldlM f c = .ok c₁) : l.foldlM f c = .ok c₁ := by
  induction l generalizing first c with
  | nil =>
    obtain rfl := hperm.eq_nil
    exact h
  | cons x l ih =>
    obtain ⟨hhead, htail⟩ := List.pairwise_cons.mp hpass
    have hkeepsTail : ∀ x ∈ l, ∀ y ∈ l, x ≠ y → Keeps f free x y :=
      fun x hx y hy => hkeeps x (List.mem_cons_of_mem _ hx) y (List.mem_cons_of_mem _ hy)
    -- `x` moves in front of the delayed steps `ys`, which come after it in the list
    have hmove : ∀ {ys zs rest : List α}, (ys ++ zs).Perm (l.filter p) → (ys ++ x :: (zs ++ rest)).foldlM f c = .ok c₁ →
        ∃ c₀, f c x = .ok c₀ ∧ (∀ y ∈ l, p y = true → free c₀ y) ∧ (ys ++ zs ++ rest).foldlM f c₀ = .ok c₁ := by
      intro ys zs rest hrest h
      have hys : ∀ y ∈ ys, y ∈ l ∧ p y = true :=
        fun y hy => List.mem_filter.mp (hrest.mem_iff.mp (List.mem_append_left _ hy))
      have hdistinct : (l.filter p).Nodup :=
        (htail.filter p).imp_of_mem fun _ hy hxy => (hxy (List.mem_filter.mp hy).2).1
      have hpairs : ys.Pairwise (Keeps f free) :=
        (List.nodup_append.mp (hrest.nodup_iff.mpr hdistinct)).1.imp_of_mem
          fun hy hy' hne => hkeepsTail _ (hys _ hy).1 _ (hys _ hy').1 hne
      obtain ⟨ca, ha, h⟩ := foldlM_append_iff.mp h
      obtain ⟨cb, hb, h⟩ := bind_ok h
      obtain ⟨c₀, hx, hmoved⟩ := foldlM_move (fun y hy => (hhead y (hys y hy).1 (hys y hy).2).2) hpairs
        (fun y hy => hfree y (List.mem_cons_of_mem _ (hys y hy).1) (hys y hy).2) ha hb
      refine ⟨c₀, hx, ?_, ?_⟩
      · intro y hy hp
        exact (hhead y hy hp).2.keeps (hfree y (List.mem_cons_of_mem _ hy) hp) hx
      · rw [List.append_assoc]
        exact foldlM_append_iff.mpr ⟨_, hmoved, h⟩
    by_cases hp : p x = true
    · rw [List.filter_cons_of_neg (by simp [hp])] at h
      rw [List.filter_cons_of_pos hp] at hperm
      obtain ⟨ys, zs, rfl⟩ := List.append_of_mem (hperm.mem_iff.mpr List.mem_cons_self)
      rw [List.append_assoc] at h
      have hrest : (ys ++ zs).Perm (l.filter p) := List.Perm.cons_inv (List.perm_middle.symm.trans hperm)
      obtain ⟨c₀, hx, hfree₀, h⟩ := hmove hrest h
      exact bind_eq_ok.mpr ⟨_, hx, ih hrest htail hkeepsTail hfree₀ h⟩
    · rw [List.filter_cons_of_pos (by simp [hp])] at h
      rw [List.filter_cons_of_neg hp] at hperm
      obtain ⟨c₀, hx, hfree₀, h⟩ := @hmove first [] _ (by rwa [List.append_nil]) h
      rw [List.append_nil] at h
      exact bind_eq_ok.mpr ⟨_, hx, ih hperm htail hkeepsTail hfree₀ h⟩

/-- One delayed step goes behind those that pass it. -/
theorem foldlM_delay {y : α} (hpass : ∀ x ∈ l, Passes f free x y) (hfree : free c y) (hy : f c y = .ok c₁)
    (h : l.foldlM f c₁ = .ok c₂) : ∃ c₃, l.foldlM f c = .ok c₃ ∧ f c₃ y = .ok c₂ := by
  induction l generalizing c c₁ with
  | nil =>
    cases h
    exact ⟨c, rfl, hy⟩
  | cons x l ih =>
    obtain ⟨c₀, hx, h⟩ := bind_ok h
    have hxy := hpass x List.mem_cons_self
    obtain ⟨c₄, hx₄, hy₄⟩ := hxy.swap hfree hy hx
    obtain ⟨c₃, hrest, hy₃⟩ := ih (fun x' hx' => hpass x' (List.mem_cons_of_mem _ hx')) (hxy.keeps hfree hx₄) hy₄ h
    exact ⟨c₃, bind_eq_ok.mpr ⟨_, hx₄, hrest⟩, hy₃⟩

/-- **Steps in two halves**: the second halves can all wait, if the first halves of later steps pass them. -/
theorem foldlM_unzip {β : Type} {first second : α → β} {g : σ → β → Except ε σ}
    (hhalves : ∀ x ∈ l, ∀ {c c₁ : σ}, f c x = .ok c₁ → ∃ c₀, g c (first x) = .ok c₀ ∧ g c₀ (second x) = .ok c₁)
    (hpass : l.Pairwise fun x x' => Passes g (fun _ _ => True) (first x') (second x)) (h : l.foldlM f c = .ok c₁) :
    (l.map first ++ l.map second).foldlM g c = .ok c₁ := by
  induction l generalizing c with
  | nil => exact h
  | cons x l ih =>
    obtain ⟨hhead, htail⟩ := List.pairwise_cons.mp hpass
    obtain ⟨cx, hx, h⟩ := bind_ok h
    obtain ⟨c₀, hfirst, hsecond⟩ := hhalves x List.mem_cons_self hx
    obtain ⟨cl, hfirsts, hseconds⟩ := foldlM_append_iff.mp (ih (fun x' hx' => hhalves x' (List.mem_cons_of_mem _ hx')) htail h)
    have hlater : ∀ b ∈ l.map first, Passes g (fun _ _ => True) b (second x) := by
      intro b hb
      obtain ⟨x', hx', rfl⟩ := List.mem_map.mp hb
      exact hhead x' hx'
    obtain ⟨c₃, hfirsts₃, hsecond₃⟩ := foldlM_delay hlater trivial hsecond hfirsts
    rw [List.map_cons, List.map_cons]
    exact foldlM_append_iff.mpr ⟨_, bind_eq_ok.mpr ⟨_, hfirst, hfirsts₃⟩, bind_eq_ok.mpr ⟨_, hsecond₃, hseconds⟩⟩

end Atlantis.Lib
