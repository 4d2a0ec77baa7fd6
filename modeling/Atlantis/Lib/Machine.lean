import Mathlib.Data.List.Basic

/-!
# `Lib.Machine` — machines and what holds along their runs

A machine has states it may start in and, for each action, at most one state that the action leads to. Choices
and outcomes that the machine does not determine are part of the action, so interleavings of several parties are
lists of actions.

`Reach` collects the states that are reached by actions which meet a condition where they are taken; without a
condition these are the reachable states. `Reach.invariant` is the only induction over reached states. For one given
run, `Along` says that its actions all meet the condition, and `along_or_trapped` decides it at the run's end.
-/

namespace Atlantis.Lib

universe u v

/-- What is found in a map of which one place was written. -/
theorem update_eq_some {α β : Type} [DecidableEq α] {f : α → Option β} {a b : α} {v : Option β} {y : β}
    (h : Function.update f a v b = some y) : (b = a ∧ v = some y) ∨ f b = some y := by
  by_cases hb : b = a
  · rw [hb, Function.update_self] at h
    exact .inl ⟨hb, h⟩
  · rw [Function.update_of_ne hb] at h
    exact .inr h

/-- Where a machine may start, and where an action leads, if it can be taken. -/
structure Machine (σ : Type u) (α : Type v) where
  initial : σ → Prop
  step : σ → α → Option σ

namespace Machine

variable {σ : Type u} {α : Type v} (m : Machine σ α) (ok : σ → α → Prop)

/-- The states reached by actions that are `ok` where they are taken. -/
inductive Reach : σ → Prop where
  | initial {s : σ} (h : m.initial s) : Reach s
  | step {s t : σ} {a : α} (hs : Reach s) (hok : ok s a) (h : m.step s a = some t) : Reach t

/-- All states that are reached. -/
abbrev Reachable : σ → Prop := m.Reach fun _ _ => True

/-- The state after a list of actions. -/
def run (s : σ) (as : List α) : Option σ := as.foldlM m.step s

/-- Some run leads from one state to the other. -/
def Leads (s t : σ) : Prop := ∃ as, m.run s as = some t

/-- Every action of the run is `ok` where it is taken. -/
def Along : σ → List α → Prop
  | _, [] => True
  | s, a :: as => ok s a ∧ ∀ t, m.step s a = some t → Along t as

/-- The property holds in every state the run goes through, the first and the last included. -/
def Throughout (P : σ → Prop) (s : σ) (as : List α) : Prop :=
  ∀ pre post t, as = pre ++ post → m.run s pre = some t → P t

variable {m ok} {s t u : σ}

variable {as : List α} {a : α}

/-- **What holds at the start and is kept by every step holds throughout.** -/
theorem Reach.invariant {I : σ → Prop} (hinit : ∀ s, m.initial s → I s)
    (hstep : ∀ s a t, I s → ok s a → m.step s a = some t → I t) (h : m.Reach ok s) : I s := by
  induction h with
  | initial h => exact hinit _ h
  | step _ hok h ih => exact hstep _ _ _ ih hok h

/-- One more action. -/
theorem Reach.next (hs : m.Reach ok s) (a : α) (hok : ok s a) (h : m.step s a = some t) : m.Reach ok t :=
  .step hs hok h

/-- A trap stays shut to the end of the run. -/
theorem trapped_of_run {B : σ → Prop} (hstay : ∀ s a t, B s → m.step s a = some t → B t) (hs : B s)
    (h : m.run s as = some t) : B t := by
  induction as generalizing s with
  | nil =>
    cases h
    exact hs
  | cons a as ih =>
    obtain ⟨u, hu, h⟩ := Option.bind_eq_some_iff.mp h
    exact ih (hstay _ _ _ hs hu) h

/-- A run leads to reachable states. -/
theorem reachable_of_run (hs : m.Reachable s) (h : m.run s as = some t) : m.Reachable t :=
  trapped_of_run (fun _ _ _ hs hstep => .step hs trivial hstep) hs h

theorem Leads.refl : m.Leads s s := ⟨[], rfl⟩

theorem Leads.step (h : m.step s a = some t) (ht : m.Leads t u) : m.Leads s u := by
  obtain ⟨as, hrun⟩ := ht
  exact ⟨a :: as, Option.bind_eq_some_iff.mpr ⟨t, h, hrun⟩⟩

theorem Leads.trans (hs : m.Leads s t) (ht : m.Leads t u) : m.Leads s u := by
  obtain ⟨as, hs⟩ := hs
  obtain ⟨bs, ht⟩ := ht
  refine ⟨as ++ bs, ?_⟩
  rw [run, List.foldlM_append]
  exact Option.bind_eq_some_iff.mpr ⟨t, hs, ht⟩

theorem Along.cons (hok : ok s a) (h : m.step s a = some t) (ht : m.Along ok t as) : m.Along ok s (a :: as) := by
  refine ⟨hok, fun u hu => ?_⟩
  cases h.symm.trans hu
  exact ht

/-- A run of actions that are all `ok` leads to where `ok` actions lead. -/
theorem reach_of_run (hs : m.Reach ok s) (halong : m.Along ok s as) (h : m.run s as = some t) : m.Reach ok t := by
  induction as generalizing s with
  | nil =>
    cases h
    exact hs
  | cons a as ih =>
    obtain ⟨u, hu, h⟩ := Option.bind_eq_some_iff.mp h
    exact ih (hs.step halong.1 hu) (halong.2 u hu) h

theorem along_of_forall (h : ∀ s a, ok s a) : m.Along ok s as := by
  induction as generalizing s with
  | nil => trivial
  | cons a as ih => exact ⟨h s a, fun _ _ => ih⟩

theorem throughout_cons {P : σ → Prop} :
    m.Throughout P s (a :: as) ↔ P s ∧ ∀ t, m.step s a = some t → m.Throughout P t as := by
  constructor
  · intro h
    refine ⟨h [] _ s rfl rfl, fun t ht pre post u hsplit hrun => ?_⟩
    exact h (a :: pre) post u (by rw [hsplit]; rfl) (Option.bind_eq_some_iff.mpr ⟨t, ht, hrun⟩)
  · rintro ⟨hs, h⟩ pre post u hsplit hrun
    cases pre with
    | nil =>
      cases hrun
      exact hs
    | cons b pre =>
      cases hsplit
      obtain ⟨t, ht, hrun⟩ := Option.bind_eq_some_iff.mp hrun
      exact h t ht pre post u rfl hrun

/-- **Where an action is `ok` if it leads to a good state, and keeps the invariant if it is `ok`**, a run keeps to the good
    states exactly if its actions are. -/
theorem throughout_iff_along {I P : σ → Prop} {ok' : σ → α → Prop} (hgood : ∀ s, I s → P s)
    (hstep : ∀ s a t, I s → ok' s a → m.step s a = some t → (P t → ok s a) ∧ (ok s a → I t)) (hs : I s)
    (h : m.run s as = some t) (halong : m.Along ok' s as) : m.Throughout P s as ↔ m.Along ok s as := by
  induction as generalizing s with
  | nil =>
    refine ⟨fun _ => trivial, fun _ pre post u hsplit hrun => ?_⟩
    rw [(List.append_eq_nil_iff.mp hsplit.symm).1] at hrun
    cases hrun
    exact hgood s hs
  | cons a as ih =>
    obtain ⟨u, hu, h⟩ := Option.bind_eq_some_iff.mp h
    obtain ⟨hneeds, hkeeps⟩ := hstep s a u hs halong.1 hu
    rw [throughout_cons]
    constructor
    · rintro ⟨-, hall⟩
      have hok : ok s a := hneeds (hall u hu [] as u rfl rfl)
      exact .cons hok hu ((ih (hkeeps hok) h (halong.2 u hu)).mp (hall u hu))
    · rintro ⟨hok, hrest⟩
      refine ⟨hgood s hs, fun v hv => ?_⟩
      cases hu.symm.trans hv
      exact (ih (hkeeps hok) h (halong.2 u hu)).mpr (hrest u hu)

/-- Two conditions that agree wherever the invariant holds, which they keep, agree along a run. -/
theorem along_congr {I : σ → Prop} {ok' : σ → α → Prop}
    (hstep : ∀ s a t, I s → m.step s a = some t → (ok s a ↔ ok' s a) ∧ (ok s a → I t)) (hs : I s)
    (h : m.run s as = some t) : m.Along ok s as ↔ m.Along ok' s as := by
  induction as generalizing s with
  | nil => exact Iff.rfl
  | cons a as ih =>
    obtain ⟨u, hu, h⟩ := Option.bind_eq_some_iff.mp h
    obtain ⟨hiff, hkeeps⟩ := hstep s a u hs hu
    constructor
    · rintro ⟨hok, hrest⟩
      exact .cons (hiff.mp hok) hu ((ih (hkeeps hok) h).mp (hrest u hu))
    · rintro ⟨hok', hrest⟩
      have hok := hiff.mpr hok'
      exact .cons hok hu ((ih (hkeeps hok) h).mpr (hrest u hu))

/-- **Actions that are `ok` keep to the good states and the first that is not falls into a trap**: the state at the end
    of a run tells whether all its actions were `ok`. -/
theorem along_or_trapped {G B : σ → Prop} (hgood : ∀ s a t, G s → ok s a → m.step s a = some t → G t)
    (hfall : ∀ s a t, G s → ¬ ok s a → m.step s a = some t → B t) (hstay : ∀ s a t, B s → m.step s a = some t → B t)
    (hs : G s) (h : m.run s as = some t) : (m.Along ok s as ∧ G t) ∨ (¬ m.Along ok s as ∧ B t) := by
  induction as generalizing s with
  | nil =>
    cases h
    exact .inl ⟨trivial, hs⟩
  | cons a as ih =>
    obtain ⟨u, hu, h⟩ := Option.bind_eq_some_iff.mp h
    by_cases hok : ok s a
    · rcases ih (hgood _ _ _ hs hok hu) h with ⟨halong, ht⟩ | ⟨halong, ht⟩
      · exact .inl ⟨.cons hok hu halong, ht⟩
      · exact .inr ⟨fun hall => halong (hall.2 u hu), ht⟩
    · exact .inr ⟨fun hall => hok hall.1, trapped_of_run hstay (hfall _ _ _ hs hok hu) h⟩

end Machine

end Atlantis.Lib
