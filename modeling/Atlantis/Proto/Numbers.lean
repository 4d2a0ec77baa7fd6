import Atlantis.Codegen.Emission
import Atlantis.Lib.Ledger
import Atlantis.Proto.Runtime

/-!
# `Proto.Numbers` — what `AssignProtoNumbers` does to a schema

It writes numbers and lists of retired numbers and nothing else: what is left after erasing them is what was there
before (`unnumbered_AssignProtoNumbers`).

The numbers of an entity are a ledger: its fields hold them and the retired ones are kept in a list. Numbering a new
version of an entity after an old one keeps the numbers of the fields that stay and retires those of the fields that
go, always (`kept_assignNumbers`, `retired_assignNumbers`). That the fields that come get numbers the old version does
not know is true of fields without a number; a field that brings one keeps it, whatever the old version says about it
(`Restorable`).
-/

namespace Atlantis

/-! ## Erasing numbers -/

namespace Proto

open Schema

/-- A field without its number. -/
def unnumbered (f : Field) : Field := { f with protoNumber := 0 }

end Proto

namespace Schema

open Proto

def Entity.unnumbered (e : Entity) : Entity :=
  { e with fields := e.fields.map Proto.unnumbered, retiredProtoNumbers := [] }

def IR.unnumbered (ir : IR) : IR := ⟨ir.entities.map Entity.unnumbered⟩

/-- Equal up to proto numbers. -/
def SameSchema (ir ir' : IR) : Prop := ir.unnumbered = ir'.unnumbered

instance (ir ir' : IR) : Decidable (SameSchema ir ir') := inferInstanceAs (Decidable (_ = _))

theorem SameSchema.symm {ir ir' : IR} (h : SameSchema ir ir') : SameSchema ir' ir := Eq.symm h

theorem SameSchema.trans {ir ir' ir'' : IR} (h : SameSchema ir ir') (h' : SameSchema ir' ir'') : SameSchema ir ir'' :=
  Eq.trans h h'

end Schema

namespace Proto

open Schema Codegen Lib

variable {reserved : List Nat} {fs gs fields olds : List Field}

theorem assignFresh_unnumbered (next : Nat) (reserved : List Nat) (fs : List Field) :
    (assignFresh next reserved fs).map unnumbered = fs.map unnumbered := by
  induction fs generalizing next reserved with
  | nil => rfl
  | cons f fs ih =>
    unfold assignFresh
    split
    · rw [List.map_cons, List.map_cons, ih]
    · rw [List.map_cons, List.map_cons, ih]
      rfl

/-- Assigning numbers changes nothing else. -/
theorem assignNumbers_unnumbered (oldE : Option Entity) (e : Entity) :
    (assignNumbers oldE e).unnumbered = e.unnumbered := by
  cases oldE with
  | none =>
    unfold assignNumbers Entity.unnumbered
    simp only [assignFresh_unnumbered]
  | some oldE =>
    have hkeep : (e.fields.map (keepNumber oldE)).map unnumbered = e.fields.map unnumbered := by
      rw [List.map_map]
      refine List.map_congr_left fun f _ => ?_
      unfold Function.comp keepNumber
      split
      · split <;> rfl
      · rfl
    unfold assignNumbers Entity.unnumbered
    simp only [assignFresh_unnumbered, hkeep]

theorem sameSchema_AssignProtoNumbers (oldIR newIR : IR) : SameSchema (AssignProtoNumbers oldIR newIR) newIR := by
  unfold SameSchema AssignProtoNumbers IR.unnumbered
  rw [List.map_map]
  exact congrArg IR.mk (List.map_congr_left fun e _ => assignNumbers_unnumbered _ e)

theorem find_isSome_of_unnumbered (h : gs.map unnumbered = fs.map unnumbered) {p : Field → Bool}
    (hp : ∀ f, p (unnumbered f) = p f) : (gs.find? p).isSome = (fs.find? p).isSome := by
  have hany : ∀ l : List Field, (l.find? p).isSome = (l.map unnumbered).any p := by
    intro l
    rw [List.any_map, Bool.eq_iff_iff, List.find?_isSome, List.any_eq_true]
    simp only [Function.comp_apply, hp]
  rw [hany, hany, h]

theorem assignNumbers_names (oldE : Option Entity) (e : Entity) :
    (assignNumbers oldE e).fields.map Field.name = e.fields.map Field.name := by
  have hnames := congrArg (fun e => e.fields.map Field.name) (assignNumbers_unnumbered oldE e)
  simpa [Entity.unnumbered, Function.comp_def, unnumbered] using hnames

/-! ## Fresh numbers -/

theorem nextFree_ge (reserved : List Nat) (steps next : Nat) : next ≤ nextFree reserved steps next := by
  induction steps generalizing next with
  | zero => exact le_rfl
  | succ steps ih =>
    unfold nextFree
    split
    · exact le_trans (Nat.le_succ next) (ih (next + 1))
    · exact le_rfl

/-- A search that ends on a reserved number has seen only reserved numbers. -/
theorem reserved_of_nextFree {steps next : Nat} (h : nextFree reserved steps next ∈ reserved) :
    ∀ i < steps, next + i ∈ reserved := by
  induction steps generalizing next with
  | zero => exact fun i hi => absurd hi (Nat.not_lt_zero i)
  | succ steps ih =>
    unfold nextFree at h
    split at h
    · rename_i hnext
      intro i hi
      cases i with
      | zero => exact hnext
      | succ i =>
        have := ih h i (Nat.lt_of_succ_lt_succ hi)
        rwa [Nat.succ_add_eq_add_succ] at this
    · exact absurd h ‹_›

/-- There are more numbers in the search than reserved ones. -/
theorem nextFree_not_mem (reserved : List Nat) (next : Nat) :
    nextFree reserved (reserved.length + 1) next ∉ reserved := by
  intro h
  have hseen := reserved_of_nextFree h
  have hsub : List.range' next (reserved.length + 1) ⊆ reserved := by
    intro k hk
    obtain ⟨i, hi, rfl⟩ := List.mem_range'.mp hk
    simpa using hseen i hi
  have hle := (List.subperm_of_subset List.nodup_range' hsub).length_le
  rw [List.length_range'] at hle
  omega

theorem assignFresh_of_numbered (h : ∀ f ∈ fs, f.protoNumber ≠ 0) (next : Nat) (reserved : List Nat) :
    assignFresh next reserved fs = fs := by
  induction fs with
  | nil => rfl
  | cons f fs ih =>
    rw [assignFresh, if_pos (h f List.mem_cons_self), ih fun g hg => h g (List.mem_cons_of_mem _ hg)]

/-- Where a field of pass B comes from: it had its number, or it got one from `next` on that is not reserved. -/
theorem mem_assignFresh {next : Nat} {g : Field} (h : g ∈ assignFresh next reserved fs) :
    ∃ f ∈ fs, g.name = f.name ∧ ((f.protoNumber ≠ 0 ∧ g.protoNumber = f.protoNumber) ∨
      (f.protoNumber = 0 ∧ next ≤ g.protoNumber ∧ g.protoNumber ∉ reserved)) := by
  induction fs generalizing next reserved with
  | nil => cases h
  | cons f fs ih =>
    unfold assignFresh at h
    split at h
    · rename_i hf
      rcases List.mem_cons.mp h with rfl | h
      · exact ⟨g, List.mem_cons_self, rfl, .inl ⟨hf, rfl⟩⟩
      · obtain ⟨f', hf', hrest⟩ := ih h
        exact ⟨f', List.mem_cons_of_mem _ hf', hrest⟩
    · rename_i hf
      rcases List.mem_cons.mp h with rfl | h
      · exact ⟨f, List.mem_cons_self, rfl,
          .inr ⟨not_not.mp hf, nextFree_ge _ _ _, nextFree_not_mem reserved next⟩⟩
      · obtain ⟨f', hf', hname, hnum⟩ := ih h
        refine ⟨f', List.mem_cons_of_mem _ hf', hname, hnum.imp id ?_⟩
        rintro ⟨hzero, hle, hfree⟩
        exact ⟨hzero, le_trans (nextFree_ge _ _ _) hle, fun hmem => hfree (List.mem_cons_of_mem _ hmem)⟩

/-- Two fields with numbers that are not reserved do not share one. -/
def FreshApart (reserved : List Nat) (g g' : Field) : Prop :=
  g.protoNumber ∉ reserved → g'.protoNumber ∉ reserved → g.protoNumber ≠ g'.protoNumber

instance (reserved : List Nat) : Std.Symm (FreshApart reserved) := ⟨fun _ _ h hg hg' => (h hg' hg).symm⟩

/-- **Fresh numbers differ**, if the numbers that are there are reserved. -/
theorem assignFresh_pairwise (next : Nat) (h : ∀ f ∈ fs, f.protoNumber ≠ 0 → f.protoNumber ∈ reserved) :
    (assignFresh next reserved fs).Pairwise (FreshApart reserved) := by
  induction fs generalizing next reserved with
  | nil => exact List.Pairwise.nil
  | cons f fs ih =>
    have htail : ∀ f ∈ fs, f.protoNumber ≠ 0 → f.protoNumber ∈ reserved :=
      fun f hf => h f (List.mem_cons_of_mem _ hf)
    unfold assignFresh
    split
    · rename_i hf
      exact List.Pairwise.cons (fun g _ hfree => absurd (h f List.mem_cons_self hf) hfree) (ih next htail)
    · -- what the rest gets also avoids the number given here
      generalize nextFree reserved (reserved.length + 1) next = m
      have hfresh : ∀ g ∈ assignFresh m (m :: reserved) fs, g.protoNumber ∉ reserved → g.protoNumber ∉ m :: reserved := by
        intro g hg hfree
        obtain ⟨f', hf', _, ⟨hne, hnum⟩ | ⟨_, _, hfree'⟩⟩ := mem_assignFresh hg
        · exact absurd (hnum ▸ htail f' hf' hne) hfree
        · exact hfree'
      refine List.Pairwise.cons ?_ ?_
      · intro g hg _ hfree hm
        exact hfresh g hg hfree (hm ▸ List.mem_cons_self)
      · have hrest := @ih (m :: reserved) m fun f hf hne => List.mem_cons_of_mem _ (htail f hf hne)
        refine List.Pairwise.imp_of_mem ?_ hrest
        intro g g' hg hg' hapart hfree hfree'
        exact hapart (hfresh g hg hfree) (hfresh g' hg' hfree')

/-! ## Kept and retired numbers -/

variable {oldE e : Entity} {f of : Field} {n : String} {k : Nat}

theorem mem_keptNumbers : k ∈ keptNumbers oldE fields ↔
    ∃ f ∈ fields, ∃ of, fieldByName oldE f.name = some of ∧ of.protoNumber ≠ 0 ∧ of.protoNumber = k := by
  simp only [keptNumbers, List.mem_filterMap, Option.bind_eq_some_iff, Option.ite_none_right_eq_some, Option.some.injEq]
  rfl

/-- The number of a field that is gone. -/
def Gone (fields olds : List Field) (k : Nat) : Prop :=
  ∃ of ∈ olds, (∀ f ∈ fields, f.name ≠ of.name) ∧ of.protoNumber = k ∧ k ≠ 0

theorem gone_cons :
    Gone fields (of :: olds) k ↔ ((∀ f ∈ fields, f.name ≠ of.name) ∧ of.protoNumber = k ∧ k ≠ 0) ∨ Gone fields olds k := by
  unfold Gone
  simp only [List.mem_cons, exists_eq_or_imp]

/-- The end of pass A. -/
theorem mem_retireGone {retired reserved : List Nat} :
    (k ∈ (retireGone fields retired reserved olds).1 ↔ k ∈ retired ∨ (k ∉ reserved ∧ Gone fields olds k)) ∧
      (k ∈ (retireGone fields retired reserved olds).2 ↔ k ∈ reserved ∨ Gone fields olds k) := by
  induction olds generalizing retired reserved with
  | nil => simp [retireGone, Gone]
  | cons of olds ih =>
    unfold retireGone
    split
    · rename_i hgone
      obtain ⟨hall, hne, hnew⟩ := hgone
      have hhead : ∀ f ∈ fields, f.name ≠ of.name := by simpa using hall
      rw [(ih).1, (ih).2, gone_cons, and_iff_right hhead]
      by_cases hk : k = of.protoNumber
      · subst hk
        simp [hne, hnew]
      · simp [hk, Ne.symm hk]
    · rename_i hstay
      have hhead : k ∉ reserved → ¬ ((∀ f ∈ fields, f.name ≠ of.name) ∧ of.protoNumber = k ∧ k ≠ 0) := by
        rintro hk ⟨hall, rfl, hne⟩
        exact hstay ⟨by simpa using hall, hne, hk⟩
      rw [(ih).1, (ih).2, gone_cons]
      by_cases hk : k ∈ reserved
      · simp [hk]
      · simp [hk, hhead hk]

/-! ## The ledger of an entity -/

/-- The numbers of an entity: what its fields hold, and what is retired. -/
def ledger (e : Entity) : Ledger String Nat where
  live := fun n => (fieldByName e n).map Field.protoNumber
  retired := {k | k ∈ e.retiredProtoNumbers}

/-- Fields with different names hold different positive numbers, none of them retired. -/
structure WellNumbered (e : Entity) : Prop where
  names : (e.fields.map Field.name).Nodup
  positive : ∀ f ∈ e.fields, 0 < f.protoNumber
  sound : (ledger e).Sound

/-- How an entity comes from `Lower`. -/
@[mk_iff]
structure Unassigned (e : Entity) : Prop where
  names : (e.fields.map Field.name).Nodup
  zero : ∀ f ∈ e.fields, f.protoNumber = 0
  retired : e.retiredProtoNumbers = []

instance (e : Entity) : Decidable (Unassigned e) :=
  decidable_of_iff' _ (unassigned_iff e)

/-- What a version of an entity brings back that the other one does not have: numbers that it does not know. -/
def Restorable (oldE e : Entity) : Prop :=
  ∀ f ∈ e.fields, f.protoNumber ≠ 0 → (∀ of ∈ oldE.fields, of.name ≠ f.name) →
    f.protoNumber ∉ oldE.retiredProtoNumbers ∧ ∀ of ∈ oldE.fields, of.protoNumber ≠ f.protoNumber

instance (oldE e : Entity) : Decidable (Restorable oldE e) :=
  inferInstanceAs (Decidable (∀ f ∈ e.fields, _ → (∀ of ∈ oldE.fields, _) → _ ∧ ∀ of ∈ oldE.fields, _))

theorem live_of_mem (hnames : (e.fields.map Field.name).Nodup) {f : Field} (hf : f ∈ e.fields) :
    (ledger e).live f.name = some f.protoNumber :=
  Option.map_eq_some_iff.mpr ⟨f, lastWith_of_nodup hnames hf, rfl⟩

theorem mem_of_live (h : (ledger e).live n = some k) : ∃ f ∈ e.fields, f.name = n ∧ f.protoNumber = k := by
  obtain ⟨f, hf, rfl⟩ := Option.map_eq_some_iff.mp h
  obtain ⟨hmem, rfl⟩ := lastWith_mem hf
  exact ⟨f, hmem, rfl, rfl⟩

theorem live_eq_none : (ledger e).live n = none ↔ ∀ f ∈ e.fields, f.name ≠ n :=
  Option.map_eq_none_iff.trans lastWith_eq_none

theorem WellNumbered.ne_zero (h : WellNumbered e) {f : Field} (hf : f ∈ e.fields) : f.protoNumber ≠ 0 :=
  Nat.pos_iff_ne_zero.mp (h.positive f hf)

/-- Pass A gives a field the number of its name, if there is one. -/
theorem keepNumber_cases (hold : WellNumbered oldE) (f : Field) :
    ((ledger oldE).live f.name = none ∧ keepNumber oldE f = f) ∨
      ∃ k, (ledger oldE).live f.name = some k ∧ k ≠ 0 ∧ keepNumber oldE f = { f with protoNumber := k } := by
  unfold keepNumber
  split
  · rename_i of hof
    have hne := hold.ne_zero (lastWith_mem hof).1
    exact .inr ⟨_, Option.map_eq_some_iff.mpr ⟨of, hof, rfl⟩, hne, if_pos hne⟩
  · rename_i hof
    exact .inl ⟨Option.map_eq_none_iff.mpr hof, rfl⟩

/-- What the schema says about its numbers. -/
theorem wellNumbered_iff : WellNumbered e ↔ (e.fields.map Field.name).Nodup ∧ (∀ f ∈ e.fields, 0 < f.protoNumber) ∧
    (e.fields.map Field.protoNumber).Nodup ∧ ∀ f ∈ e.fields, f.protoNumber ∉ e.retiredProtoNumbers := by
  constructor
  · intro h
    refine ⟨h.names, h.positive, List.Nodup.map_on ?_ (List.Nodup.of_map _ h.names), ?_⟩
    · intro f hf g hg hnum
      have hg' := live_of_mem h.names hg
      rw [← hnum] at hg'
      exact List.inj_on_of_nodup_map h.names hf hg (h.sound.inj (live_of_mem h.names hf) hg')
    · exact fun f hf => h.sound.disjoint (live_of_mem h.names hf)
  · rintro ⟨hnames, hpos, hnodup, hretired⟩
    refine ⟨hnames, hpos, ?_, ?_⟩
    · intro n n' k hn hn'
      obtain ⟨f, hf, rfl, rfl⟩ := mem_of_live hn
      obtain ⟨g, hg, rfl, hnum⟩ := mem_of_live hn'
      exact congrArg Field.name (List.inj_on_of_nodup_map hnodup hf hg hnum.symm)
    · intro n k hn
      obtain ⟨f, hf, rfl, rfl⟩ := mem_of_live hn
      exact hretired f hf

theorem Unassigned.restorable (h : Unassigned e) : Restorable oldE e :=
  fun f hf hne => absurd (h.zero f hf) hne

/-- An entity that comes back as it was keeps its numbers. -/
theorem wellNumbered_back (h : WellNumbered e) : WellNumbered (assignNumbers none e) := by
  have hfields : (assignNumbers none e).fields = e.fields := assignFresh_of_numbered (fun f hf => h.ne_zero hf) _ _
  rw [wellNumbered_iff] at h ⊢
  rw [hfields]
  simpa [assignNumbers] using h

/-! ## Numbering an entity after its old version -/

/-- The numbers pass B may not give out. -/
def reservedNumbers (oldE e : Entity) : List Nat :=
  (retireGone e.fields oldE.retiredProtoNumbers (keptNumbers oldE e.fields ++ oldE.retiredProtoNumbers) oldE.fields).2

theorem mem_reservedNumbers (hold : WellNumbered oldE) : k ∈ reservedNumbers oldE e ↔ (ledger oldE).Known k := by
  unfold reservedNumbers
  rw [mem_retireGone.2, List.mem_append, mem_keptNumbers]
  constructor
  · rintro ((⟨f, _, of, hof, _, rfl⟩ | hk) | ⟨of, hof, _, rfl, _⟩)
    · exact .inr ⟨f.name, Option.map_eq_some_iff.mpr ⟨of, hof, rfl⟩⟩
    · exact .inl hk
    · exact .inr ⟨of.name, live_of_mem hold.names hof⟩
  · rintro (hk | ⟨n, hn⟩)
    · exact .inl (.inr hk)
    · obtain ⟨of, hof, rfl, rfl⟩ := mem_of_live hn
      by_cases hgone : ∀ f ∈ e.fields, f.name ≠ of.name
      · exact .inr ⟨of, hof, hgone, rfl, hold.ne_zero hof⟩
      · obtain ⟨f, hf, hname⟩ : ∃ f ∈ e.fields, f.name = of.name := by simpa using hgone
        exact .inl (.inl ⟨f, hf, of, hname ▸ lastWith_of_nodup hold.names hof, hold.ne_zero hof, rfl⟩)

/-- Where a field of the result has its number from. -/
theorem mem_assignNumbers (hold : WellNumbered oldE) {g : Field} (hg : g ∈ (assignNumbers (some oldE) e).fields) :
    (ledger oldE).live g.name = some g.protoNumber ∨
      ((ledger oldE).live g.name = none ∧ ∃ f ∈ e.fields, g.name = f.name ∧
        ((f.protoNumber ≠ 0 ∧ g.protoNumber = f.protoNumber) ∨
          (f.protoNumber = 0 ∧ 0 < g.protoNumber ∧ g.protoNumber ∉ reservedNumbers oldE e))) := by
  obtain ⟨f', hf', hname, hnum⟩ := mem_assignFresh hg
  obtain ⟨f, hf, rfl⟩ := List.mem_map.mp hf'
  rcases keepNumber_cases hold f with ⟨hnone, hkeep⟩ | ⟨k, hlive, hne, hkeep⟩ <;> rw [hkeep] at hname hnum
  · exact .inr ⟨hname ▸ hnone, f, hf, hname, hnum⟩
  · rcases hnum with ⟨_, hnum⟩ | ⟨hzero, _⟩
    · rw [hname, hnum]
      exact .inl hlive
    · exact absurd hzero hne

/-- **A field that stays keeps its number.** -/
theorem kept_assignNumbers (hold : WellNumbered oldE) {k' : Nat} (hn : (ledger oldE).live n = some k)
    (hn' : (ledger (assignNumbers (some oldE) e)).live n = some k') : k' = k := by
  obtain ⟨g, hg, rfl, rfl⟩ := mem_of_live hn'
  rcases mem_assignNumbers hold hg with hlive | ⟨hnone, _⟩
  · exact Option.some.inj (hlive.symm.trans hn)
  · rw [hn] at hnone
    cases hnone

theorem live_assignNumbers_eq_none {old : Option Entity} :
    (ledger (assignNumbers old e)).live n = none ↔ ∀ f ∈ e.fields, f.name ≠ n := by
  have hnames : ∀ l : List Field, (∀ f ∈ l, f.name ≠ n) ↔ n ∉ l.map Field.name := by simp
  rw [live_eq_none, hnames, hnames, assignNumbers_names]

/-- **A field that goes leaves its number behind.** -/
theorem retired_assignNumbers (hold : WellNumbered oldE) :
    k ∈ (ledger (assignNumbers (some oldE) e)).retired ↔ k ∈ (ledger oldE).retired ∨
      ∃ n, (ledger oldE).live n = some k ∧ (ledger (assignNumbers (some oldE) e)).live n = none := by
  have hretired : k ∈ (ledger (assignNumbers (some oldE) e)).retired ↔ k ∈ oldE.retiredProtoNumbers ∨
      (k ∉ keptNumbers oldE e.fields ++ oldE.retiredProtoNumbers ∧ Gone e.fields oldE.fields k) :=
    (List.mem_insertionSort _).trans mem_retireGone.1
  rw [hretired]
  constructor
  · rintro (hk | ⟨_, of, hof, hgone, rfl, _⟩)
    · exact .inl hk
    · exact .inr ⟨of.name, live_of_mem hold.names hof, live_assignNumbers_eq_none.mpr hgone⟩
  · rintro (hk | ⟨n, hn, hnone⟩)
    · exact .inl hk
    · obtain ⟨of, hof, rfl, rfl⟩ := mem_of_live hn
      have hgone := live_assignNumbers_eq_none.mp hnone
      refine .inr ⟨?_, of, hof, hgone, rfl, hold.ne_zero hof⟩
      intro hmem
      rcases List.mem_append.mp hmem with hkept | hretired
      · -- the number is kept only under the name that held it
        obtain ⟨f, hf, of', hof', _, hnum⟩ := mem_keptNumbers.mp hkept
        have hlive : (ledger oldE).live f.name = some of.protoNumber := Option.map_eq_some_iff.mpr ⟨of', hof', hnum⟩
        exact hgone f hf (hold.sound.inj hlive hn)
      · exact hold.sound.disjoint hn hretired

theorem Restorable.unknown (h : Restorable oldE e) {f : Field} (hf : f ∈ e.fields) (hne : f.protoNumber ≠ 0)
    (hnone : (ledger oldE).live f.name = none) : ¬ (ledger oldE).Known f.protoNumber := by
  obtain ⟨hretired, hlive⟩ := h f hf hne (live_eq_none.mp hnone)
  rintro (hk | ⟨n, hn⟩)
  · exact hretired hk
  · obtain ⟨of, hof, _, hnum⟩ := mem_of_live hn
    exact hlive of hof hnum

/-- **Numbering follows the old version**, if what comes back with a number is unknown to it. -/
theorem follows_assignNumbers (hold : WellNumbered oldE) (he : Unassigned e ∨ WellNumbered e)
    (hfree : Restorable oldE e) : (ledger oldE).Follows (ledger (assignNumbers (some oldE) e)) where
  kept := kept_assignNumbers hold
  fresh := by
    intro n k hnone hn
    obtain ⟨g, hg, rfl, rfl⟩ := mem_of_live hn
    rcases mem_assignNumbers hold hg with hlive | ⟨_, f, hf, hname, ⟨hne, hnum⟩ | ⟨_, _, hfresh⟩⟩
    · rw [hnone] at hlive
      cases hlive
    · rw [hnum]
      exact hfree.unknown hf hne (hname ▸ hnone)
    · exact fun hknown => hfresh ((mem_reservedNumbers hold).mpr hknown)
  apart := by
    intro n n' k hnone hnone' hn hn'
    obtain ⟨g, hg, rfl, rfl⟩ := mem_of_live hn
    obtain ⟨g', hg', rfl, hsame⟩ := mem_of_live hn'
    rcases mem_assignNumbers hold hg with hlive | ⟨_, f, hf, hname, hnum⟩
    · rw [hnone] at hlive
      cases hlive
    rcases mem_assignNumbers hold hg' with hlive | ⟨_, f', hf', hname', hnum'⟩
    · rw [hnone'] at hlive
      cases hlive
    rcases he with he | he
    · -- both numbers were given out by pass B
      obtain ⟨hne, _⟩ | ⟨_, _, hfresh⟩ := hnum
      · exact absurd (he.zero f hf) hne
      obtain ⟨hne, _⟩ | ⟨_, _, hfresh'⟩ := hnum'
      · exact absurd (he.zero f' hf') hne
      have hpairwise : (assignNumbers (some oldE) e).fields.Pairwise (FreshApart (reservedNumbers oldE e)) := by
        refine assignFresh_pairwise 1 ?_
        intro f₁ hf₁ hne
        obtain ⟨f₀, hf₀, rfl⟩ := List.mem_map.mp hf₁
        rcases keepNumber_cases hold f₀ with ⟨_, hkeep⟩ | ⟨k, hlive, _, hkeep⟩ <;> rw [hkeep] at hne ⊢
        · exact absurd (he.zero f₀ hf₀) hne
        · exact (mem_reservedNumbers hold).mpr (.inr ⟨f₀.name, hlive⟩)
      by_contra hne
      exact hpairwise.forall hg hg' (fun heq => hne (congrArg Field.name heq)) hfresh hfresh' hsame.symm
    · -- both fields brought their numbers from the same version
      obtain ⟨_, hnum⟩ | ⟨hzero, _⟩ := hnum
      · obtain ⟨_, hnum'⟩ | ⟨hzero', _⟩ := hnum'
        · have hlive := live_of_mem he.names hf
          have hlive' := live_of_mem he.names hf'
          rw [← hnum, ← hname] at hlive
          rw [← hnum', ← hname', hsame] at hlive'
          exact he.sound.inj hlive hlive'
        · exact absurd hzero' (he.ne_zero hf')
      · exact absurd hzero (he.ne_zero hf)
  retired := retired_assignNumbers hold

theorem wellNumbered_next (hold : WellNumbered oldE) (he : Unassigned e ∨ WellNumbered e)
    (hfree : Restorable oldE e) : WellNumbered (assignNumbers (some oldE) e) where
  names := by
    rw [assignNumbers_names]
    exact he.elim Unassigned.names WellNumbered.names
  positive := by
    intro g hg
    rcases mem_assignNumbers hold hg with hlive | ⟨_, f, hf, _, ⟨hne, hnum⟩ | ⟨_, hpos, _⟩⟩
    · obtain ⟨of, hof, _, hnum⟩ := mem_of_live hlive
      exact hnum ▸ hold.positive of hof
    · rw [hnum]
      exact Nat.pos_iff_ne_zero.mpr hne
    · exact hpos
  sound := (follows_assignNumbers hold he hfree).sound hold.sound

/-- A new entity is numbered as after a version without fields. -/
theorem wellNumbered_new (h : Unassigned e) : WellNumbered (assignNumbers none e) := by
  have hempty : WellNumbered { e with fields := [], retiredProtoNumbers := [] } :=
    ⟨List.nodup_nil, by simp, ⟨fun hn => absurd hn nofun, fun hn => absurd hn nofun⟩⟩
  have heq : assignNumbers none e = assignNumbers (some { e with fields := [], retiredProtoNumbers := [] }) e := by
    have hkeep : e.fields.map (keepNumber { e with fields := [], retiredProtoNumbers := [] }) = e.fields :=
      List.map_id'' (fun f => rfl) e.fields
    have hkept : keptNumbers { e with fields := [], retiredProtoNumbers := [] } e.fields = [] :=
      List.filterMap_eq_nil_iff.mpr fun f _ => rfl
    simp only [assignNumbers, h.retired, hkeep, hkept, retireGone, List.append_nil]
  rw [heq]
  exact wellNumbered_next hempty (.inl h) h.restorable

/-- **The converse**: a version that brings back a number the old one knows does not end up well numbered. -/
theorem restorable_of_wellNumbered (hold : WellNumbered oldE) (he : WellNumbered e)
    (h : WellNumbered (assignNumbers (some oldE) e)) : Restorable oldE e := by
  intro f hf _ hgone
  have hnone : (ledger oldE).live f.name = none := live_eq_none.mpr hgone
  -- the field is there with the number it brought
  have hnum : ∀ g ∈ e.fields.map (keepNumber oldE), g.protoNumber ≠ 0 := by
    intro g hg
    obtain ⟨f₀, hf₀, rfl⟩ := List.mem_map.mp hg
    rcases keepNumber_cases hold f₀ with ⟨_, hkeep⟩ | ⟨k, _, hne, hkeep⟩ <;> rw [hkeep]
    · exact he.ne_zero hf₀
    · exact hne
  have hmem : f ∈ (assignNumbers (some oldE) e).fields := by
    show f ∈ assignFresh 1 _ (e.fields.map (keepNumber oldE))
    rw [assignFresh_of_numbered hnum]
    rcases keepNumber_cases hold f with ⟨_, hkeep⟩ | ⟨k, hlive, _⟩
    · exact List.mem_map.mpr ⟨f, hf, hkeep⟩
    · rw [hnone] at hlive
      cases hlive
  have hlive := live_of_mem h.names hmem
  refine ⟨fun hk => h.sound.disjoint hlive ((retired_assignNumbers hold).mpr (.inl hk)), ?_⟩
  intro of hof hsame
  have hold' := live_of_mem hold.names hof
  cases hnew : (ledger (assignNumbers (some oldE) e)).live of.name with
  | none =>
    have hk : of.protoNumber ∈ (ledger (assignNumbers (some oldE) e)).retired :=
      (retired_assignNumbers hold).mpr (.inr ⟨of.name, hold', hnew⟩)
    exact h.sound.disjoint hlive (hsame ▸ hk)
  | some k' =>
    obtain rfl := kept_assignNumbers hold hold' hnew
    exact hgone of hof (h.sound.inj hnew (hsame ▸ hlive))

end Proto
end Atlantis
