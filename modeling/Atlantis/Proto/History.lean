import Atlantis.Lib.Machine
import Atlantis.Proto.Numbers

/-!
# `Proto.History` — proto numbers over whole histories

A history is the list of the schemas that were persisted, newest first. An apply numbers a schema that has no numbers
after the newest one; a rollback numbers an older member of the list after the newest one. The comment of
`AssignProtoNumbers` promises that numbers are never reused: every version of an entity is well numbered, a field keeps
its number from one schema to the next, and as long as an entity stays in the schema no number is held by two names.

Every version of an entity being followed by the next one, as ledgers, is the invariant (`Accounts`). An apply keeps
it. A rollback feeds in fields that already carry numbers, and `AssignProtoNumbers` does not compare these with what
has been given out or retired since.
-/

namespace Atlantis.Proto

open Schema Codegen Lib

/-! ## Histories -/

/-- A schema as `Lower` returns it: no numbers yet. -/
def FreshIR (ir : IR) : Prop := (ir.entities.map Entity.id).Nodup ∧ ∀ e ∈ ir.entities, Unassigned e

instance (ir : IR) : Decidable (FreshIR ir) := inferInstanceAs (Decidable (_ ∧ ∀ e ∈ ir.entities, _))

/-- What persists a schema: an apply, or a rollback by a number of versions. -/
inductive NumberStep where
  | apply (ir : IR)
  | rollback (back : Nat)

/-- The schema in force. -/
def inForce (h : List IR) : IR := h.head?.getD ⟨[]⟩

/-- One step. -/
def NumberStep.take (h : List IR) : NumberStep → Option (List IR)
  | .apply ir => if FreshIR ir then some (AssignProtoNumbers (inForce h) ir :: h) else none
  | .rollback back => h[back]?.map fun target => AssignProtoNumbers (inForce h) target :: h

def numberMachine : Machine (List IR) NumberStep := ⟨(· = []), NumberStep.take⟩

/-- **What is promised about numbers.** -/
structure StableNumbers (h : List IR) : Prop where
  live : ∀ ir ∈ h, ∀ e ∈ ir.entities, (∀ f ∈ e.fields, 0 < f.protoNumber) ∧ (e.fields.map Field.protoNumber).Nodup ∧
    ∀ f ∈ e.fields, f.protoNumber ∉ e.retiredProtoNumbers
  /-- A field that is in two consecutive schemas keeps its number. -/
  kept : ∀ new old, [new, old] <:+: h → ∀ e ∈ new.entities, ∀ oldE ∈ old.entities, oldE.id = e.id →
    ∀ f ∈ e.fields, ∀ of ∈ oldE.fields, of.name = f.name → f.protoNumber = of.protoNumber
  /-- While an entity stays, a number has one name. -/
  single : ∀ id stint, stint <:+: h → (∀ ir ∈ stint, ∃ e ∈ ir.entities, e.id = id) →
    ∀ ir ∈ stint, ∀ ir' ∈ stint, ∀ e ∈ ir.entities, ∀ e' ∈ ir'.entities, e.id = id → e'.id = id →
    ∀ f ∈ e.fields, ∀ f' ∈ e'.fields, f.protoNumber = f'.protoNumber → f.name = f'.name

/-- To an entity that is there, a rollback gives back only fields whose numbers are not in use or retired. -/
def NumberStep.RestoresUnknown (h : List IR) : NumberStep → Prop
  | .apply _ => True
  | .rollback back => ∀ target ∈ h[back]?, ∀ e ∈ target.entities, ∀ oldE ∈ (inForce h).entities, oldE.id = e.id →
      Restorable oldE e

instance (h : List IR) : (step : NumberStep) → Decidable (step.RestoresUnknown h)
  | .apply _ => .isTrue trivial
  | .rollback back => inferInstanceAs (Decidable (∀ target ∈ h[back]?, ∀ e ∈ target.entities,
      ∀ oldE ∈ (inForce h).entities, oldE.id = e.id → Restorable oldE e))

/-! ## The invariant -/

/-- Every version of an entity is well numbered and follows the one before. -/
structure Accounts (h : List IR) : Prop where
  ids : ∀ ir ∈ h, (ir.entities.map Entity.id).Nodup
  numbered : ∀ ir ∈ h, ∀ e ∈ ir.entities, WellNumbered e
  chain : h.IsChain fun new old => ∀ e ∈ new.entities, ∀ oldE ∈ old.entities, oldE.id = e.id →
    (ledger oldE).Follows (ledger e)

theorem Accounts.nil : Accounts [] where
  ids := by simp
  numbered := by simp
  chain := List.IsChain.nil

variable {h : List IR}

theorem Accounts.inForce_ids (hacc : Accounts h) : ((inForce h).entities.map Entity.id).Nodup := by
  cases h with
  | nil => exact List.nodup_nil
  | cons ir h => exact hacc.ids ir List.mem_cons_self

theorem Accounts.inForce_numbered (hacc : Accounts h) : ∀ e ∈ (inForce h).entities, WellNumbered e := by
  cases h with
  | nil => exact fun e he => absurd he List.not_mem_nil
  | cons ir h => exact hacc.numbered ir List.mem_cons_self

/-- An entity of a numbered schema, and the version before it. -/
theorem mem_AssignProtoNumbers {oldIR ir : IR} {e' : Entity} (h : e' ∈ (AssignProtoNumbers oldIR ir).entities) :
    ∃ e ∈ ir.entities, e' = assignNumbers (entityByID oldIR e.id) e := by
  obtain ⟨e, he, rfl⟩ := List.mem_map.mp h
  exact ⟨e, he, rfl⟩

@[simp] theorem assignNumbers_id (oldE : Option Entity) (e : Entity) : (assignNumbers oldE e).id = e.id := by
  cases oldE <;> rfl

/-- **One more schema.** -/
theorem Accounts.cons (hacc : Accounts h) {ir : IR} (hids : (ir.entities.map Entity.id).Nodup)
    (hsource : ∀ e ∈ ir.entities, Unassigned e ∨ WellNumbered e)
    (hfree : ∀ e ∈ ir.entities, ∀ oldE ∈ (inForce h).entities, oldE.id = e.id → Restorable oldE e) :
    Accounts (AssignProtoNumbers (inForce h) ir :: h) := by
  have hold : ∀ e ∈ ir.entities, ∀ oldE, entityByID (inForce h) e.id = some oldE →
      WellNumbered oldE ∧ Restorable oldE e := by
    intro e he oldE holdE
    obtain ⟨hmem, hid⟩ := entityByID_mem holdE
    exact ⟨hacc.inForce_numbered oldE hmem, hfree e he oldE hmem hid⟩
  refine ⟨?_, ?_, ?_⟩
  · refine List.forall_mem_cons.mpr ⟨?_, hacc.ids⟩
    have : (AssignProtoNumbers (inForce h) ir).entities.map Entity.id = ir.entities.map Entity.id := by
      simp [AssignProtoNumbers, Function.comp_def]
    rw [this]
    exact hids
  · refine List.forall_mem_cons.mpr ⟨?_, hacc.numbered⟩
    intro e' he'
    obtain ⟨e, he, rfl⟩ := mem_AssignProtoNumbers he'
    cases holdE : entityByID (inForce h) e.id with
    | none => exact (hsource e he).elim wellNumbered_new wellNumbered_back
    | some oldE => exact wellNumbered_next (hold e he oldE holdE).1 (hsource e he) (hold e he oldE holdE).2
  · cases h with
    | nil => exact List.IsChain.singleton _
    | cons current h =>
      refine List.isChain_cons_cons.mpr ⟨?_, hacc.chain⟩
      intro e' he' oldE holdmem hid
      obtain ⟨e, he, rfl⟩ := mem_AssignProtoNumbers he'
      rw [assignNumbers_id] at hid
      have holdE : entityByID current e.id = some oldE := hid ▸ lastWith_of_nodup hacc.inForce_ids holdmem
      show (ledger oldE).Follows (ledger (assignNumbers (entityByID current e.id) e))
      rw [holdE]
      exact follows_assignNumbers (hold e he oldE holdE).1 (hsource e he) (hold e he oldE holdE).2

theorem accounts_take {step : NumberStep} {h' : List IR} (hacc : Accounts h) (hfree : step.RestoresUnknown h)
    (hstep : step.take h = some h') : Accounts h' := by
  cases step with
  | apply ir =>
    obtain ⟨hfresh, hstep⟩ := Option.ite_none_right_eq_some.mp hstep
    cases hstep
    exact hacc.cons hfresh.1 (fun e he => .inl (hfresh.2 e he)) fun e he _ _ _ => (hfresh.2 e he).restorable
  | rollback back =>
    obtain ⟨target, htarget, rfl⟩ := Option.map_eq_some_iff.mp hstep
    have hmem := List.mem_of_getElem? htarget
    exact hacc.cons (hacc.ids target hmem) (fun e he => .inr (hacc.numbered target hmem e he)) (hfree target htarget)

/-! ## What it gives -/

/-- The ledger under an ID; an entity that is not there has an empty one. -/
def ledgerOf (id : String) (ir : IR) : Ledger String Nat :=
  match entityByID ir id with
  | some e => ledger e
  | none => ⟨fun _ => none, ∅⟩

theorem Accounts.stable (hacc : Accounts h) : StableNumbers h where
  live := by
    intro ir hir e he
    exact (wellNumbered_iff.mp (hacc.numbered ir hir e he)).2
  kept := by
    intro new old hpart e he oldE hold hid f hf of hof hname
    have hchain := List.IsChain.infix hacc.chain hpart
    obtain ⟨hfollows, _⟩ := List.isChain_cons_cons.mp hchain
    have hnew := hacc.numbered new (hpart.subset (by simp)) e he
    have hold' := hacc.numbered old (hpart.subset (by simp)) oldE hold
    have hlive := live_of_mem hold'.names hof
    rw [hname] at hlive
    exact (hfollows e he oldE hold hid).kept hlive (live_of_mem hnew.names hf)
  single := by
    intro id stint hpart hthere ir hir ir' hir' e he e' he' hid hid' f hf f' hf' hnum
    have hledger : ∀ ir ∈ stint, ∀ e ∈ ir.entities, e.id = id → ledgerOf id ir = ledger e := by
      rintro ir hir e he rfl
      have hfound : entityByID ir e.id = some e := lastWith_of_nodup (hacc.ids ir (hpart.subset hir)) he
      unfold ledgerOf
      rw [hfound]
    have hchain : (stint.map (ledgerOf id)).IsChain fun new old => old.Follows new := by
      have hfollows := List.IsChain.infix hacc.chain hpart
      rw [List.isChain_map]
      refine List.IsChain.imp_of_mem_imp ?_ hfollows
      intro new old hnew hold hfollows
      obtain ⟨e, he, hid⟩ := hthere new hnew
      obtain ⟨oldE, holdE, hold_id⟩ := hthere old hold
      rw [hledger new hnew e he hid, hledger old hold oldE holdE hold_id]
      exact hfollows e he oldE holdE (hold_id.trans hid.symm)
    have hsound : ∀ l ∈ stint.map (ledgerOf id), l.Sound := by
      intro l hl
      obtain ⟨ir, hir, rfl⟩ := List.mem_map.mp hl
      obtain ⟨e, he, hid⟩ := hthere ir hir
      rw [hledger ir hir e he hid]
      exact (hacc.numbered ir (hpart.subset hir) e he).sound
    have hlive := live_of_mem (hacc.numbered ir (hpart.subset hir) e he).names hf
    have hlive' := live_of_mem (hacc.numbered ir' (hpart.subset hir') e' he').names hf'
    rw [← hledger ir hir e he hid] at hlive
    rw [← hledger ir' hir' e' he' hid', ← hnum] at hlive'
    exact Ledger.holder_unique hchain hsound (List.mem_map_of_mem hir) (List.mem_map_of_mem hir') hlive hlive'

/-- A rollback that brings back a number in use or retired breaks the promise at once. -/
theorem restoresUnknown_of_stable {step : NumberStep} {h' : List IR} (hacc : Accounts h)
    (hstep : step.take h = some h') (hstable : StableNumbers h') : step.RestoresUnknown h := by
  cases step with
  | apply ir => trivial
  | rollback back =>
    obtain ⟨target, htarget, rfl⟩ := Option.map_eq_some_iff.mp hstep
    intro target' htarget' e he oldE hold hid
    obtain rfl : target = target' := Option.some.inj (htarget.symm.trans htarget')
    have hfound : entityByID (inForce h) e.id = some oldE := hid ▸ lastWith_of_nodup hacc.inForce_ids hold
    have hmem : assignNumbers (some oldE) e ∈ (AssignProtoNumbers (inForce h) target).entities := by
      refine List.mem_map.mpr ⟨e, he, ?_⟩
      show assignNumbers (entityByID (inForce h) e.id) e = _
      rw [hfound]
    have hnum := hacc.numbered target (List.mem_of_getElem? htarget) e he
    refine restorable_of_wellNumbered (hacc.inForce_numbered oldE hold) hnum
      (wellNumbered_iff.mpr ⟨?_, hstable.live _ List.mem_cons_self _ hmem⟩)
    rw [assignNumbers_names]
    exact hnum.names

/-- **Numbers are stable** along every history whose rollbacks bring back only unknown numbers, and a step after it
    keeps them stable exactly if it does the same. -/
theorem stableNumbers_iff_restoresUnknown (hreach : numberMachine.Reach NumberStep.RestoresUnknown h) :
    StableNumbers h ∧ ∀ step h', NumberStep.take h step = some h' → (StableNumbers h' ↔ step.RestoresUnknown h) := by
  have hacc : Accounts h := by
    refine Machine.Reach.invariant ?_ ?_ hreach
    · rintro s rfl
      exact Accounts.nil
    · intro s step t hs hok hstep
      exact accounts_take hs hok hstep
  refine ⟨hacc.stable, ?_⟩
  intro step h' hstep
  exact ⟨restoresUnknown_of_stable hacc hstep, fun hfree => (accounts_take hacc hfree hstep).stable⟩

/-- A schema of one entity with the given columns. -/
def itemIR (columns : List String) : IR :=
  ⟨[{ name := "Item", namespace_ := "shop", fields := columns.map fun n => { name := n, type := .simple "text" } }]⟩

/-- **A rollback takes a retired number**: a column is removed, and comes back with the number that was retired with
    it. -/
theorem rollback_reuses_retired : ∃ h, numberMachine.Reachable h ∧ ¬ StableNumbers h := by
  obtain ⟨h, hrun, ir, hir, e, he, f, hf, hretired⟩ :
      ∃ h, numberMachine.run [] [.apply (itemIR ["id", "note"]), .apply (itemIR ["id"]), .rollback 1] = some h ∧
        ∃ ir ∈ h, ∃ e ∈ ir.entities, ∃ f ∈ e.fields, f.protoNumber ∈ e.retiredProtoNumbers := by
    decide +kernel
  refine ⟨h, Machine.reachable_of_run (.initial rfl) hrun, ?_⟩
  intro hstable
  exact (hstable.live ir hir e he).2.2 f hf hretired

/-- A rollback over an added column retires its number. -/
theorem stableNumbers_iff_restoresUnknown_dropped :
    ∃ h, numberMachine.Reach NumberStep.RestoresUnknown h ∧ h.length = 3 ∧ StableNumbers h := by
  obtain ⟨h₁, hh₁, h₂, hh₂, hrollback, h₃, hh₃, hlength⟩ :
      ∃ h₁, numberMachine.step [] (.apply (itemIR ["id"])) = some h₁ ∧
      ∃ h₂, numberMachine.step h₁ (.apply (itemIR ["id", "note"])) = some h₂ ∧
        NumberStep.RestoresUnknown h₂ (.rollback 1) ∧
      ∃ h₃, numberMachine.step h₂ (.rollback 1) = some h₃ ∧ h₃.length = 3 := by
    decide +kernel
  have happly : ∀ h ir, NumberStep.RestoresUnknown h (.apply ir) := fun _ _ => trivial
  have hreach : numberMachine.Reach NumberStep.RestoresUnknown h₃ :=
    .step (.step (.step (.initial rfl) (happly [] _) hh₁) (happly h₁ _) hh₂) hrollback hh₃
  exact ⟨h₃, hreach, hlength, (stableNumbers_iff_restoresUnknown hreach).1⟩

end Atlantis.Proto
