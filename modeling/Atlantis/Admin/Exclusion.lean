import Atlantis.Admin.PlanBinding
import Atlantis.Admin.System

/-!
# `Admin.Exclusion` — schema changes while a backfill runs

Between the commit of a begin and the end of its plan the schema is half migrated. `ApplyMigration` refuses to work
on top of a plan in flight, but it asks for plans of its own caller only, before it takes the lock, and counts a
query that fails as no plan; beginning another plan, rolling back and adopting do not ask at all. So the checkpoint
is rewritten under a running plan in many ways, one of them being an apply by another caller.

`Alone` is what a run has to keep for the exclusion to hold, and `not_landsInBackfill_of_alone` that it is enough: then
an apply that has passed its check finds no plan in flight until it commits.
-/

namespace Atlantis.Admin

open Schema Codegen Proto Lib

/-- Some plan has begun and not reached its end. -/
def Database.inFlight (db : Database) : Prop := ∃ p ∈ db.plans, p.inFlight = true

/-- **A call lands inside a backfill**: a step rewrites the checkpoint while a plan is in flight. Every checkpoint
    that is written leaves a version. -/
def LandsInBackfill (s t : System) : Prop := s.db.inFlight ∧ t.db.versions ≠ s.db.versions

/-! ## The gap -/

def crmDecl : EntityDecl := { entity := { name := "Lead", namespace_ := "crm", fields := [idField] }, declared := by decide +kernel }

/-- An apply by a second caller, planned on the checkpoint that the begin has written. -/
def crmRequest : ApplyRequest where
  caller := "crm"
  planID := "crm\x00crm:crm.atl\x00shop.Item:id,note"
  files := [⟨"crm.atl", .ok { decls := [crmDecl] }⟩]

/-- The first caller begins to fill its notes. -/
def beginFill : Act := .begin {} (fillRequest filledTexts.preBackfillUpSQL)

/-- **Another caller's apply rewrites the checkpoint under a plan in flight.** -/
theorem apply_lands_in_backfill :
    ∃ s t, (systemMachine plainCodec System.Fresh).Reachable s ∧
      s.step plainCodec (.applyCommit insertionOrder {} crmRequest) = some t ∧ LandsInBackfill s t := by
  obtain ⟨s, hs, t, ht, hflight, hversions⟩ :
      ∃ s ∈ (systemMachine plainCodec System.Fresh).run ⟨itemApplied, [], [], []⟩ [beginFill, .applyCheck {} crmRequest],
        ∃ t ∈ s.step plainCodec (.applyCommit insertionOrder {} crmRequest), (∃ p ∈ s.db.plans, p.inFlight = true) ∧
          t.db.versions.length ≠ s.db.versions.length := by
    decide +kernel
  exact ⟨s, t, Machine.reachable_of_run (.initial ⟨rfl, rfl, rfl, rfl⟩) hs, ht, hflight,
    fun hsame => hversions (congrArg List.length hsame)⟩

/-! ## Runs that keep apart -/

/-- Nothing but an apply of the plan's own caller starts while a plan is in flight, that apply's query for plans
    answers, and no plan begins while an apply stands between its check and its transaction. -/
def Alone (s : System) : Act → Prop
  | .applyCheck host req => host.inflightAnswers = true ∧ ∀ p ∈ s.db.plans, p.inFlight = true → p.caller = req.caller
  | .begin _ _ => ¬ s.db.inFlight ∧ s.checked = []
  | .rollback .. | .adopt .. => ¬ s.db.inFlight
  | _ => True

variable {C : Codec} {s t : System} {a : Act}

/-- What a step does to the applies between check and transaction. -/
theorem step_checked (h : s.step C a = some t) :
    (∃ host req, a = .applyCheck host req ∧ applyCheck host s.db req = .ok ()) ∨ ∀ req ∈ t.checked, req ∈ s.checked := by
  cases a with
  | applyCheck host req =>
    unfold System.step at h
    simp only at h
    split at h
    · rename_i hcheck
      exact .inl ⟨host, req, rfl, hcheck⟩
    · cases h
  | applyCommit ord host req =>
    obtain ⟨_, h⟩ := Option.ite_none_right_eq_some.mp h
    split at h
    · cases h
      exact .inr fun r hr => List.mem_of_mem_erase hr
    · cases h
      exact .inr fun r hr => List.mem_of_mem_erase hr
  | begin | indexes | rollback | adopt | chunkFails | markFailed =>
    unfold System.step at h
    simp only at h
    split at h
    · cases h
      exact .inr fun _ hr => hr
    · cases h
  | chunk | phaseThree =>
    obtain ⟨_, _, rfl⟩ := Option.map_eq_some_iff.mp h
    exact .inr fun _ hr => hr

/-- **The invariant**: an apply between check and transaction excludes plans in flight. -/
def CheckedAlone (s : System) : Prop := s.checked ≠ [] → ¬ s.db.inFlight

theorem checkedAlone_step (hinv : CheckedAlone s) (hok : Alone s a) (h : s.step C a = some t) : CheckedAlone t := by
  intro hchecked hflight
  obtain ⟨req, rest, hreq⟩ := List.exists_cons_of_ne_nil hchecked
  rcases step_plans h with ⟨host, req', rfl⟩ | ⟨g, hg, hplans⟩
  · -- a plan begins when nothing is between check and transaction
    rcases step_checked h with ⟨_, _, hcheck, _⟩ | hsub
    · cases hcheck
    · have hmem := hsub req (hreq ▸ List.mem_cons_self)
      rw [hok.2] at hmem
      cases hmem
  · -- what is in flight was so before the step
    have hbefore : s.db.inFlight := by
      obtain ⟨q, hq, hq'⟩ := hflight
      rw [hplans] at hq
      obtain ⟨p, hp, rfl⟩ := List.mem_map.mp hq
      exact ⟨p, hp, (hg p).inFlight hq'⟩
    rcases step_checked h with ⟨host, req', rfl, hcheck⟩ | hsub
    · -- the check that passes sees the caller's own plans, and there are no others in flight
      obtain ⟨p, hp, hflight⟩ := hbefore
      unfold applyCheck at hcheck
      obtain ⟨_, _, hcheck⟩ := bind_ok hcheck
      obtain ⟨_, _, hcheck⟩ := bind_ok hcheck
      obtain ⟨_, _, hcheck⟩ := bind_ok hcheck
      have hnone := require_eq_ok.mp hcheck
      rw [hok.1, Bool.true_and, Bool.not_eq_true'] at hnone
      unfold hasInflightBackfill at hnone
      rw [List.any_eq_false] at hnone
      refine hnone p hp (decide_eq_true ⟨hok.2 p hp hflight, ?_⟩)
      unfold BackfillPlan.inFlight at hflight
      simpa using hflight
    · exact hinv (List.ne_nil_of_mem (hsub req (hreq ▸ List.mem_cons_self))) hbefore

/-- **No call lands inside a backfill in a run that keeps apart.** -/
theorem not_landsInBackfill_of_alone (hs : (systemMachine C System.Fresh).Reach Alone s) (hok : Alone s a)
    (h : s.step C a = some t) : ¬ LandsInBackfill s t := by
  have hinv : CheckedAlone s := by
    refine hs.invariant ?_ fun s a t hinv hok h => checkedAlone_step hinv hok h
    intro s hfresh hchecked
    exact absurd hfresh.2.1 hchecked
  rintro ⟨hflight, hversions⟩
  cases a with
  | applyCheck | indexes | chunk | chunkFails | markFailed | phaseThree =>
    obtain ⟨g, _, hdb⟩ := step_work h rfl
    exact hversions (by rw [hdb])
  | begin host req => exact hok.1 hflight
  | rollback | adopt => exact hok hflight
  | applyCommit ord host req =>
    obtain ⟨hmem, _⟩ := Option.ite_none_right_eq_some.mp h
    exact hinv (List.ne_nil_of_mem hmem) hflight

/-- A chunk of the worker, with the plan in flight. -/
theorem not_landsInBackfill_of_alone_chunk :
    ∃ s t, (systemMachine plainCodec System.Fresh).Reach Alone s ∧ s.db.inFlight ∧
      s.step plainCodec (.chunk filledPlanID "shop.Item" "note" 10) = some t ∧ ¬ LandsInBackfill s t := by
  obtain ⟨s, hs, t, ht, hflight⟩ : ∃ s ∈ System.step plainCodec ⟨itemApplied, [], [], []⟩ beginFill,
      ∃ t ∈ s.step plainCodec (.chunk filledPlanID "shop.Item" "note" 10), ∃ p ∈ s.db.plans, p.inFlight = true := by
    decide +kernel
  have hinit : (systemMachine plainCodec System.Fresh).Reach Alone ⟨itemApplied, [], [], []⟩ :=
    .initial ⟨rfl, rfl, rfl, rfl⟩
  have hidle : ¬ itemApplied.inFlight := by
    rintro ⟨p, hp, _⟩
    cases hp
  have hreach := hinit.next beginFill ⟨hidle, rfl⟩ hs
  have hchunk : Alone s (.chunk filledPlanID "shop.Item" "note" 10) := trivial
  exact ⟨s, t, hreach, hflight, ht, not_landsInBackfill_of_alone hreach hchunk ht⟩

end Atlantis.Admin
