import Mathlib.Data.List.Count
import Atlantis.Workflows.Engine

/-!
# `Workflows.Order` — in which order the steps run

A workflow runs its steps in order when the job of each step after the first is enqueued once, not before the job of the
step before it has completed, and when the instance is complete only after all steps (`InOrder`). `OnJobComplete` is told
which job has completed and does not look at it: `advanceWorkflow` goes one step on from `current_step` whatever the
reason. A job that is reported twice moves the workflow twice.

The steps do run in order as long as the engine is only told what it takes for granted (`Orderly`): that the job of the
current step has completed, for the first time, and with no other call in the middle of moving the workflow. `OnJobFailed`
may come at any time. The invariant is `Lined`: the jobs so far are the first steps of the declaration, all but the last
of them have been reported, and the one call that is moving the workflow stands where `AtCall` says.
-/

namespace Atlantis.Workflows

open Lib

/-! ## What is asked -/

/-- A job of the step has been reported complete. -/
def Sys.Completed (σ : Sys) (stepName : String) : Prop :=
  ∃ jobID ∈ σ.reported, (σ.db.enqueued[jobID]?).map WorkflowStep.name = some stepName

/-- **Each step once and after the one before, the end after all of them.** -/
structure InOrder (wf : Workflow) (σ : Sys) : Prop where
  once : ∀ k s, wf.steps[k + 1]? = some s → (σ.db.enqueued.map WorkflowStep.name).count s.name ≤ 1
  after : ∀ k s s', wf.steps[k]? = some s → wf.steps[k + 1]? = some s' → s'.name ∈ σ.db.enqueued.map WorkflowStep.name →
    σ.Completed s.name
  complete : σ.db.status = some .complete → ∀ s ∈ wf.steps, σ.Completed s.name

/-- The call is between two statements of `StartWorkflow` or of `OnJobComplete`. -/
def Call.advancing : Call → Bool
  | .starting | .started _ | .looked .. | .recorded | .finishing | .enqueuing _ | .moving _ => true
  | .idle | .failing | .marked | .compensating _ => false

/-- **What `OnJobComplete` takes for granted**: the job is that of the current step, it has not been reported before, and
    no other call is moving the workflow. -/
def Orderly (σ : Sys) : Act → Prop
  | .call _ (.onJobComplete jobID) =>
    (σ.db.enqueued[jobID]?).map WorkflowStep.name = some σ.db.currentStep ∧ jobID ∉ σ.reported ∧
      ∀ c, (σ.calls c).advancing = false
  | _ => True

/-! ## The invariant -/

/-- What a call that is moving the workflow relies on. -/
def AtCall (wf : Workflow) (σ : Sys) : Call → Prop
  | .starting => σ.db.enqueued = []
  | .looked .. | .recorded => ∃ k s, σ.db.enqueued.length = k + 1 ∧ wf.steps[k]? = some s ∧
      σ.db.currentStep = s.name ∧ k ∈ σ.reported
  | .finishing => σ.db.enqueued.length = wf.steps.length ∧ ∀ i < wf.steps.length, i ∈ σ.reported
  | .enqueuing step => wf.steps[σ.db.enqueued.length]? = some step ∧ ∀ i < σ.db.enqueued.length, i ∈ σ.reported
  | _ => True

/-- The jobs stand in line. -/
structure Lined (wf : Workflow) (σ : Sys) : Prop where
  jobs : σ.db.enqueued = wf.steps.take σ.db.enqueued.length
  reported : ∀ i, i + 1 < σ.db.enqueued.length → i ∈ σ.reported
  fresh : σ.db.status = none → σ.db.enqueued = [] ∧ ∀ c, (σ.calls c).advancing = false
  alone : ∀ c c', (σ.calls c).advancing = true → (σ.calls c').advancing = true → c = c'
  atCall : ∀ c, AtCall wf σ (σ.calls c)
  complete : σ.db.status = some .complete →
    σ.db.enqueued.length = wf.steps.length ∧ ∀ i < wf.steps.length, i ∈ σ.reported

variable {wf : Workflow} {σ τ : Sys}

variable {call : Call} {c i : Nat}

/-- A job's id is the place of its step. -/
theorem Lined.job (h : Lined wf σ) (hi : i < σ.db.enqueued.length) : σ.db.enqueued[i]? = wf.steps[i]? := by
  rw [h.jobs, List.getElem?_take_of_lt hi]

theorem Lined.length_le (h : Lined wf σ) : σ.db.enqueued.length ≤ wf.steps.length := by
  rw [h.jobs]
  exact List.length_take_le' ..

theorem Lined.completed (h : Lined wf σ) {s : WorkflowStep} (hi : i < σ.db.enqueued.length)
    (hs : wf.steps[i]? = some s) (hrep : i ∈ σ.reported) : σ.Completed s.name := by
  refine ⟨i, hrep, ?_⟩
  rw [h.job hi, hs]
  rfl

/-- Steps in line are steps in order. -/
theorem Lined.inOrder (h : Lined wf σ) : InOrder wf σ where
  once k s _ := by
    refine List.nodup_iff_count_le_one.mp ?_ s.name
    rw [h.jobs, List.map_take]
    exact wf.nodup.sublist (List.take_sublist ..)
  after k s s' hs hs' hmem := by
    obtain ⟨t, ht, hname⟩ := List.mem_map.mp hmem
    obtain ⟨i, hi, hti⟩ := List.getElem_of_mem ht
    have hti : wf.steps[i]? = some t := by
      rw [← h.job hi, List.getElem?_eq_getElem hi, hti]
    have hik : i = k + 1 := idx_of_name hti hs' hname
    exact h.completed (by omega) hs (h.reported k (by omega))
  complete hstatus s hs := by
    obtain ⟨i, hi, hsi⟩ := List.getElem_of_mem hs
    obtain ⟨hlen, hall⟩ := h.complete hstatus
    refine h.completed (by omega) ?_ (hall i hi)
    rw [List.getElem?_eq_getElem hi, hsi]

theorem lined_init : Lined wf {} where
  jobs := rfl
  reported i hi := absurd hi (Nat.not_lt_zero _)
  fresh _ := ⟨rfl, fun _ => rfl⟩
  alone _ _ h := by cases h
  atCall _ := trivial
  complete h := by cases h

/-! ## One statement -/

theorem atCall_of_not_advancing (h : call.advancing = false) : AtCall wf σ call := by
  cases call with
  | idle | failing | marked | compensating => trivial
  | starting | started | looked | recorded | finishing | enqueuing | moving => cases h

/-- Statements that leave the jobs, the current step and the calls that move the workflow alone. -/
theorem Lined.same (h : Lined wf σ) (henq : τ.db.enqueued = σ.db.enqueued) (hcur : τ.db.currentStep = σ.db.currentStep)
    (hrep : τ.reported = σ.reported) (hcalls : ∀ c, (τ.calls c).advancing = true → τ.calls c = σ.calls c)
    (hnone : τ.db.status = none → σ.db.status = none)
    (hcomplete : τ.db.status = some .complete → σ.db.status = some .complete) : Lined wf τ where
  jobs := by
    rw [henq]
    exact h.jobs
  reported i hi := by
    rw [hrep]
    exact h.reported i (henq ▸ hi)
  fresh hstatus := by
    obtain ⟨hempty, hidle⟩ := h.fresh (hnone hstatus)
    refine ⟨henq.trans hempty, fun c => Bool.eq_false_iff.mpr fun hadv => ?_⟩
    rw [hcalls c hadv, hidle c] at hadv
    cases hadv
  alone c c' hc hc' := h.alone c c' (hcalls c hc ▸ hc) (hcalls c' hc' ▸ hc')
  atCall c := by
    by_cases hadv : (τ.calls c).advancing = true
    · have hat : AtCall wf τ (τ.calls c) = AtCall wf σ (τ.calls c) := by
        unfold AtCall
        rw [henq, hcur, hrep]
      rw [hat, hcalls c hadv]
      exact h.atCall c
    · exact atCall_of_not_advancing (Bool.eq_false_iff.mpr hadv)
  complete hstatus := by
    rw [henq, hrep]
    exact h.complete (hcomplete hstatus)

/-- A statement of the call that moves the workflow. -/
theorem Lined.move (hothers : ∀ c', c' ≠ c → (σ.calls c').advancing = false)
    (hcalls : τ.calls = Function.update σ.calls c call) (hjobs : τ.db.enqueued = wf.steps.take τ.db.enqueued.length)
    (hrep : ∀ i, i + 1 < τ.db.enqueued.length → i ∈ τ.reported) (hstatus : τ.db.status ≠ none) (hat : AtCall wf τ call)
    (hcomplete : τ.db.status = some .complete →
      τ.db.enqueued.length = wf.steps.length ∧ ∀ i < wf.steps.length, i ∈ τ.reported) : Lined wf τ := by
  have hself : ∀ c', (τ.calls c').advancing = true → c' = c := by
    intro c' hadv
    by_contra hne
    rw [hcalls, Function.update_of_ne hne, hothers c' hne] at hadv
    cases hadv
  refine ⟨hjobs, hrep, fun h => absurd h hstatus, fun c₁ c₂ h₁ h₂ => (hself c₁ h₁).trans (hself c₂ h₂).symm, fun c' => ?_,
    hcomplete⟩
  by_cases hc : c' = c
  · rw [hc, hcalls, Function.update_self]
    exact hat
  · rw [hcalls, Function.update_of_ne hc]
    exact atCall_of_not_advancing (hothers c' hc)

/-- While one call moves the workflow the others do not. -/
theorem Lined.others (h : Lined wf σ) (hc : (σ.calls c).advancing = true) (c' : Nat) (hne : c' ≠ c) :
    (σ.calls c').advancing = false :=
  Bool.eq_false_iff.mpr fun hc' => hne (h.alone c' c hc' hc)

theorem Lined.exists_of_advancing (h : Lined wf σ) (hc : (σ.calls c).advancing = true) :
    σ.db.status ≠ none := fun hnone => by
  rw [(h.fresh hnone).2 c] at hc
  cases hc

/-- A call that has come to its end, or stands outside the moving of the workflow. -/
theorem calls_update (hcall : call.advancing = false) (c' : Nat)
    (h : (Function.update σ.calls c call c').advancing = true) : Function.update σ.calls c call c' = σ.calls c' := by
  by_cases hc : c' = c
  · rw [hc, Function.update_self, hcall] at h
    cases h
  · exact Function.update_of_ne hc ..

/-- `StartWorkflow` and `advanceWorkflow` put the next step's job at the end of the line. -/
theorem Lined.enqueue (h : Lined wf σ) {step : WorkflowStep} (hc : (σ.calls c).advancing = true)
    (hstep : wf.steps[σ.db.enqueued.length]? = some step) (hrep : ∀ i < σ.db.enqueued.length, i ∈ σ.reported)
    (hat : AtCall wf { σ with db := σ.db.enqueue step } call) :
    Lined wf { σ with db := σ.db.enqueue step, calls := Function.update σ.calls c call } := by
  have hlen : (σ.db.enqueue step).enqueued.length = σ.db.enqueued.length + 1 := List.length_append ..
  have hlt : σ.db.enqueued.length < wf.steps.length := (List.getElem?_eq_some_iff.mp hstep).1
  refine Lined.move (h.others hc) rfl ?_ (fun i hi => hrep i ?_) (h.exists_of_advancing hc) hat fun hcomplete => ?_
  · show σ.db.enqueued ++ [step] = wf.steps.take (σ.db.enqueue step).enqueued.length
    rw [hlen, List.take_add_one, hstep, ← h.jobs]
    rfl
  · have hi : i + 1 < (σ.db.enqueue step).enqueued.length := hi
    omega
  · -- a complete workflow has no step left to enqueue
    have := (h.complete hcomplete).1
    omega

/-- `OnJobComplete` begins. -/
theorem Lined.onJobComplete (h : Lined wf σ) {jobID : Nat} (hok : Orderly σ (.call c (.onJobComplete jobID)))
    (hlt : jobID < σ.db.enqueued.length) (hcall : call = .idle ∨ ∃ stepName, call = .looked stepName jobID) :
    Lined wf { σ with calls := Function.update σ.calls c call, reported := jobID :: σ.reported } := by
  obtain ⟨hcurrent, hnew, hidle⟩ := hok
  -- all jobs but the last have been reported, so this is the last
  have hlast : σ.db.enqueued.length = jobID + 1 := by
    by_contra hne
    exact hnew (h.reported jobID (by omega))
  rw [h.job hlt] at hcurrent
  obtain ⟨step, hstep, hname⟩ := Option.map_eq_some_iff.mp hcurrent
  have hat : AtCall wf { σ with reported := jobID :: σ.reported } call := by
    rcases hcall with rfl | ⟨stepName, rfl⟩
    · trivial
    · exact ⟨jobID, step, hlast, hstep, hname.symm, List.mem_cons_self⟩
  refine Lined.move (fun c' _ => hidle c') rfl h.jobs (fun i hi => List.mem_cons_of_mem _ (h.reported i hi))
    (fun hnone => ?_) hat fun hcomplete => ?_
  · rw [(h.fresh hnone).1] at hlt
    exact absurd hlt (Nat.not_lt_zero _)
  · obtain ⟨hlen, hall⟩ := h.complete hcomplete
    exact ⟨hlen, fun i hi => List.mem_cons_of_mem _ (hall i hi)⟩

/-- A moving call takes a step that leaves the line as it is. -/
theorem Lined.proceed (h : Lined wf σ) {db : Db} (hc : (σ.calls c).advancing = true)
    (henq : db.enqueued = σ.db.enqueued) (hstatus : db.status = σ.db.status) (hat : AtCall wf { σ with db := db } call) :
    Lined wf { σ with db := db, calls := Function.update σ.calls c call } := by
  refine Lined.move (h.others hc) rfl ?_ (fun i hi => h.reported i ?_) ?_ hat fun hcomplete => ?_
  · show db.enqueued = wf.steps.take db.enqueued.length
    rw [henq]
    exact h.jobs
  · exact henq ▸ hi
  · show db.status ≠ none
    rw [hstatus]
    exact h.exists_of_advancing hc
  · have hlen := h.complete (hstatus ▸ hcomplete)
    rw [← henq] at hlen
    exact hlen

/-- `compensateWorkflow` marks the instance. -/
theorem Lined.setStatus (h : Lined wf σ) {status : InstanceStatus} (hcall : call.advancing = false)
    (hne : status ≠ .complete) :
    Lined wf { σ with db := σ.db.setStatus status, calls := Function.update σ.calls c call } := by
  refine h.same rfl rfl rfl (calls_update hcall) Option.map_eq_none_iff.mp fun hstatus => ?_
  obtain ⟨_, -, hc⟩ := Option.map_eq_some_iff.mp hstatus
  exact absurd hc hne

/-- **Each statement keeps the line.** -/
theorem Lined.next (h : Lined wf σ) {a : CallAct} {db : Db} (hok : Orderly σ (.call c a))
    (hnext : (σ.calls c).next wf σ.db a = some (call, db)) :
    Lined wf { db, calls := Function.update σ.calls c call, reported := a.reports ++ σ.reported } := by
  have hat := h.atCall c
  generalize hcall : σ.calls c = before at hnext hat
  unfold Call.next at hnext
  -- the cases are those of the definition, in its order
  split at hnext
  case h_1 =>
    split at hnext
    · rename_i hnone
      cases hnext
      obtain ⟨hempty, hidle⟩ := h.fresh hnone
      refine Lined.move (fun c' _ => hidle c') rfl h.jobs h.reported (Option.some_ne_none _) hempty
        fun hcomplete => ?_
      cases hcomplete
    · cases hnext
  case h_2 =>
    split at hnext
    · cases hnext
      exact h.same rfl rfl rfl (calls_update rfl) id id
    · rename_i step rest hsteps
      cases hnext
      have hempty : σ.db.enqueued = [] := hat
      refine h.enqueue (hcall ▸ rfl) ?_ (fun i hi => ?_) trivial
      · rw [hempty, hsteps]
        rfl
      · rw [hempty] at hi
        exact absurd hi (Nat.not_lt_zero i)
  case h_3 | h_9 =>
    cases hnext
    exact h.proceed (hcall ▸ rfl) rfl rfl trivial
  case h_4 =>
    split at hnext
    · rename_i hlt
      split at hnext
      · cases hnext
        exact h.onJobComplete hok hlt (.inl rfl)
      · cases hnext
        exact h.onJobComplete hok hlt (.inr ⟨_, rfl⟩)
    · cases hnext
  case h_5 =>
    cases hnext
    exact h.proceed (hcall ▸ rfl) rfl rfl hat
  case h_6 =>
    cases hnext
    refine h.proceed (hcall ▸ rfl) rfl rfl ?_
    -- `advanceWorkflow` decides
    obtain ⟨k, step, hlen, hstep, hname, hk⟩ := hat
    have hall : ∀ i < σ.db.enqueued.length, i ∈ σ.reported := by
      intro i hi
      by_cases hik : i = k
      · rw [hik]
        exact hk
      · exact h.reported i (by omega)
    unfold Db.advance
    split
    · rw [hname, nextStep_name hstep, ← hlen]
      cases hnext : wf.steps[σ.db.enqueued.length]? with
      | some step' => exact ⟨hnext, hall⟩
      | none =>
        have hpast := List.getElem?_eq_none_iff.mp hnext
        have hle := h.length_le
        exact ⟨Nat.le_antisymm hle hpast, fun i hi => hall i (Nat.lt_of_lt_of_le hi hpast)⟩
    · trivial
  case h_7 =>
    cases hnext
    have hadv : (σ.calls c).advancing = true := hcall ▸ rfl
    refine Lined.move (h.others hadv) rfl h.jobs h.reported ?_ trivial fun _ => hat
    show σ.db.status.map _ ≠ none
    rw [Ne, Option.map_eq_none_iff]
    exact h.exists_of_advancing hadv
  case h_8 =>
    cases hnext
    exact h.enqueue (hcall ▸ rfl) hat.1 hat.2 trivial
  case h_10 =>
    split at hnext
    · split at hnext
      all_goals
        cases hnext
        exact h.same rfl rfl rfl (calls_update rfl) id id
    · cases hnext
  case h_11 | h_15 =>
    cases hnext
    exact h.setStatus rfl (by decide)
  case h_12 =>
    split at hnext
    · cases hnext
      exact h.same rfl rfl rfl (calls_update rfl) id id
    · cases hnext
  case h_13 =>
    cases hnext
    rw [Db.enqueueCompensation_eq]
    exact h.same rfl rfl rfl (calls_update rfl) id id
  case h_14 | h_16 =>
    cases hnext
    exact h.same rfl rfl rfl (calls_update rfl) id id
  case h_17 => cases hnext

theorem Lined.step (h : Lined wf σ) {a : Act} (hok : Orderly σ a) (hstep : σ.step wf a = some τ) : Lined wf τ := by
  cases a with
  | call c a =>
    obtain ⟨⟨call, db⟩, hnext, rfl⟩ := Option.map_eq_some_iff.mp hstep
    exact h.next hok hnext
  | tick | removeJob =>
    cases hstep
    exact h.same rfl rfl rfl (fun _ _ => rfl) id id

/-- **Told only what it takes for granted, the engine runs the steps in order**: in every interleaving of any number of
    calls, with failures and lost processes anywhere. -/
theorem inOrder_of_orderly (h : (engine wf).Reach Orderly σ) : InOrder wf σ := by
  have hlined : Lined wf σ := by
    refine Machine.Reach.invariant (I := Lined wf) ?_ ?_ h
    · rintro s rfl
      exact lined_init
    · intro s a t hs hok hstep
      exact hs.step hok hstep
  exact hlined.inOrder

/-! ## Told otherwise -/

private def onboardAccount : Workflow where
  steps := [⟨"create", "directory.Create"⟩, ⟨"import", "directory.Import"⟩, ⟨"greet", "directory.Greet"⟩]
  compensations := []
  nodup := by decide
  named := by decide

/-- `StartWorkflow` from one end to the other. -/
private def begin : List Act := [.call 0 .startWorkflow, .call 0 .enqueueFirst, .call 0 .setFirst]

/-- `OnJobComplete` up to the decision, and on to the next step. -/
private def report (jobID : Nat) : List Act :=
  [.call 0 (.onJobComplete jobID), .call 0 .recordStepComplete, .call 0 .readInstance]

private def goOn : List Act := [.call 0 .enqueueStep, .call 0 .setCurrentStep]

/-- A run after which the steps are not in order. -/
def OutOfOrder (wf : Workflow) (as : List Act) (names : List String) (status : InstanceStatus) (reported : List Nat) :
    Prop :=
  ∃ σ, (engine wf).run {} as = some σ ∧ σ.db.enqueued.map WorkflowStep.name = names ∧ σ.db.status = some status ∧
    σ.reported = reported ∧ ¬ InOrder wf σ

instance (σ : Sys) (stepName : String) : Decidable (σ.Completed stepName) :=
  inferInstanceAs (Decidable (∃ jobID ∈ σ.reported, _))

/-- **The job of the first step, reported again.** A second time, and the last step's job is enqueued while the second
    step's has not run. A third time, and the instance is complete. Twice at once, and the second step's job is enqueued
    twice. -/
theorem steps_out_of_order :
    OutOfOrder onboardAccount (begin ++ report 0 ++ goOn ++ report 0 ++ goOn) ["create", "import", "greet"] .running
      [0, 0] ∧
    OutOfOrder onboardAccount (begin ++ report 0 ++ goOn ++ report 0 ++ goOn ++ report 0 ++ [.call 0 .markComplete])
      ["create", "import", "greet"] .complete [0, 0, 0] ∧
    OutOfOrder onboardAccount (begin ++ report 0 ++ [.call 1 (.onJobComplete 0), .call 1 .recordStepComplete,
      .call 1 .readInstance] ++ goOn ++ [.call 1 .enqueueStep]) ["create", "import", "import"] .running [0, 0] := by
  refine ⟨⟨_, rfl, rfl, rfl, rfl, ?_⟩, ⟨_, rfl, rfl, rfl, rfl, ?_⟩, ⟨_, rfl, rfl, rfl, rfl, ?_⟩⟩
  · intro h
    exact absurd (h.after 1 _ _ rfl rfl (by decide)) (by decide)
  · intro h
    exact absurd (h.complete rfl ⟨"greet", "directory.Greet"⟩ (by decide)) (by decide)
  · intro h
    exact absurd (h.once 0 _ rfl) (by decide)

/-- Each job reported once: the workflow is complete after three. -/
theorem steps_in_order : ∃ σ, (engine onboardAccount).Reach Orderly σ ∧
    σ.db.enqueued.map WorkflowStep.name = ["create", "import", "greet"] ∧ σ.db.status = some .complete ∧
    InOrder onboardAccount σ := by
  have hrun : ∃ σ, (engine onboardAccount).run {} (begin ++ report 0 ++ goOn ++ report 1 ++ goOn ++ report 2 ++
      [.call 0 .markComplete]) = some σ ∧ σ.db.enqueued.map WorkflowStep.name = ["create", "import", "greet"] ∧
      σ.db.status = some .complete := ⟨_, rfl, rfl, rfl⟩
  have halong : (engine onboardAccount).Along Orderly {} (begin ++ report 0 ++ goOn ++ report 1 ++ goOn ++ report 2 ++
      [.call 0 .markComplete]) := by
    refine .cons trivial rfl <| .cons trivial rfl <| .cons trivial rfl <| .cons ⟨rfl, by decide, ?_⟩ rfl <|
      .cons trivial rfl <| .cons trivial rfl <| .cons trivial rfl <| .cons trivial rfl <|
      .cons ⟨rfl, by decide, ?_⟩ rfl <| .cons trivial rfl <| .cons trivial rfl <| .cons trivial rfl <|
      .cons trivial rfl <| .cons ⟨rfl, by decide, ?_⟩ rfl <| .cons trivial rfl <| .cons trivial rfl <|
      .cons trivial rfl trivial
    -- between two reports the one process there is is idle
    all_goals
      intro c
      by_cases hc : c = 0
      · rw [hc]
        rfl
      · simp [hc, Call.advancing]
  obtain ⟨σ, hrun, hnames, hstatus⟩ := hrun
  have hreach : (engine onboardAccount).Reach Orderly σ := Machine.reach_of_run (.initial rfl) halong hrun
  exact ⟨σ, hreach, hnames, hstatus, inOrder_of_orderly hreach⟩

end Atlantis.Workflows
