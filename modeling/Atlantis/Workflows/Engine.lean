import Mathlib.Data.List.Nodup
import Atlantis.Lib.Machine

/-!
# `Workflows.Engine` — one workflow instance and the calls that move it

`jobs/workflow.go` and `StartWorkflow` (`internal/server/admin/workflows.go`) on one row of
`atlantis.workflow_instances`. `StartWorkflow`, `OnJobComplete` and `OnJobFailed` are sequences of statements without a
transaction around them: a call is where it stands between two statements (`Call`), a step of a call is one statement
together with what is decided from it (`Call.next`), and calls from any number of processes interleave (`Sys.step`). A
call may stop anywhere, by an error or with its process.

* `Workflow`, `nextStep`, `compByStep` — the lowered declaration and what is read off it
* `Db` — the rows that belong to the instance, and the statements on them
* `Call`, `Call.next`, `Sys`, `engine` — the calls and their interleavings

Both `workflow_id` and `workflow_step` are taken to be columns of `atlantis.jobs`, as the statements here and the comment
of `0010_workflows.up.sql` have it. The checkpoint's declaration does not change while the instance runs. The arguments
of jobs are left out.
-/

namespace Atlantis.Workflows

open Lib

/-! ## The declaration -/

/-- `WorkflowStepIR`. -/
structure WorkflowStep where
  name : String
  targetJobID : String
  deriving DecidableEq, Repr

/-- `WorkflowCompIR`. -/
structure WorkflowComp where
  stepName : String
  targetJobID : String
  deriving DecidableEq, Repr

/-- `dsl.Workflow` as `lowerWorkflow` lets it pass: step names are identifiers and none is given twice. -/
structure Workflow where
  steps : List WorkflowStep
  compensations : List WorkflowComp
  nodup : (steps.map WorkflowStep.name).Nodup
  named : ∀ s ∈ steps, s.name ≠ ""

/-- The loop of `advanceWorkflow` over the steps. -/
def nextIdx (wf : Workflow) (currentStep : String) : Option Nat :=
  if currentStep = "" then some 0
  else ((List.range wf.steps.length).find? fun i =>
    decide ((wf.steps[i]?).map WorkflowStep.name = some currentStep ∧ i + 1 < wf.steps.length)).map (· + 1)

/-- The step after `current_step`; none means that the workflow is complete. -/
def nextStep (wf : Workflow) (currentStep : String) : Option WorkflowStep :=
  (nextIdx wf currentStep).bind fun i => wf.steps[i]?

/-- `compByStep`: of several compensations for a step the map keeps the last. -/
def compByStep (wf : Workflow) (stepName : String) : Option WorkflowComp :=
  (wf.compensations.filter (·.stepName = stepName)).getLast?

/-! ## The rows -/

/-- `workflow_instances.status`; `completing` and `cancelled` are never written. -/
inductive InstanceStatus where
  | running | complete | compensating | failed
  deriving DecidableEq, Repr

/-- A row of `workflow_step_history`. -/
structure HistoryRow where
  stepName : String
  jobID : Nat
  completedAt : Int
  deriving DecidableEq, Repr

/-- A job that `compensateWorkflow` has enqueued, with the step it is for. -/
structure CompJob where
  stepName : String
  jobName : String
  deriving DecidableEq, Repr

/-- What the database has on the instance. -/
structure Db where
  now : Int := 0
  /-- `none`: there is no instance yet. -/
  status : Option InstanceStatus := none
  /-- `COALESCE(current_step, '')`. -/
  currentStep : String := ""
  /-- Every step job there has been; its id is its place. -/
  enqueued : List WorkflowStep := []
  /-- The step jobs that are no longer in `atlantis.jobs`. -/
  gone : List Nat := []
  history : List HistoryRow := []
  compensations : List CompJob := []
  deriving Repr

namespace Db

variable (db : Db)

/-- `lookupWorkflowJob`. -/
def lookupWorkflowJob (jobID : Nat) : Option String :=
  if jobID ∈ db.gone then none else (db.enqueued[jobID]?).map WorkflowStep.name

/-- `INSERT INTO atlantis.workflow_instances`. -/
def insertInstance : Db := { db with status := some .running }

/-- `INSERT INTO atlantis.jobs` with a workflow id. -/
def enqueue (step : WorkflowStep) : Db := { db with enqueued := db.enqueued ++ [step] }

/-- `UPDATE … SET current_step`. -/
def setCurrentStep (name : String) : Db := { db with currentStep := name }

/-- `recordStepComplete`. -/
def recordStepComplete (stepName : String) (jobID : Nat) : Db :=
  { db with history := db.history ++ [⟨stepName, jobID, db.now⟩] }

/-- `UPDATE … SET status`. -/
def setStatus (status : InstanceStatus) : Db := { db with status := db.status.map fun _ => status }

/-- The `INSERT` of `compensateWorkflow`, if the step declares a compensation. -/
def enqueueCompensation (wf : Workflow) (stepName : String) : Db :=
  match compByStep wf stepName with
  | some comp => { db with compensations := db.compensations ++ [⟨stepName, comp.targetJobID⟩] }
  | none => db

theorem enqueueCompensation_eq (wf : Workflow) (stepName : String) :
    db.enqueueCompensation wf stepName = { db with compensations := db.compensations ++
      ((compByStep wf stepName).map fun comp => ⟨stepName, comp.targetJobID⟩).toList } := by
  unfold enqueueCompensation
  cases compByStep wf stepName with
  | some comp => rfl
  | none => rw [Option.map_none, Option.toList_none, List.append_nil]

/-- The row leaves `atlantis.jobs`. -/
def remove (jobID : Nat) : Db := { db with gone := jobID :: db.gone }

/-- `ORDER BY completed_at DESC`: nothing is said about rows of one moment. -/
def Ordered (rows : List HistoryRow) : Prop :=
  rows.Perm db.history ∧ rows.Pairwise fun a b => b.completedAt ≤ a.completedAt

instance (rows : List HistoryRow) : Decidable (db.Ordered rows) := inferInstanceAs (Decidable (_ ∧ _))

end Db

/-! ## The calls -/

/-- Where a call stands. -/
inductive Call where
  | idle
  /-- `StartWorkflow`: the instance is inserted. -/
  | starting
  /-- … and the first step's job. -/
  | started (step : WorkflowStep)
  /-- `OnJobComplete`: the job is a step of the workflow. -/
  | looked (stepName : String) (jobID : Nat)
  /-- … which is in the history now. -/
  | recorded
  /-- `advanceWorkflow` has found no further step. -/
  | finishing
  /-- `advanceWorkflow` has found the next step. -/
  | enqueuing (step : WorkflowStep)
  /-- … and enqueued its job. -/
  | moving (step : WorkflowStep)
  /-- `OnJobFailed`: the job is a step of the workflow. -/
  | failing
  /-- `compensateWorkflow` has marked the instance. -/
  | marked
  /-- … and read the completed steps. -/
  | compensating (steps : List String)
  deriving DecidableEq, Repr

inductive CallAct where
  | startWorkflow
  | enqueueFirst
  | setFirst
  | onJobComplete (jobID : Nat)
  | recordStepComplete
  | readInstance
  | markComplete
  | enqueueStep
  | setCurrentStep
  | onJobFailed (jobID : Nat)
  | markCompensating
  | readHistory (rows : List HistoryRow)
  | enqueueCompensation
  /-- The `INSERT` has failed, which is logged. -/
  | skipCompensation
  | markFailed
  /-- An error, or the end of the process. -/
  | abandon
  deriving DecidableEq, Repr

/-- What `advanceWorkflow` decides. -/
def Db.advance (wf : Workflow) (db : Db) : Call :=
  if db.status = some .running then
    match nextStep wf db.currentStep with
    | none => .finishing
    | some step => .enqueuing step
  else .idle

/-- The next statement of a call. -/
def Call.next (wf : Workflow) (db : Db) : Call → CallAct → Option (Call × Db)
  | .idle, .startWorkflow => if db.status = none then some (.starting, db.insertInstance) else none
  | .starting, .enqueueFirst =>
    match wf.steps with
    | [] => some (.idle, db)
    | step :: _ => some (.started step, db.enqueue step)
  | .started step, .setFirst => some (.idle, db.setCurrentStep step.name)
  | .idle, .onJobComplete jobID =>
    if jobID < db.enqueued.length then
      match db.lookupWorkflowJob jobID with
      | none => some (.idle, db)
      | some stepName => some (.looked stepName jobID, db)
    else none
  | .looked stepName jobID, .recordStepComplete => some (.recorded, db.recordStepComplete stepName jobID)
  | .recorded, .readInstance => some (db.advance wf, db)
  | .finishing, .markComplete => some (.idle, db.setStatus .complete)
  | .enqueuing step, .enqueueStep => some (.moving step, db.enqueue step)
  | .moving step, .setCurrentStep => some (.idle, db.setCurrentStep step.name)
  | .idle, .onJobFailed jobID =>
    if jobID < db.enqueued.length then
      match db.lookupWorkflowJob jobID with
      | none => some (.idle, db)
      | some _ => some (.failing, db)
    else none
  | .failing, .markCompensating => some (.marked, db.setStatus .compensating)
  | .marked, .readHistory rows => if db.Ordered rows then some (.compensating (rows.map (·.stepName)), db) else none
  | .compensating (stepName :: rest), .enqueueCompensation =>
    some (.compensating rest, db.enqueueCompensation wf stepName)
  | .compensating (_ :: rest), .skipCompensation => some (.compensating rest, db)
  | .compensating [], .markFailed => some (.idle, db.setStatus .failed)
  | _, .abandon => some (.idle, db)
  | _, _ => none

/-- The instance, the calls on it, and the jobs that have been reported complete. -/
structure Sys where
  db : Db := {}
  calls : Nat → Call := fun _ => .idle
  reported : List Nat := []

inductive Act where
  | call (c : Nat) (a : CallAct)
  | tick (d : Nat)
  /-- `MoveToDLQ`, by anybody. -/
  | removeJob (jobID : Nat)
  deriving DecidableEq, Repr

/-- What the beginning of `OnJobComplete` tells. -/
def CallAct.reports : CallAct → List Nat
  | .onJobComplete jobID => [jobID]
  | _ => []

/-- One statement of one call. -/
def Sys.step (wf : Workflow) (σ : Sys) : Act → Option Sys
  | .call c a => ((σ.calls c).next wf σ.db a).map fun (call, db) =>
    { db, calls := Function.update σ.calls c call, reported := a.reports ++ σ.reported }
  | .tick d => some { σ with db := { σ.db with now := σ.db.now + d } }
  | .removeJob jobID => some { σ with db := σ.db.remove jobID }

/-- The interleavings of all calls on the instance, from before it exists. -/
def engine (wf : Workflow) : Machine Sys Act where
  initial σ := σ = {}
  step := Sys.step wf

/-! ## The next step -/

/-- The names tell the steps apart. -/
theorem idx_of_name {wf : Workflow} {i j : Nat} {s t : WorkflowStep} (hi : wf.steps[i]? = some s)
    (hj : wf.steps[j]? = some t) (h : s.name = t.name) : i = j := by
  have hlt : i < (wf.steps.map WorkflowStep.name).length := by
    rw [List.length_map]
    exact (List.getElem?_eq_some_iff.mp hi).1
  refine (List.getElem?_inj hlt wf.nodup).mp ?_
  rw [List.getElem?_map, List.getElem?_map, hi, hj]
  exact congrArg some h

/-- **`advanceWorkflow` takes the step after the current one.** -/
theorem nextStep_name {wf : Workflow} {i : Nat} {s : WorkflowStep} (hi : wf.steps[i]? = some s) :
    nextStep wf s.name = wf.steps[i + 1]? := by
  have hne : s.name ≠ "" := wf.named s (List.mem_of_getElem? hi)
  unfold nextStep nextIdx
  rw [if_neg hne]
  cases hfind : (List.range wf.steps.length).find? fun i =>
      decide ((wf.steps[i]?).map WorkflowStep.name = some s.name ∧ i + 1 < wf.steps.length) with
  | some i' =>
    -- the loop stops at the only place of this name
    have hstop := List.find?_some hfind
    obtain ⟨hname, -⟩ := of_decide_eq_true hstop
    obtain ⟨t, ht, hst⟩ := Option.map_eq_some_iff.mp hname
    rw [idx_of_name ht hi hst]
    rfl
  | none =>
    have hpast : ¬ i + 1 < wf.steps.length := by
      intro hlt
      have hno := List.find?_eq_none.mp hfind i (List.mem_range.mpr (by omega))
      rw [hi] at hno
      exact hno (decide_eq_true ⟨rfl, hlt⟩)
    exact (List.getElem?_eq_none (by omega)).symm

end Atlantis.Workflows
