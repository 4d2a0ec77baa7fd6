import Atlantis.Codegen.Emission
import Atlantis.Custom.Lower
import Atlantis.Jobs.Pass
import Atlantis.Workflows.Engine

/-!
# `Jobs.Submission` — how a row gets into `atlantis.jobs`, and back into it

The statements that insert a row: `SubmitJob` and `RetryDeadJob` (`internal/server/admin/jobs.go`), the step of a workflow
(`StartWorkflow`, `advanceWorkflow`) and the `enqueue` step of a procedure (`Custom.lowerEnqueueStep`, then the code that
`emitProcedureEnqueueStep` writes). A row's arguments are one text; trace contexts are left out.

* **Settings.** `SubmitJob` looks a job's settings up. An `enqueue` step has them copied without `timeout none`, a workflow
  step has constants in their place (`settings_honoured_iff`).
* **Visibility.** `SubmitJob` compares `visible_to` with a field of the request, so whoever may call it may submit any job
  (`visibleTo_binds_iff`).
* **Retries.** `jobs_dead` has no timeout and no workflow columns: what a row has there does not come back
  (`restored_iff`).
-/

namespace Atlantis.Jobs

open Schema (quoted)
open Workflows (Workflow WorkflowStep nextStep)

/-- The jobs of an IR. `Lower` refuses a second job of an id. -/
structure JobIR where
  jobs : List Custom.Job
  nodup : (jobs.map (·.id)).Nodup

/-- `byJobID`. -/
def JobIR.byJobID (ir : JobIR) (id : String) : Option Custom.Job := Codegen.lastWith Custom.Job.id id ir.jobs

/-- A row of `atlantis.jobs` with the columns that only insertion writes. -/
structure JobRow extends Row where
  id : Nat
  args : String
  timeoutMS : Option Nat := none
  enqueuedAt : Int
  submittedBy : Option String
  workflowID : Option Nat := none
  workflowStep : Option String := none
  deriving DecidableEq, Repr

/-- What the database adds to an `INSERT`. -/
structure Inserting where
  nextID : Nat
  now : Int

/-! ## The ways to a row -/

/-- `SubmitJobRequest`. -/
structure SubmitJobRequest where
  jobName : String
  args : String := ""
  scheduledAt : Option Int := none
  submittedBy : String := ""
  deriving DecidableEq, Repr

/-- What `SubmitJob` reads of the server. -/
structure JobService where
  allowApplyMutation : Bool
  checkpoint : Except String (Option JobIR)

/-- The submitter without `cli:`, if something follows it. -/
def withoutCli (submitter : String) : String :=
  match submitter.toList with
  | 'c' :: 'l' :: 'i' :: ':' :: c :: rest => String.ofList (c :: rest)
  | _ => submitter

/-- The `INSERT` of `SubmitJob`. -/
def insertSubmitted (db : Inserting) (req : SubmitJobRequest) (spec : Custom.Job) : JobRow where
  id := db.nextID
  jobName := req.jobName
  queue := if spec.queue = "" then "default" else spec.queue
  args := if req.args = "" then "\x7b\x7d" else req.args
  maxRetries := spec.retries
  -- `timeout none` is `NULL`
  timeoutMS := if spec.timeoutNone then none else some (if spec.timeoutMS = 0 then 30 * 60 * 1000 else spec.timeoutMS)
  scheduledFor := req.scheduledAt.getD db.now
  enqueuedAt := db.now
  submittedBy := some req.submittedBy

/-- **`SubmitJob`.** -/
def submitJob (svc : JobService) (db : Inserting) (req : SubmitJobRequest) : Except String JobRow :=
  if !svc.allowApplyMutation then
    .error "admin: job submission is disabled on this server (set ATL_ALLOW_APPLY_MUTATION=true to enable)"
  else if req.jobName = "" then .error "admin: JobName is required"
  else
    match svc.checkpoint with
    | .error err => .error ("load checkpoint: " ++ err)
    | .ok none => .error "admin: no IR checkpoint applied — run `tide apply` before submitting jobs"
    | .ok (some ir) =>
      match ir.jobs.find? (·.id = req.jobName) with
      | none => .error ("admin: unknown job " ++ quoted req.jobName ++ " (declare it in a .atl file and run `tide apply`)")
      | some spec =>
        if spec.visibleTo ≠ "" ∧ spec.visibleTo ≠ "*" ∧ withoutCli req.submittedBy ≠ spec.visibleTo then
          .error ("admin: caller " ++ quoted (withoutCli req.submittedBy) ++ " is not allowed to submit " ++ req.jobName ++
            " (visible_to = " ++ quoted spec.visibleTo ++ ")")
        else .ok (insertSubmitted db req spec)

/-- The `INSERT` for a step, which `StartWorkflow` and `advanceWorkflow` share. -/
def insertStep (db : Inserting) (workflow : String) (wfID : Nat) (step : WorkflowStep) (args : String) : JobRow where
  id := db.nextID
  jobName := step.targetJobID
  queue := "default"
  args := args
  maxRetries := 3
  timeoutMS := some 1800000
  scheduledFor := db.now
  enqueuedAt := db.now
  submittedBy := some ("workflow:" ++ workflow)
  workflowID := some wfID
  workflowStep := some step.name

/-- The `INSERT` that `emitProcedureEnqueueStep` writes for an `EnqueueStepIR`. -/
def procedureEnqueue (db : Inserting) (procName targetJobID queue : String) (maxRetries timeoutMS : Nat) (args : String) :
    JobRow where
  id := db.nextID
  jobName := targetJobID
  queue := if queue = "" then "default" else queue
  args := args
  maxRetries := maxRetries
  timeoutMS := some (if timeoutMS = 0 then 30 * 60 * 1000 else timeoutMS)
  scheduledFor := db.now
  enqueuedAt := db.now
  submittedBy := some ("procedure:" ++ procName)

/-- A procedure has an `enqueue` step of the job, with these settings. -/
def Enqueues (ir : JobIR) (job : Custom.Job) (procName queue : String) (maxRetries timeoutMS : Nat) : Prop :=
  ∃ ns inputs idx s args, (Custom.lowerEnqueueStep ir.byJobID ns inputs procName idx s).step =
    some (.enqueue job.id args queue maxRetries timeoutMS)

/-- The ways, by name. -/
inductive Way where
  | submitJob | startWorkflow | advanceWorkflow | enqueueStep
  deriving DecidableEq, Repr

/-- The step that a workflow is at next. -/
def Way.stepOf : Way → Workflow → String → Option WorkflowStep
  | .startWorkflow, wf, _ => wf.steps.head?
  | .advanceWorkflow, wf, currentStep => nextStep wf currentStep
  | .submitJob, _, _ | .enqueueStep, _, _ => none

/-- **The rows that each way creates for a job.** -/
inductive Created (ir : JobIR) (job : Custom.Job) : Way → JobRow → Prop where
  | submitJob {svc : JobService} {db : Inserting} {req : SubmitJobRequest} {row : JobRow}
      (hir : svc.checkpoint = .ok (some ir)) (hjob : req.jobName = job.id) (h : submitJob svc db req = .ok row) :
      Created ir job .submitJob row
  | workflowStep {way : Way} {db : Inserting} {wf : Workflow} {name current args : String} {wfID : Nat} {step : WorkflowStep}
      (hstep : way.stepOf wf current = some step) (hjob : step.targetJobID = job.id) :
      Created ir job way (insertStep db name wfID step args)
  | enqueueStep {db : Inserting} {procName queue args : String} {maxRetries timeoutMS : Nat}
      (h : Enqueues ir job procName queue maxRetries timeoutMS) :
      Created ir job .enqueueStep (procedureEnqueue db procName job.id queue maxRetries timeoutMS args)

/-! ## Settings -/

/-- The row has what the job declares; the defaults are those of the documentation. -/
structure JobRow.Honours (row : JobRow) (job : Custom.Job) : Prop where
  queue : row.queue = if job.queue = "" then "default" else job.queue
  retries : row.maxRetries = job.retries
  timeout : row.timeoutMS =
    if job.timeoutNone then none else some (if job.timeoutMS = 0 then 1800000 else job.timeoutMS)

/-- What a job may declare for its rows to have it. -/
def Way.Honours : Way → Custom.Job → Prop
  | .submitJob, _ => True
  | .startWorkflow, job | .advanceWorkflow, job => (job.queue = "" ∨ job.queue = "default") ∧ job.retries = 3 ∧
      job.timeoutNone = false ∧ (job.timeoutMS = 0 ∨ job.timeoutMS = 1800000)
  | .enqueueStep, job => job.timeoutNone = false

theorem JobIR.find {ir : JobIR} {job : Custom.Job} (hjob : job ∈ ir.jobs) :
    ir.jobs.find? (·.id = job.id) = some job := by
  obtain ⟨found, hfound⟩ : ∃ found, ir.jobs.find? (·.id = job.id) = some found :=
    Option.isSome_iff_exists.mp (List.find?_isSome.mpr ⟨job, hjob, decide_eq_true rfl⟩)
  have hid : found.id = job.id := by simpa using List.find?_some hfound
  rw [hfound, List.inj_on_of_nodup_map ir.nodup (List.mem_of_find?_eq_some hfound) hjob hid]

/-- When `SubmitJob` accepts a job of the checkpoint. -/
theorem submitJob_eq_ok {svc : JobService} {ir : JobIR} {job : Custom.Job} (hir : svc.checkpoint = .ok (some ir))
    (hjob : job ∈ ir.jobs) {db : Inserting} {req : SubmitJobRequest} {row : JobRow} (hname : req.jobName = job.id) :
    submitJob svc db req = .ok row ↔ svc.allowApplyMutation = true ∧ row = insertSubmitted db req job ∧
      (job.visibleTo = "" ∨ job.visibleTo = "*" ∨ withoutCli req.submittedBy = job.visibleTo) := by
  have hid : job.id ≠ "" := by simp [Custom.Job.id]
  unfold submitJob
  rw [hname, if_neg hid, hir]
  simp only [JobIR.find hjob]
  cases svc.allowApplyMutation with
  | false => simp
  | true =>
    by_cases hvisible : job.visibleTo = "" ∨ job.visibleTo = "*" ∨ withoutCli req.submittedBy = job.visibleTo
    · have hif : ¬ (job.visibleTo ≠ "" ∧ job.visibleTo ≠ "*" ∧ withoutCli req.submittedBy ≠ job.visibleTo) := by tauto
      simp only [Bool.not_true, Bool.false_eq_true, if_false, if_neg hif, hvisible, and_true, true_and]
      exact ⟨fun h => (Except.ok.inj h).symm, fun h => congrArg _ h.symm⟩
    · have hif : job.visibleTo ≠ "" ∧ job.visibleTo ≠ "*" ∧ withoutCli req.submittedBy ≠ job.visibleTo := by tauto
      simp [hvisible, if_pos hif]

theorem default_eq_iff {α : Type} [DecidableEq α] {unset default_ x : α} :
    default_ = (if x = unset then default_ else x) ↔ x = unset ∨ x = default_ := by
  by_cases hx : x = unset
  · simp [hx]
  · simp [hx, eq_comm]

theorem insertStep_honours {db : Inserting} {name args : String} {wfID : Nat} {step : WorkflowStep} {job : Custom.Job} :
    (insertStep db name wfID step args).Honours job ↔ Way.Honours .startWorkflow job := by
  constructor
  · rintro ⟨hqueue, hretries, htimeout⟩
    cases hnone : job.timeoutNone with
    | true =>
      rw [hnone] at htimeout
      cases htimeout
    | false =>
      rw [hnone] at htimeout
      exact ⟨default_eq_iff.mp hqueue, (Int.ofNat.inj hretries).symm, hnone, default_eq_iff.mp (Option.some.inj htimeout)⟩
  · rintro ⟨hqueue, hretries, hnone, htimeout⟩
    refine ⟨default_eq_iff.mpr hqueue, ?_, ?_⟩
    · rw [hretries]
      rfl
    · rw [hnone]
      exact congrArg some (default_eq_iff.mpr htimeout)

/-- An `enqueue` step has its settings from the job. -/
theorem enqueues_iff {ir : JobIR} {job : Custom.Job} (hjob : job ∈ ir.jobs) {procName queue : String}
    {maxRetries timeoutMS : Nat} : Enqueues ir job procName queue maxRetries timeoutMS ↔
      queue = job.queue ∧ maxRetries = job.retries ∧ timeoutMS = job.timeoutMS := by
  unfold Enqueues Custom.lowerEnqueueStep
  constructor
  · rintro ⟨ns, inputs, idx, s, args, h⟩
    dsimp only at h
    split at h
    · cases h
    rename_i found hfound
    injection h with h
    injection h with hid _ hqueue hretries htimeout
    obtain ⟨hmem, hfound⟩ := Codegen.lastWith_mem hfound
    obtain rfl := List.inj_on_of_nodup_map ir.nodup hmem hjob (hfound.trans hid)
    exact ⟨hqueue.symm, hretries.symm, htimeout.symm⟩
  · rintro ⟨rfl, rfl, rfl⟩
    have hlast : ir.byJobID (Custom.jobIDOf job.namespace_ ⟨job.namespace_, job.name⟩) = some job := by
      unfold Custom.jobIDOf
      rw [ite_self]
      exact Codegen.lastWith_of_nodup ir.nodup hjob
    refine ⟨job.namespace_, [], 0, ⟨⟨job.namespace_, job.name⟩, [], ""⟩, [], ?_⟩
    simp only [hlast]
    simp only [Custom.jobIDOf, ite_self]
    rfl

/-- **The rows of a job have its settings on a way exactly if they are such as the way can express.** -/
theorem settings_honoured_iff {ir : JobIR} {job : Custom.Job} (hjob : job ∈ ir.jobs) (way : Way) :
    (∀ row, Created ir job way row → row.Honours job) ↔ way.Honours job := by
  cases way with
  | submitJob =>
    refine ⟨fun _ => trivial, fun _ row hrow => ?_⟩
    cases hrow with
    | workflowStep hstep _ => cases hstep
    | submitJob hir hname h =>
      obtain ⟨-, rfl, -⟩ := (submitJob_eq_ok hir hjob hname).mp h
      exact ⟨rfl, rfl, rfl⟩
  | startWorkflow | advanceWorkflow =>
    constructor
    · intro h
      exact insertStep_honours.mp (h (insertStep ⟨1, 0⟩ "" 1 ⟨"first", job.id⟩ "")
        (@Created.workflowStep _ _ _ _ ⟨[⟨"first", job.id⟩], [], by simp, by simp⟩ _ "" _ _ _ rfl rfl))
    · rintro h _ ⟨_, _⟩
      exact insertStep_honours.mpr h
  | enqueueStep =>
    constructor
    · intro h
      have htimeout := (h _ (@Created.enqueueStep _ _ ⟨1, 0⟩ "" _ "" _ _ ((enqueues_iff hjob).mpr ⟨rfl, rfl, rfl⟩))).timeout
      cases hnone : job.timeoutNone with
      | false => exact hnone
      | true =>
        rw [hnone] at htimeout
        cases htimeout
    · intro hnone row hrow
      cases hrow with
      | workflowStep hstep _ => cases hstep
      | enqueueStep h =>
        obtain ⟨rfl, rfl, rfl⟩ := (enqueues_iff hjob).mp h
        refine ⟨rfl, rfl, ?_⟩
        rw [show job.timeoutNone = false from hnone]
        rfl

/-- Two jobs of a shop: one has no setting of its own but its retries, the other has no timeout. -/
private def shop : JobIR where
  jobs := [{ name := "Ship", namespace_ := "shop", retries := 3 },
    { name := "Import", namespace_ := "shop", retries := 5, timeoutNone := true, visibleTo := "vendor" }]
  nodup := by decide

/-- A workflow that imports. -/
private def syncing : Workflow := ⟨[⟨"import", "shop.Import"⟩], [], by decide, by decide⟩

theorem settings_honoured_ship : shop.jobs[0] ∈ shop.jobs ∧
    ∀ row, Created shop shop.jobs[0] .advanceWorkflow row → row.Honours shop.jobs[0] :=
  ⟨by decide, (settings_honoured_iff (by decide) .advanceWorkflow).mpr ⟨.inl rfl, rfl, rfl, .inl rfl⟩⟩

/-- The first step of a workflow, and an `enqueue`, of the job without a timeout have one. -/
theorem import_timed_out : (∃ row, Created shop shop.jobs[1] .startWorkflow row ∧ ¬ row.Honours shop.jobs[1]) ∧
    ∃ row, Created shop shop.jobs[1] .enqueueStep row ∧ ¬ row.Honours shop.jobs[1] := by
  constructor
  · exact ⟨_, @Created.workflowStep _ _ _ ⟨1, 0⟩ syncing "shop.Sync" "" "\x7b\x7d" 1 _ rfl rfl, fun h => by cases h.timeout⟩
  · exact ⟨_, @Created.enqueueStep _ _ ⟨1, 0⟩ "shop.Sync" "" "" 5 0
      ⟨"shop", [], 0, ⟨⟨"", "Import"⟩, [], ""⟩, [], by decide +kernel⟩, fun h => by cases h.timeout⟩

/-! ## Visibility -/

/-- **`visible_to` binds the caller**: its requests are accepted only if it may see the job, whoever they say they are
    from. -/
structure VisibleToBinds (svc : JobService) (job : Custom.Job) (callerCN : String) (aliases : List String) : Prop where
  visible : ∀ db req row, req.jobName = job.id → submitJob svc db req = .ok row →
    jobVisibleTo ⟨job.id, job.visibleTo⟩ callerCN aliases
  sameAnswer : ∀ db req submittedBy, req.jobName = job.id →
    (submitJob svc db { req with submittedBy }).map JobRow.id = (submitJob svc db req).map JobRow.id

theorem withoutCli_cli {v : String} (hv : v ≠ "") : withoutCli ("cli:" ++ v) = v := by
  obtain ⟨c, rest, h⟩ := List.exists_cons_of_ne_nil (mt String.toList_eq_nil_iff.mp hv)
  have hlist : ("cli:" ++ v).toList = 'c' :: 'l' :: 'i' :: ':' :: c :: rest := by simp [h]
  unfold withoutCli
  rw [hlist]
  exact String.toList_injective (by simp [h])

/-- **Nobody who may submit jobs is bound by `visible_to`.** -/
theorem visibleTo_binds_iff {svc : JobService} {ir : JobIR} {job : Custom.Job} (hir : svc.checkpoint = .ok (some ir))
    (hjob : job ∈ ir.jobs) (hv : job.visibleTo ≠ "") (hstar : job.visibleTo ≠ "*") (callerCN : String)
    (aliases : List String) : VisibleToBinds svc job callerCN aliases ↔ svc.allowApplyMutation = false := by
  constructor
  · intro h
    by_contra hallow
    rw [Bool.not_eq_false] at hallow
    -- one request, from the caller the job is for and from nobody
    have hfor := (@submitJob_eq_ok _ _ _ hir hjob ⟨1, 0⟩ ⟨job.id, "", none, "cli:" ++ job.visibleTo⟩ _ rfl).mpr
      ⟨hallow, rfl, .inr (.inr (withoutCli_cli hv))⟩
    have hsame := h.sameAnswer ⟨1, 0⟩ ⟨job.id, "", none, "cli:" ++ job.visibleTo⟩ "" rfl
    rw [hfor] at hsame
    cases hnobody : submitJob svc ⟨1, 0⟩ { jobName := job.id } with
    | error err =>
      rw [hnobody] at hsame
      cases hsame
    | ok row =>
      obtain ⟨-, -, hno | hno | hno⟩ := (submitJob_eq_ok hir hjob rfl).mp hnobody
      · exact hv hno
      · exact hstar hno
      · exact hv hno.symm
  · intro hallow
    constructor
    · intro db req row hname h
      cases hallow.symm.trans ((submitJob_eq_ok hir hjob hname).mp h).1
    · intro db req submittedBy _
      simp [submitJob, hallow]

theorem visibleTo_binds_disabled : VisibleToBinds ⟨false, .ok (some shop)⟩ shop.jobs[1] "mallory" [] :=
  (visibleTo_binds_iff rfl (by decide) (by decide) (by decide) "mallory" []).mpr rfl

/-- A caller the job is not visible to is refused under its own name and accepted under the vendor's. -/
theorem import_submitted_by_mallory : jobVisibleTo ⟨"shop.Import", "vendor"⟩ "mallory" [] = false ∧
    (submitJob ⟨true, .ok (some shop)⟩ ⟨1, 0⟩ { jobName := "shop.Import", submittedBy := "mallory" }).isOk = false ∧
    (submitJob ⟨true, .ok (some shop)⟩ ⟨1, 0⟩ { jobName := "shop.Import", submittedBy := "vendor" }).isOk = true := by
  decide +kernel

/-! ## Dead jobs -/

/-- A row of `atlantis.jobs_dead`. -/
structure DeadJobRow extends DeadRow where
  id : Nat
  args : String
  enqueuedAt : Int
  submittedBy : Option String
  deriving DecidableEq, Repr

/-- The rows of one id in the two tables. -/
structure JobTables where
  live : Option JobRow := none
  dead : Option DeadJobRow := none
  deriving DecidableEq, Repr

/-- `MoveToDLQ`. -/
def moveToDLQ (now : Int) (errMsg : String) (t : JobTables) : Except String JobTables :=
  match t.live, t.dead with
  | none, _ => .ok t
  | some r, none => .ok { dead := some { r.toDead now errMsg with
      id := r.id, args := r.args, enqueuedAt := r.enqueuedAt, submittedBy := r.submittedBy } }
  | some _, some _ => .error "insert dead: duplicate key value violates unique constraint \"jobs_dead_pkey\""

/-- `RetryDeadJob`. -/
def retryDeadJob (svc : JobService) (now : Int) (jobID : Nat) (t : JobTables) : Except String JobTables :=
  if !svc.allowApplyMutation then .error "admin: job retry is disabled on this server"
  else
    match t.dead, t.live with
    | none, _ => .error ("admin: dead job " ++ toString jobID ++ " not found")
    | some d, none => .ok { live := some {
        id := d.id, jobName := d.jobName, queue := d.queue, args := d.args, status := .pending, attempts := 0,
        maxRetries := d.maxRetries, scheduledFor := now, enqueuedAt := d.enqueuedAt, submittedBy := d.submittedBy } }
    | some _, some _ => .error "re-insert: duplicate key value violates unique constraint \"jobs_pkey\""

/-- What a retry is to bring back. -/
structure Restored (r r' : JobRow) : Prop where
  id : r'.id = r.id
  jobName : r'.jobName = r.jobName
  queue : r'.queue = r.queue
  args : r'.args = r.args
  maxRetries : r'.maxRetries = r.maxRetries
  timeoutMS : r'.timeoutMS = r.timeoutMS
  workflow : r'.workflowID = r.workflowID ∧ r'.workflowStep = r.workflowStep
  submittedBy : r'.submittedBy = r.submittedBy
  fresh : r'.status = .pending ∧ r'.attempts = 0

/-- **A dead job comes back exactly if it had no timeout and was no step of a workflow.** -/
theorem restored_iff {svc : JobService} (hallow : svc.allowApplyMutation = true) (r : JobRow) (now later : Int)
    (errMsg : String) :
    (∃ r', moveToDLQ now errMsg { live := some r } >>= retryDeadJob svc later r.id = .ok { live := some r' } ∧
      Restored r r') ↔ r.timeoutMS = none ∧ r.workflowID = none ∧ r.workflowStep = none := by
  have hmove : moveToDLQ now errMsg { live := some r } >>= retryDeadJob svc later r.id = .ok { live := some {
      id := r.id, jobName := r.jobName, queue := r.queue, args := r.args, maxRetries := r.maxRetries,
      scheduledFor := later, enqueuedAt := r.enqueuedAt, submittedBy := r.submittedBy } } := by
    simp [moveToDLQ, retryDeadJob, hallow, Bind.bind, Except.bind, Row.toDead]
  rw [hmove]
  constructor
  · rintro ⟨r', h, hrestored⟩
    cases h
    exact ⟨hrestored.timeoutMS.symm, hrestored.workflow.1.symm, hrestored.workflow.2.symm⟩
  · rintro ⟨htimeout, hid, hstep⟩
    exact ⟨_, rfl, rfl, rfl, rfl, rfl, rfl, htimeout.symm, ⟨hid.symm, hstep.symm⟩, rfl, rfl, rfl⟩

theorem restored_untimed : ∃ r', moveToDLQ 5 "boom" { live := some (insertSubmitted ⟨7, 0⟩ ⟨"shop.Import", "", none, ""⟩
      shop.jobs[1]) } >>= retryDeadJob ⟨true, .ok (some shop)⟩ 6 7 = .ok { live := some r' } ∧
    Restored (insertSubmitted ⟨7, 0⟩ ⟨"shop.Import", "", none, ""⟩ shop.jobs[1]) r' :=
  (restored_iff rfl _ 5 6 "boom").mpr ⟨rfl, rfl, rfl⟩

/-- A step that comes back belongs to no workflow and has no timeout. -/
theorem step_orphaned : ∃ r', moveToDLQ 5 "boom" { live := some (insertStep ⟨7, 0⟩ "shop.Sync" 1 ⟨"ship", "shop.Ship"⟩ "") } >>=
    retryDeadJob ⟨true, .ok (some shop)⟩ 6 7 = .ok { live := some r' } ∧ r'.workflowID = none ∧ r'.timeoutMS = none :=
  ⟨_, rfl, rfl, rfl⟩

end Atlantis.Jobs
