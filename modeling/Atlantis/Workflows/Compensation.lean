import Atlantis.Workflows.Engine

/-!
# `Workflows.Compensation` — the last failure of a step

What a direct worker does when a claimed step job has failed for the last time (`clients/go/jobs/runner.go`), with the
engine as its completion hook. `reportFailure` first lets `ReportFailure` move the row to `atlantis.jobs_dead` and then
calls `OnJobFailed`, which begins by looking the row up in `atlantis.jobs`: it is not there any more, and the lookup says
that the job belongs to no workflow. A job without a handler goes the same way without calling the hook at all.

`compensated_iff` says what it takes for a workflow to be compensated: **the move to the dead-letter table must fail**.
Each statement may fail (`Outcome`); the failure path itself is taken in one go, from any state that an interleaving of
calls can lead to, and it is one of the engine's runs (`runs_reportFailure`).
-/

namespace Atlantis.Workflows

open Lib

/-! ## The failure path -/

/-- What the worker has of the row. -/
structure ClaimedRow where
  id : Nat
  /-- Counted up by the claim. -/
  attempts : Nat
  maxRetries : Int
  deriving DecidableEq, Repr

/-- Which statements of the failure path succeed, and in which order the rows of completed steps are read. -/
structure Outcome where
  /-- The transaction of `MoveToDLQ`. -/
  dlq : Bool
  markCompensating : Bool
  /-- The instance, the checkpoint and the history. -/
  loads : Bool
  /-- Each row with whether its `INSERT` succeeds. -/
  rows : List (HistoryRow × Bool)
  markFailed : Bool

namespace Db

variable (wf : Workflow) (o : Outcome)

/-- `MoveToDLQ`. -/
def moveToDLQ (db : Db) (jobID : Nat) (committed : Bool) : Db := if committed then db.remove jobID else db

/-- The loop of `compensateWorkflow`. -/
def compensateSteps (db : Db) (rows : List (HistoryRow × Bool)) : Db :=
  rows.foldl (fun db row => if row.2 then db.enqueueCompensation wf row.1.stepName else db) db

/-- `compensateWorkflow`. -/
def compensateWorkflow (db : Db) : Db :=
  if o.markCompensating then
    let db := db.setStatus .compensating
    if o.loads then
      let db := db.compensateSteps wf o.rows
      if o.markFailed then db.setStatus .failed else db
    else db
  else db

/-- `OnJobFailed`. -/
def onJobFailed (db : Db) (jobID : Nat) : Db :=
  match db.lookupWorkflowJob jobID with
  | none => db
  | some _ => db.compensateWorkflow wf o

/-- `reportFailure`: with attempts left the row only goes back to pending. -/
def reportFailure (db : Db) (r : ClaimedRow) : Db :=
  if r.maxRetries ≤ r.attempts then (db.moveToDLQ r.id o.dlq).onJobFailed wf o r.id else db

/-- `reportTransientFailure`. -/
def reportTransientFailure (db : Db) (r : ClaimedRow) (dlq : Bool) : Db :=
  if r.maxRetries ≤ r.attempts then db.moveToDLQ r.id dlq else db

/-- `handleOne` for a job that fails: its handler is not registered, or returns an error. -/
def handleFailing (db : Db) (r : ClaimedRow) (registered : Bool) : Db :=
  if registered then db.reportFailure wf o r else db.reportTransientFailure r o.dlq

end Db

/-! ## What is asked -/

/-- **The workflow is compensated**: it runs no more, and the completed steps that declare a compensation have each one
    job, with the declared target, in reverse order of completion. -/
structure Compensated (wf : Workflow) (db : Db) : Prop where
  left : db.status ≠ some .running
  once : ∀ row ∈ db.history, (compByStep wf row.stepName).isSome →
    (db.compensations.map (·.stepName)).count row.stepName = 1
  target : ∀ job ∈ db.compensations, (compByStep wf job.stepName).map (·.targetJobID) = some job.jobName
  order : ∃ rows, db.Ordered rows ∧ (db.compensations.map (·.stepName)).Sublist (rows.map (·.stepName))

/-- **When a last failure is compensated**: the row could not be moved to the dead-letter table, the instance could be
    marked, and of the rows of each completed step with a compensation one and only one got its job. -/
structure Compensable (wf : Workflow) (db : Db) (o : Outcome) (registered : Bool) : Prop where
  registered : registered = true
  dlq : o.dlq = false
  markCompensating : o.markCompensating = true
  steps : ∀ row ∈ db.history, (compByStep wf row.stepName).isSome →
    o.loads = true ∧ o.rows.countP (fun (read, inserted) => read.stepName = row.stepName ∧ inserted = true) = 1

/-! ## The loop -/

variable {wf : Workflow} {o : Outcome} {db : Db}

/-- The job that the loop enqueues for a row. -/
def compJob (wf : Workflow) (row : HistoryRow × Bool) : Option CompJob :=
  if row.2 then (compByStep wf row.1.stepName).map fun comp => ⟨row.1.stepName, comp.targetJobID⟩ else none

variable {call call' : Call} {a : CallAct} {db' : Db} {σ : Sys} {c : Nat}

/-- The loop adds to the compensation jobs and changes nothing else. -/
theorem compensateSteps_eq (rows : List (HistoryRow × Bool)) : db.compensateSteps wf rows =
    { db with compensations := db.compensations ++ rows.filterMap (compJob wf) } := by
  induction rows generalizing db with
  | nil =>
    rw [List.filterMap_nil, List.append_nil]
    rfl
  | cons row rest ih =>
    show Db.compensateSteps wf (if row.2 then db.enqueueCompensation wf row.1.stepName else db) rest = _
    rw [ih, Db.enqueueCompensation_eq, List.filterMap_cons]
    unfold compJob
    split
    · cases compByStep wf row.1.stepName <;> simp
    · rfl

theorem map_stepName_jobs (rows : List (HistoryRow × Bool)) : (rows.filterMap (compJob wf)).map (·.stepName) =
    (rows.filter fun row => row.2 && (compByStep wf row.1.stepName).isSome).map (·.1.stepName) := by
  rw [List.map_filterMap, ← List.filterMap_eq_filter, List.map_filterMap]
  congr 1
  funext row
  unfold compJob
  cases hins : row.2 <;> cases hcomp : compByStep wf row.1.stepName <;> simp [Option.guard, hins, hcomp]

/-! ## Before the first failure

An instance that is still running has never been compensated, whatever calls there have been. -/

/-- The call has marked the instance and may enqueue compensations. -/
def Call.undoing : Call → Bool
  | .marked | .compensating _ => true
  | _ => false

structure Quiet (σ : Sys) : Prop where
  fresh : σ.db.status = none → σ.db.enqueued = [] ∧ σ.db.compensations = [] ∧ ∀ c, σ.calls c = .idle
  running : σ.db.status = some .running → σ.db.compensations = [] ∧ ∀ c, (σ.calls c).undoing = false

/-- What a statement does to the instance's status: it creates the instance, marks it, or leaves it and compensates
    nothing unless the call has marked the instance before. -/
theorem next_status (h : call.next wf db a = some (call', db')) :
    (db.status = none ∧ db' = db.insertInstance ∧ call' = .starting) ∨
      (∃ status, status ≠ .running ∧ db' = db.setStatus status) ∨
      (db'.status = db.status ∧
        (call.undoing = false → call'.undoing = false ∧ db'.compensations = db.compensations)) := by
  unfold Call.next at h
  split at h
  case h_1 =>
      split at h
      · cases h
        exact .inl ⟨‹db.status = none›, rfl, rfl⟩
      · cases h
  case h_2 =>
      split at h
      all_goals
        cases h
        exact .inr (.inr ⟨rfl, fun _ => ⟨rfl, rfl⟩⟩)
  case h_4 | h_10 =>
      split at h
      · split at h
        all_goals
          cases h
          exact .inr (.inr ⟨rfl, fun _ => ⟨rfl, rfl⟩⟩)
      · cases h
  case h_6 =>
      cases h
      refine .inr (.inr ⟨rfl, fun _ => ⟨?_, rfl⟩⟩)
      unfold Db.advance
      split
      · cases nextStep wf db.currentStep <;> rfl
      · rfl
  case h_7 | h_11 | h_15 =>
      cases h
      exact .inr (.inl ⟨_, by decide, rfl⟩)
  case h_12 =>
      split at h
      · cases h
        exact .inr (.inr ⟨rfl, fun hno => by cases hno⟩)
      · cases h
  case h_13 =>
      cases h
      rw [Db.enqueueCompensation_eq]
      exact .inr (.inr ⟨rfl, fun hno => by cases hno⟩)
  case h_14 =>
      cases h
      exact .inr (.inr ⟨rfl, fun hno => by cases hno⟩)
  case h_17 => cases h
  all_goals
    cases h
    exact .inr (.inr ⟨rfl, fun _ => ⟨rfl, rfl⟩⟩)

theorem Quiet.next {db : Db} {reported : List Nat} (h : Quiet σ) (hnext : (σ.calls c).next wf σ.db a = some (call, db)) :
    Quiet { db, calls := Function.update σ.calls c call, reported } := by
  have hundoing : call.undoing = false → (∀ c', (σ.calls c').undoing = false) →
      ∀ c', (Function.update σ.calls c call c').undoing = false := fun hcall hcalls =>
    (Function.forall_update_iff σ.calls fun _ call => call.undoing = false).mpr ⟨hcall, fun c' _ => hcalls c'⟩
  by_cases hnone : σ.db.status = none
  · obtain ⟨hjobs, hcomp, hidle⟩ := h.fresh hnone
    rw [hidle c] at hnext
    have hno : ∀ jobID, ¬ jobID < σ.db.enqueued.length := by
      intro jobID
      rw [hjobs]
      exact Nat.not_lt_zero jobID
    -- before there is an instance only `StartWorkflow` does anything
    cases a with
    | startWorkflow =>
      simp only [Call.next, if_pos hnone] at hnext
      cases hnext
      refine ⟨fun hno => absurd hno (Option.some_ne_none _), fun _ => ⟨hcomp, hundoing rfl fun c' => ?_⟩⟩
      rw [hidle c']
      rfl
    | onJobComplete jobID | onJobFailed jobID =>
      simp only [Call.next, if_neg (hno jobID)] at hnext
      cases hnext
    | abandon =>
      cases hnext
      refine ⟨fun _ => ⟨hjobs, hcomp, ?_⟩, fun hrun => absurd (hnone.symm.trans hrun) (by simp)⟩
      exact (Function.forall_update_iff σ.calls fun _ call => call = .idle).mpr ⟨rfl, fun c' _ => hidle c'⟩
    | _ => cases hnext
  rcases next_status hnext with ⟨hno, -⟩ | ⟨status, hstatus, rfl⟩ | ⟨hsame, hkeep⟩
  · exact absurd hno hnone
  · refine ⟨fun hno => absurd (Option.map_eq_none_iff.mp hno) hnone, fun hrun => ?_⟩
    obtain ⟨_, -, heq⟩ := Option.map_eq_some_iff.mp hrun
    exact absurd heq hstatus
  · refine ⟨fun hno => absurd (hsame.symm.trans hno) hnone, fun hrun => ?_⟩
    obtain ⟨hcomp, hcalls⟩ := h.running (hsame.symm.trans hrun)
    obtain ⟨hcall, hsame⟩ := hkeep (hcalls c)
    exact ⟨hsame.trans hcomp, hundoing hcall hcalls⟩

theorem Quiet.step {τ : Sys} {a : Act} (h : Quiet σ) (hstep : σ.step wf a = some τ) : Quiet τ := by
  cases a with
  | call c a =>
    obtain ⟨⟨call, db⟩, hnext, rfl⟩ := Option.map_eq_some_iff.mp hstep
    exact h.next hnext
  | tick d | removeJob jobID =>
    cases hstep
    exact ⟨h.fresh, h.running⟩

theorem quiet_of_reachable (h : (engine wf).Reachable σ) : Quiet σ := by
  refine Machine.Reach.invariant (I := Quiet) ?_ (fun _ _ _ hs _ hstep => hs.step hstep) h
  rintro s rfl
  exact ⟨fun _ => ⟨rfl, rfl, fun _ => rfl⟩, fun hrun => by cases hrun⟩

/-! ## The failure path is a run of the engine -/

/-- The system after a statement of call `c`. -/
def Sys.after (σ : Sys) (c : Nat) (call : Call) (db : Db) : Sys := { σ with db, calls := Function.update σ.calls c call }

theorem leads_call (hcall : σ.calls c = call) (hno : a.reports = [])
    (h : call.next wf σ.db a = some (call', db')) : (engine wf).Leads σ (σ.after c call' db') := by
  refine .step (a := .call c a) ?_ .refl
  show ((σ.calls c).next wf σ.db a).map _ = _
  rw [hcall, h, hno]
  rfl

theorem leads_compensateSteps (rows : List (HistoryRow × Bool))
    (hcall : σ.calls c = .compensating (rows.map (·.1.stepName))) :
    ∃ τ, (engine wf).Leads σ τ ∧ τ.db = σ.db.compensateSteps wf rows ∧ τ.calls c = .compensating [] := by
  induction rows generalizing σ with
  | nil => exact ⟨σ, .refl, rfl, hcall⟩
  | cons row rest ih =>
    obtain ⟨row, inserted⟩ := row
    -- one step of the loop, with its `INSERT` or without
    have hstep : (engine wf).Leads σ (σ.after c (.compensating (rest.map (·.1.stepName)))
        (if inserted then σ.db.enqueueCompensation wf row.stepName else σ.db)) := by
      cases inserted with
      | true => exact leads_call (a := .enqueueCompensation) hcall rfl rfl
      | false => exact leads_call (a := .skipCompensation) hcall rfl rfl
    obtain ⟨τ, hleads, hdb, hend⟩ := @ih (σ.after c (.compensating _) _) (Function.update_self ..)
    exact ⟨τ, hstep.trans hleads, hdb, hend⟩

/-- From where `OnJobFailed` has found the job; a statement that fails ends the call. -/
theorem leads_compensateWorkflow (hcall : σ.calls c = .failing) (hrows : σ.db.Ordered (o.rows.map Prod.fst)) :
    ∃ τ, (engine wf).Leads σ τ ∧ τ.db = σ.db.compensateWorkflow wf o := by
  unfold Db.compensateWorkflow
  by_cases hmark : o.markCompensating = true
  · rw [if_pos hmark]
    have hmarked : (engine wf).Leads σ (σ.after c .marked (σ.db.setStatus .compensating)) :=
      leads_call (a := .markCompensating) hcall rfl rfl
    by_cases hloads : o.loads = true
    · rw [if_pos hloads]
      let σ₁ : Sys := σ.after c .marked (σ.db.setStatus .compensating)
      have hread : (engine wf).Leads σ₁ (σ₁.after c (.compensating ((o.rows.map Prod.fst).map (·.stepName))) σ₁.db) :=
        leads_call (a := .readHistory (o.rows.map Prod.fst)) (Function.update_self ..) rfl (if_pos hrows)
      rw [List.map_map] at hread
      obtain ⟨τ, hleads, hdb, hend⟩ := @leads_compensateSteps wf (σ₁.after c _ σ₁.db) c o.rows (Function.update_self ..)
      obtain ⟨τ', hlast, hdb'⟩ : ∃ τ', (engine wf).Leads τ τ' ∧
          τ'.db = if o.markFailed then τ.db.setStatus .failed else τ.db := by
        cases o.markFailed with
        | true => exact ⟨_, leads_call (a := .markFailed) hend rfl rfl, rfl⟩
        | false => exact ⟨τ, .refl, rfl⟩
      refine ⟨τ', hmarked.trans (hread.trans (hleads.trans hlast)), ?_⟩
      rw [hdb', hdb]
      rfl
    · rw [if_neg hloads]
      exact ⟨_, hmarked, rfl⟩
  · rw [if_neg hmark]
    exact ⟨σ, .refl, rfl⟩

/-- **The failure path of a worker is a run of the engine** by a call that was idle. -/
theorem runs_reportFailure {r : ClaimedRow} (hcall : σ.calls c = .idle) (hid : r.id < σ.db.enqueued.length)
    (hrows : σ.db.Ordered (o.rows.map Prod.fst)) : ∃ τ, (engine wf).Leads σ τ ∧ τ.db = σ.db.reportFailure wf o r := by
  unfold Db.reportFailure
  by_cases hlast : r.maxRetries ≤ r.attempts
  · rw [if_pos hlast]
    let σ₁ : Sys := { σ with db := σ.db.moveToDLQ r.id o.dlq }
    have hmove : (engine wf).Leads σ σ₁ ∧ σ₁.db.enqueued = σ.db.enqueued ∧ σ₁.db.history = σ.db.history := by
      dsimp only [σ₁]
      cases o.dlq with
      | true => exact ⟨.step (a := .removeJob r.id) rfl .refl, rfl, rfl⟩
      | false => exact ⟨.refl, rfl, rfl⟩
    obtain ⟨hmove, hkept⟩ := hmove
    unfold Db.onJobFailed
    show ∃ τ : Sys, _ ∧ τ.db = match σ₁.db.lookupWorkflowJob r.id with
      | none => σ₁.db
      | some _ => σ₁.db.compensateWorkflow wf o
    cases hlookup : σ₁.db.lookupWorkflowJob r.id with
    | none => exact ⟨σ₁, hmove, rfl⟩
    | some stepName =>
      have hfound : (engine wf).Leads σ₁ (σ₁.after c .failing σ₁.db) := by
        refine leads_call (a := .onJobFailed r.id) hcall rfl ?_
        show (if r.id < σ₁.db.enqueued.length then _ else none) = _
        rw [if_pos (hkept.1 ▸ hid), hlookup]
      have hrows₁ : σ₁.db.Ordered (o.rows.map Prod.fst) := by
        unfold Db.Ordered
        rw [hkept.2]
        exact hrows
      obtain ⟨τ, hleads, hdb⟩ := @leads_compensateWorkflow wf o (σ₁.after c .failing σ₁.db) c (Function.update_self ..)
        hrows₁
      exact ⟨τ, hmove.trans (hfound.trans hleads), hdb⟩
  · rw [if_neg hlast]
    exact ⟨σ, .refl, rfl⟩

/-! ## Compensation -/

/-- What `compensateWorkflow` leaves once the instance is marked. -/
theorem compensateWorkflow_eq (hmark : o.markCompensating = true) : ∃ status, status ≠ some InstanceStatus.running ∧
    db.compensateWorkflow wf o = { db with
      status
      compensations := db.compensations ++ (if o.loads then o.rows else []).filterMap (compJob wf) } := by
  have hset : ∀ {db : Db} {status : InstanceStatus}, status ≠ .running → (db.setStatus status).status ≠ some .running := by
    intro db status hne hrun
    obtain ⟨_, -, heq⟩ := Option.map_eq_some_iff.mp hrun
    exact hne heq
  unfold Db.compensateWorkflow
  rw [if_pos hmark]
  by_cases hloads : o.loads = true
  · rw [if_pos hloads, if_pos hloads, compensateSteps_eq]
    by_cases hfailed : o.markFailed = true
    · exact ⟨((db.setStatus .compensating).setStatus .failed).status, hset (by decide), if_pos hfailed⟩
    · exact ⟨(db.setStatus .compensating).status, hset (by decide), if_neg hfailed⟩
  · rw [if_neg hloads, if_neg hloads, List.filterMap_nil, List.append_nil]
    exact ⟨(db.setStatus .compensating).status, hset (by decide), rfl⟩

/-- The engine compensates a workflow that it has marked exactly if one `INSERT` succeeds for each completed step. -/
theorem compensated_compensateWorkflow (hcomp : db.compensations = []) (hrows : db.Ordered (o.rows.map Prod.fst))
    (hmark : o.markCompensating = true) : Compensated wf (db.compensateWorkflow wf o) ↔
      ∀ row ∈ db.history, (compByStep wf row.stepName).isSome → o.loads = true ∧
        o.rows.countP (fun (read, inserted) => read.stepName = row.stepName ∧ inserted = true) = 1 := by
  obtain ⟨status, hstatus, heq⟩ := @compensateWorkflow_eq wf o db hmark
  rw [heq, hcomp, List.nil_append]
  -- how many jobs a step with a compensation has got
  have hcount : ∀ row : HistoryRow, (compByStep wf row.stepName).isSome →
      ((((if o.loads then o.rows else []).filterMap (compJob wf)).map (·.stepName)).count row.stepName = 1 ↔
        o.loads = true ∧
          o.rows.countP (fun (read, inserted) => read.stepName = row.stepName ∧ inserted = true) = 1) := by
    intro row hrow
    rw [map_stepName_jobs, List.count_eq_countP, List.countP_map, List.countP_filter]
    by_cases hloads : o.loads = true
    · rw [if_pos hloads, iff_true_intro hloads, true_and]
      refine Eq.congr (List.countP_congr fun (read, inserted) _ => ?_) rfl
      simp only [Function.comp_apply, Bool.and_eq_true, beq_iff_eq, decide_eq_true_eq]
      exact ⟨fun ⟨hname, hins, _⟩ => ⟨hname, hins⟩, fun ⟨hname, hins⟩ => ⟨hname, hins, hname ▸ hrow⟩⟩
    · simp [hloads]
  constructor
  · intro h row hrow hsome
    exact (hcount row hsome).mp (h.once row hrow hsome)
  · intro h
    refine ⟨hstatus, fun row hrow hsome => (hcount row hsome).mpr (h row hrow hsome), ?_, _, hrows, ?_⟩
    · intro job hjob
      obtain ⟨read, _, hjob⟩ := List.mem_filterMap.mp hjob
      obtain ⟨_, hjob⟩ := Option.ite_none_right_eq_some.mp hjob
      obtain ⟨comp, hcomp, rfl⟩ := Option.map_eq_some_iff.mp hjob
      rw [hcomp]
      rfl
    · show (List.map _ (List.filterMap _ _)).Sublist _
      rw [map_stepName_jobs, List.map_map]
      refine (List.filter_sublist.trans ?_).map _
      split
      · exact List.Sublist.refl _
      · exact List.nil_sublist _

/-- A workflow that still runs is not compensated. -/
theorem not_compensated (h : db'.status = some .running) : ¬ Compensated wf db' := fun hc => hc.left h

/-- **A last failure is compensated exactly when its row cannot be moved to the dead-letter table** and the engine's own
    statements succeed. -/
theorem compensated_iff {σ : Sys} {r : ClaimedRow} {registered : Bool} (hreach : (engine wf).Reachable σ)
    (hrunning : σ.db.status = some .running) (hjob : (σ.db.lookupWorkflowJob r.id).isSome)
    (hlast : r.maxRetries ≤ r.attempts) (hrows : σ.db.Ordered (o.rows.map Prod.fst)) :
    Compensated wf (σ.db.handleFailing wf o r registered) ↔ Compensable wf σ.db o registered := by
  have hcomp := ((quiet_of_reachable hreach).running hrunning).1
  obtain ⟨stepName, hlookup⟩ := Option.isSome_iff_exists.mp hjob
  unfold Db.handleFailing
  by_cases hreg : registered = true
  · rw [if_pos hreg]
    unfold Db.reportFailure Db.moveToDLQ
    rw [if_pos hlast]
    by_cases hdlq : o.dlq = true
    · -- the row is gone when the hook looks for it
      have hgone : (σ.db.remove r.id).lookupWorkflowJob r.id = none := if_pos List.mem_cons_self
      rw [if_pos hdlq]
      unfold Db.onJobFailed
      rw [hgone]
      exact iff_of_false (not_compensated hrunning) fun h => by cases hdlq.symm.trans h.dlq
    · rw [if_neg hdlq]
      unfold Db.onJobFailed
      rw [hlookup]
      by_cases hmark : o.markCompensating = true
      · refine (compensated_compensateWorkflow hcomp hrows hmark).trans ?_
        exact ⟨fun h => ⟨hreg, Bool.eq_false_iff.mpr hdlq, hmark, h⟩, fun h => h.steps⟩
      · refine iff_of_false (not_compensated ?_) fun h => hmark h.markCompensating
        show (σ.db.compensateWorkflow wf o).status = some .running
        unfold Db.compensateWorkflow
        rw [if_neg hmark]
        exact hrunning
  · rw [if_neg hreg]
    refine iff_of_false (not_compensated ?_) fun h => hreg h.registered
    unfold Db.reportTransientFailure Db.moveToDLQ
    rw [if_pos hlast]
    split
    · exact hrunning
    · exact hrunning

/-! ## An import that fails -/

private def onboardWithUndo : Workflow where
  steps := [⟨"create", "directory.Create"⟩, ⟨"import", "directory.Import"⟩]
  compensations := [⟨"create", "directory.Delete"⟩]
  nodup := by decide
  named := by decide

/-- The account is created and the import enqueued. -/
private def untilImport : List Act :=
  [.startWorkflow, .enqueueFirst, .setFirst, .onJobComplete 0, .recordStepComplete, .readInstance, .enqueueStep,
    .setCurrentStep].map (.call 0)

private def importing : Sys := ((engine onboardWithUndo).run {} untilImport).getD {}

private theorem importing_reachable : (engine onboardWithUndo).Reachable importing :=
  Machine.reachable_of_run (.initial rfl) (show (engine onboardWithUndo).run {} untilImport = some importing from rfl)

/-- Every statement succeeds, or all but the move to the dead-letter table. -/
private def undo (dlq : Bool) : Outcome where
  dlq
  markCompensating := true
  loads := true
  rows := [(⟨"create", 0, 0⟩, true)]
  markFailed := true

/-- **Nothing is undone**: the third attempt to import fails, the row goes to the dead-letter table, and the workflow
    runs on with an account that stays. -/
theorem failed_import_not_compensated : (engine onboardWithUndo).Reachable importing ∧
    importing.db.lookupWorkflowJob 1 = some "import" ∧
    (importing.db.handleFailing onboardWithUndo (undo true) ⟨1, 3, 3⟩ true).status = some .running ∧
    (importing.db.handleFailing onboardWithUndo (undo true) ⟨1, 3, 3⟩ true).compensations = [] ∧
    ¬ Compensated onboardWithUndo (importing.db.handleFailing onboardWithUndo (undo true) ⟨1, 3, 3⟩ true) :=
  ⟨importing_reachable, rfl, rfl, rfl, not_compensated rfl⟩

/-- The move and the compensation are a run of the engine. -/
theorem failed_import_leads : ∃ τ, (engine onboardWithUndo).Leads importing τ ∧
    τ.db.compensations = [⟨"create", "directory.Delete"⟩] := by
  obtain ⟨τ, hleads, hdb⟩ := @runs_reportFailure onboardWithUndo (undo false) importing 0 ⟨1, 3, 3⟩ rfl (by decide)
    (by decide)
  exact ⟨τ, hleads, congrArg Db.compensations hdb⟩

/-- Had the row stayed, the account would have been deleted. -/
theorem failed_import_compensated :
    Compensated onboardWithUndo (importing.db.handleFailing onboardWithUndo (undo false) ⟨1, 3, 3⟩ true) ∧
    (importing.db.handleFailing onboardWithUndo (undo false) ⟨1, 3, 3⟩ true).compensations =
      [⟨"create", "directory.Delete"⟩] := by
  refine ⟨(compensated_iff importing_reachable rfl rfl (by decide) (by decide)).mpr ⟨rfl, rfl, rfl, ?_⟩, rfl⟩
  intro row hrow _
  obtain rfl := List.mem_singleton.mp hrow
  exact ⟨rfl, rfl⟩

end Atlantis.Workflows
