import Atlantis.Admin.Service

/-!
# `Admin.Backfill` — plans in phases, and the worker that drives them

A migration that needs its rows filled runs in three phases. `BeginBackfillPlan` of `internal/server/admin` stores a
plan with one row for each field to fill, runs the first script and writes the new checkpoint, in one transaction.
The worker of `internal/backfill` then fills the fields chunk by chunk, and when all are complete runs the last
script. Several workers may do so at once; a chunk, a mark and an attempt at phase 3 are one transaction each, so
each is a function on the database here. Which claimable field or ready plan a worker picks is its own choice (rows
that others hold locked are skipped), so the functions take it as an argument.
-/

namespace Atlantis.Admin

open Schema Codegen Proto Lib

/-! ## Beginning a plan -/

/-- `BeginBackfillPlanRequest`. -/
structure BeginRequest where
  caller : String
  planID : String
  files : List SubmittedFile
  preBackfillUpSQL : String := ""
  preBackfillIndexesSQL : String := ""
  postBackfillUpSQL : String := ""
  postBackfillIndexesSQL : String := ""
  backfillFields : List BackfillField
  deriving DecidableEq

/-- What `BeginBackfillPlan` answers, with the script it ran and the database it commits. -/
inductive BeginOutcome where
  | alreadyRunning
  | alreadyComplete
  | accepted (executed : String) (db : Database)

/-- One `INSERT` into `backfill_field_state`; entity and field are the key within a plan. -/
def insertField (rows : List FieldState) (f : BackfillField) : Except String (List FieldState) :=
  if f.pkColumn = "" then .error ("admin: backfill field " ++ f.entityID ++ "." ++ f.field ++ " has no PK column")
  else if rows.any fun r => r.ref.entityID = f.entityID ∧ r.ref.field = f.field then
    .error ("insert backfill_field_state " ++ f.entityID ++ "." ++ f.field)
  else .ok (rows ++ [⟨f, .pending⟩])

/-- The script of phase 1, if there is one; returns what was run. -/
def runPreSQL (host : Host) (script : String) : Except String String :=
  if script ≠ "" then do
    (host.execute script).mapError ("pre-backfill apply: " ++ ·)
    pure script
  else pure ""

variable (C : Codec)

/-- `IRCheckpointHash`: nothing without a checkpoint. -/
def irCheckpointHash (db : Database) : Option String := db.checkpoint.map fun ir => C.sha256 (C.jsonbText ir)

/-- The part of `BeginBackfillPlan` after the look at an existing plan. The hash that phase 3 will compare is taken
    here, before `persistCheckpoint` writes the new checkpoint. -/
def beginPlan (host : Host) (db : Database) (req : BeginRequest) : Except String (String × Database) := do
  let st ← stage "begin-backfill" db req.caller req.files
  let newIR := numbered db.checkpoint st.lowered
  let gotPlanID := computePlanID C req.caller st.parsed db.checkpoint
  require (gotPlanID = req.planID)
    ("admin: plan " ++ req.planID ++ " is stale; current plan is " ++ gotPlanID ++ " — re-run tide apply")
  let irHash := (irCheckpointHash C db).getD ""
  let fields ← req.backfillFields.foldlM insertField []
  let plan : BackfillPlan := {
    planHash := req.planID, caller := req.caller, postSQL := req.postBackfillUpSQL
    postIndexesSQL := req.postBackfillIndexesSQL, irCheckpointHash := irHash, fields }
  let executed ← runPreSQL host req.preBackfillUpSQL
  let db' ← persistCheckpoint C { db with registrations := st.registrations, plans := db.plans ++ [plan] } newIR
    { caller := req.caller, eventType := "apply", planID := req.planID, expectedHash := loadCheckpointHash C db }
  pure (executed, db')

/-- **`BeginBackfillPlan`**, up to its commit. -/
def BeginBackfillPlan (host : Host) (db : Database) (req : BeginRequest) : Except String BeginOutcome := do
  require (req.caller ≠ "") "admin: caller identity is required"
  host.authorize
  require host.backfillEnabled
    "admin: backfill worker is disabled on this server (set ATL_BACKFILL_WORKER_ENABLED=true to enable)"
  require (req.planID ≠ "") "admin: plan_id is required"
  require (req.backfillFields ≠ []) "admin: backfill request has no fields — was this plan really backfill-required?"
  match (db.plans.find? (·.planHash = req.planID)).map BackfillPlan.status with
  | some .phase2Running | some .phase3Running => pure .alreadyRunning
  | some .complete => pure .alreadyComplete
  | some .failed => throw ("admin: plan " ++ req.planID ++ " previously failed; manual triage required")
  | none => do
      let (executed, db') ← beginPlan C host db req
      pure (.accepted executed db')

/-! ## The worker -/

/-- `UPDATE backfill_plan … WHERE plan_hash = …`. -/
def Database.updatePlan (db : Database) (planHash : String) (f : BackfillPlan → BackfillPlan) : Database :=
  { db with plans := db.plans.map fun p => if p.planHash = planHash then f p else p }

/-- `UPDATE backfill_field_state SET status = … WHERE plan_hash = … AND entity_id = … AND field = …`. -/
def Database.setField (db : Database) (planHash entityID field : String) (status : FieldStatus) : Database :=
  db.updatePlan planHash fun p => { p with fields := p.fields.map fun r =>
    if r.ref.entityID = entityID ∧ r.ref.field = field then { r with status } else r }

/-- A field the worker may claim. -/
def claimable (db : Database) (planHash entityID field : String) : Bool :=
  db.plans.any fun p => p.planHash = planHash && p.status = .phase2Running && p.fields.any fun r =>
    r.ref.entityID = entityID && r.ref.field = field && (r.status = .pending || r.status = .running)

/-- `drainOnePendingField` with a chunk that updated `rows` rows. -/
def drainChunk (db : Database) (planHash entityID field : String) (rows : Nat) : Option Database :=
  if claimable db planHash entityID field then
    some (db.setField planHash entityID field (if rows = 0 then .complete else .running))
  else none

/-- `markFieldFailedPool`. -/
def markFieldFailed (db : Database) (planHash entityID field : String) : Database :=
  db.setField planHash entityID field .failed

/-- `sanitizeError`: the first line, at most 200 characters. -/
def sanitizeError (msg : String) : String :=
  let line := msg.toList.takeWhile (· ≠ '\n')
  String.ofList ((if line = [] then msg.toList else line).take 200)

/-- `SELECT … WHERE p.status = 'phase2_running' AND NOT EXISTS (… f.status != 'complete')`. -/
def readyForPhaseThree (p : BackfillPlan) : Bool := p.status = .phase2Running && p.fields.all (·.status = .complete)

/-- The text a plan is failed with when the checkpoint is not the one it expects. -/
def driftMessage (expected current : String) : String :=
  sanitizeError ("ir_checkpoint shifted under us (expected=" ++ expected ++ " got=" ++ current ++ ")")

/-- The rest of phase 3 once the checkpoint is accepted. A failing script aborts the transaction: the mark that
    follows it and the commit have no effect. -/
def runPostSQL (host : Host) (db : Database) (p : BackfillPlan) : Except String Unit × Database :=
  match host.execute p.postSQL with
  | .error err => (.error ("post_sql: " ++ err), db)
  | .ok () => (.ok (), db.updatePlan p.planHash fun p => { p with status := .complete })

/-- **`tryPhaseThreeOnce`** on the plan it picked; nothing if the plan is not ready. -/
def tryPhaseThreeOnce (host : Host) (db : Database) (planHash : String) : Option (Except String Unit × Database) :=
  match db.plans.find? fun p => p.planHash = planHash && readyForPhaseThree p with
  | none => none
  | some p =>
    match irCheckpointHash C db with
    | none => some (runPostSQL host db p)
    | some current =>
      if current ≠ p.irCheckpointHash then
        some (.error ("ir_checkpoint drift for plan " ++ planHash), db.updatePlan planHash fun p =>
          { p with status := .failed, errorMsg := driftMessage p.irCheckpointHash current })
      else some (runPostSQL host db p)

theorem readyForPhaseThree_iff {p : BackfillPlan} :
    readyForPhaseThree p = true ↔ p.status = .phase2Running ∧ ∀ r ∈ p.fields, r.status = .complete := by
  simp [readyForPhaseThree]

theorem claimable_iff {db : Database} {planHash entityID field : String} :
    claimable db planHash entityID field = true ↔ ∃ p ∈ db.plans, p.planHash = planHash ∧ p.status = .phase2Running ∧
      ∃ r ∈ p.fields, r.ref.entityID = entityID ∧ r.ref.field = field ∧ (r.status = .pending ∨ r.status = .running) := by
  simp [claimable, and_assoc]

/-- **What phase 3 may do**: with the expected checkpoint, or without any, it goes on; with another it fails the plan. -/
theorem tryPhaseThreeOnce_cases {C : Codec} {host : Host} {db : Database} {planHash : String}
    {r : Except String Unit × Database} (h : tryPhaseThreeOnce C host db planHash = some r) :
    ∃ p ∈ db.plans, p.planHash = planHash ∧ readyForPhaseThree p = true ∧
      ((∀ current, irCheckpointHash C db = some current → current = p.irCheckpointHash) ∧ r = runPostSQL host db p ∨
        ∃ current, irCheckpointHash C db = some current ∧ current ≠ p.irCheckpointHash ∧
          r.2 = db.updatePlan planHash fun p =>
            { p with status := .failed, errorMsg := driftMessage p.irCheckpointHash current }) := by
  unfold tryPhaseThreeOnce at h
  split at h
  · cases h
  rename_i p hfind
  have hp := List.find?_some hfind
  rw [Bool.and_eq_true, decide_eq_true_eq] at hp
  refine ⟨p, List.mem_of_find?_eq_some hfind, hp.1, hp.2, ?_⟩
  split at h
  · rename_i hnone
    cases h
    exact .inl ⟨by rw [hnone]; exact nofun, rfl⟩
  · rename_i current hcurrent
    rw [hcurrent]
    split at h <;> cases h
    · rename_i hne
      exact .inr ⟨current, rfl, hne, rfl⟩
    · rename_i hsame
      exact .inl ⟨by rintro _ ⟨⟩; exact not_not.mp hsame, rfl⟩

/-- Phase 3 runs for a plan that is ready. -/
theorem exists_tryPhaseThreeOnce (C : Codec) (host : Host) {db : Database} {p : BackfillPlan} (hp : p ∈ db.plans)
    (hready : readyForPhaseThree p = true) : ∃ r, tryPhaseThreeOnce C host db p.planHash = some r := by
  have hfind : (db.plans.find? fun q => decide (q.planHash = p.planHash) && readyForPhaseThree q).isSome = true :=
    List.find?_isSome.mpr ⟨p, hp, by rw [hready]; simp⟩
  obtain ⟨q, hq⟩ := Option.isSome_iff_exists.mp hfind
  unfold tryPhaseThreeOnce
  rw [hq]
  simp only
  split
  · exact ⟨_, rfl⟩
  split
  · exact ⟨_, rfl⟩
  · exact ⟨_, rfl⟩

/-- Whether a request is accepted. -/
def accepts (C : Codec) (host : Host) (db : Database) (req : BeginRequest) : Bool :=
  match BeginBackfillPlan C host db req with
  | .ok (.accepted _ _) => true
  | _ => false

theorem exists_accepted {C : Codec} {host : Host} {db : Database} {req : BeginRequest}
    (h : accepts C host db req = true) :
    ∃ executed db', BeginBackfillPlan C host db req = .ok (.accepted executed db') := by
  unfold accepts at h
  split at h
  · rename_i executed db' heq
    exact ⟨executed, db', heq⟩
  · cases h

/-! ## What a begin did -/

variable {C} {host : Host} {db db' : Database} {req : BeginRequest}

/-- The plan a request is stored as. -/
def planOf (C : Codec) (db : Database) (req : BeginRequest) : BackfillPlan where
  planHash := req.planID
  caller := req.caller
  postSQL := req.postBackfillUpSQL
  postIndexesSQL := req.postBackfillIndexesSQL
  irCheckpointHash := (irCheckpointHash C db).getD ""
  fields := req.backfillFields.map fun f => ⟨f, .pending⟩

theorem runPreSQL_ok {script executed : String} (h : runPreSQL host script = .ok executed) : executed = script := by
  unfold runPreSQL at h
  split at h
  · obtain ⟨_, _, h⟩ := bind_ok h
    exact (Except.ok.inj h).symm
  · rename_i hempty
    rw [← Except.ok.inj h, not_not.mp hempty]

/-- **What an accepted request did.** -/
theorem BeginBackfillPlan_accepted {executed : String}
    (h : BeginBackfillPlan C host db req = .ok (.accepted executed db')) :
    ∃ st v, req.caller ≠ "" ∧ req.backfillFields ≠ [] ∧ (∀ p ∈ db.plans, p.planHash ≠ req.planID) ∧
      stage "begin-backfill" db req.caller req.files = .ok st ∧
      computePlanID C req.caller st.parsed db.checkpoint = req.planID ∧ executed = req.preBackfillUpSQL ∧
      v.snapshot = numbered db.checkpoint st.lowered ∧
      db' = { db with
        registrations := st.registrations
        checkpoint := some (numbered db.checkpoint st.lowered)
        versions := db.versions ++ [v]
        plans := db.plans ++ [planOf C db req] } := by
  unfold BeginBackfillPlan at h
  obtain ⟨_, hcaller, h⟩ := bind_ok h
  obtain ⟨_, _, h⟩ := bind_ok h
  obtain ⟨_, _, h⟩ := bind_ok h
  obtain ⟨_, _, h⟩ := bind_ok h
  obtain ⟨_, hfields, h⟩ := bind_ok h
  split at h
  · cases h
  · cases h
  · cases h
  · cases h
  rename_i hnone
  obtain ⟨⟨executed', db''⟩, hbegin, h⟩ := bind_ok h
  cases h
  unfold beginPlan at hbegin
  obtain ⟨st, hst, h⟩ := bind_ok hbegin
  obtain ⟨_, hid, h⟩ := bind_ok h
  obtain ⟨rows, hrows, h⟩ := bind_ok h
  obtain ⟨_, hexec, h⟩ := bind_ok h
  obtain ⟨_, hpersist, h⟩ := bind_ok h
  obtain ⟨v, hv, rfl⟩ := persistCheckpoint_ok hpersist
  obtain rfl : rows = req.backfillFields.map fun f => ⟨f, .pending⟩ := by
    refine foldlM_invariant (I := fun pre rows => rows = pre.map fun f => ⟨f, .pending⟩) rfl ?_ hrows
    intro pre f rest rows rows' _ hrows hstep
    unfold insertField at hstep
    split at hstep
    · cases hstep
    split at hstep
    · cases hstep
    · rw [← Except.ok.inj hstep, hrows, List.map_append, List.map_singleton]
  cases h
  refine ⟨st, v, of_decide_eq_true (require_eq_ok.mp hcaller), of_decide_eq_true (require_eq_ok.mp hfields), ?_, hst,
    of_decide_eq_true (require_eq_ok.mp hid), runPreSQL_ok hexec, hv, rfl⟩
  intro p hp hhash
  rw [Option.map_eq_none_iff, List.find?_eq_none] at hnone
  exact hnone p hp (decide_eq_true hhash)

end Atlantis.Admin
