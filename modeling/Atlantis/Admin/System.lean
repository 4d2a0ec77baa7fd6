import Atlantis.Admin.Backfill
import Atlantis.Lib.Machine

/-!
# `Admin.System` — calls and workers side by side

Any number of callers and workers act on one database. The transactions of the admin calls exclude each other by an
advisory lock, so a call is one step at the moment it commits; the two things that happen outside a transaction are
steps of their own. `ApplyMigration` looks for plans in flight before it takes the lock, and `BeginBackfillPlan`
creates indexes after it has committed. A worker whose chunk failed has rolled back before it marks the field.

What a step can do to the database is said once: `step_work` for the steps that only work on plans that are there,
`step_write` for those that write a checkpoint, `step_begin` for the one that does both. Whatever is proved about
runs goes through them.
-/

namespace Atlantis.Admin

open Schema Codegen Proto Lib

/-- The database and the calls and chunks that are half done. -/
structure System where
  db : Database
  /-- Applies that have passed their check and not yet run their transaction. -/
  checked : List ApplyRequest := []
  /-- Plans whose begin has committed and is still creating indexes. -/
  indexing : List String := []
  /-- Fields whose chunk failed and that are not yet marked. -/
  failing : List (String × String × String) := []

/-- What the parties do, with the choices and outcomes the model does not determine. -/
inductive Act where
  | applyCheck (host : Host) (req : ApplyRequest)
  | applyCommit (ord : RangeOrder) (host : Host) (req : ApplyRequest)
  | begin (host : Host) (req : BeginRequest)
  | indexes (planHash : String) (created : Bool)
  | rollback (ord : RangeOrder) (host : Host) (caller : String) (toVersion : Nat)
  | adopt (ord : RangeOrder) (host : Host) (subs : List CallerSubmission) (allowDrift : Bool)
  | chunk (planHash entityID field : String) (rows : Nat)
  | chunkFails (planHash entityID field : String)
  | markFailed (planHash entityID field : String)
  | phaseThree (host : Host) (planHash : String)

/-- The steps of the worker. -/
def Act.isWorker : Act → Bool
  | .chunk .. | .chunkFails .. | .markFailed .. | .phaseThree .. => true
  | _ => false

/-- The steps in which a call may commit. -/
def Act.mayWrite : Act → Bool
  | .applyCommit .. | .begin .. | .rollback .. | .adopt .. => true
  | _ => false

/-- One step; a call that is refused or short-circuited takes none. -/
def System.step (C : Codec) (s : System) : Act → Option System
  | .applyCheck host req =>
    match Admin.applyCheck host s.db req with
    | .ok () => some { s with checked := req :: s.checked }
    | .error _ => none
  | .applyCommit ord host req =>
    if req ∈ s.checked then
      match applyTx C ord host s.db req with
      | .ok applied => some { s with db := applied.db, checked := s.checked.erase req }
      | .error _ => some { s with checked := s.checked.erase req }
    else none
  | .begin host req =>
    match BeginBackfillPlan C host s.db req with
    | .ok (.accepted _ db) => some { s with db, indexing := req.planID :: s.indexing }
    | _ => none
  | .indexes planHash created =>
    if planHash ∈ s.indexing then
      let db := if created then s.db else s.db.updatePlan planHash fun p => { p with status := .failed }
      some { s with db, indexing := s.indexing.erase planHash }
    else none
  | .rollback ord host caller toVersion =>
    match RollbackSchema C ord host s.db caller toVersion with
    | .ok applied => some { s with db := applied.db }
    | .error _ => none
  | .adopt ord host subs allowDrift =>
    match AdoptBaseline C ord host s.db subs allowDrift with
    | .ok (.written _ db) => some { s with db }
    | _ => none
  | .chunk planHash entityID field rows =>
    (drainChunk s.db planHash entityID field rows).map fun db => { s with db }
  | .chunkFails planHash entityID field =>
    if claimable s.db planHash entityID field then
      some { s with failing := (planHash, entityID, field) :: s.failing }
    else none
  | .markFailed planHash entityID field =>
    if (planHash, entityID, field) ∈ s.failing then
      some { s with
        db := markFieldFailed s.db planHash entityID field
        failing := s.failing.erase (planHash, entityID, field) }
    else none
  | .phaseThree host planHash =>
    (tryPhaseThreeOnce C host s.db planHash).map fun r => { s with db := r.2 }

/-- The system, started where `initial` says. -/
def systemMachine (C : Codec) (initial : System → Prop) : Machine System Act := ⟨initial, System.step C⟩

/-- Nobody is in the middle of anything. -/
def System.Fresh (s : System) : Prop := s.db.plans = [] ∧ s.checked = [] ∧ s.indexing = [] ∧ s.failing = []

/-! ## What a step can do -/

/-- A plan whose rows have not reached an end. -/
def BackfillPlan.inFlight (p : BackfillPlan) : Bool := p.status = .phase2Running || p.status = .phase3Running

/-- What work on a plan leaves as it is. -/
structure SamePlan (p q : BackfillPlan) : Prop where
  planHash : q.planHash = p.planHash
  irCheckpointHash : q.irCheckpointHash = p.irCheckpointHash
  inFlight : q.inFlight = true → p.inFlight = true

theorem SamePlan.refl (p : BackfillPlan) : SamePlan p p := ⟨rfl, rfl, id⟩

/-- Rows of plans are updated, if anything. -/
def Work (db db' : Database) : Prop :=
  ∃ g : BackfillPlan → BackfillPlan, (∀ p, SamePlan p (g p)) ∧ db' = { db with plans := db.plans.map g }

theorem Work.refl (db : Database) : Work db db := by
  refine ⟨id, .refl, ?_⟩
  rw [List.map_id]

theorem Work.updatePlan (db : Database) (planHash : String) {f : BackfillPlan → BackfillPlan}
    (hf : ∀ p, SamePlan p (f p)) : Work db (db.updatePlan planHash f) := by
  refine ⟨_, fun p => ?_, rfl⟩
  split
  · exact hf p
  · exact .refl p

/-- A plan that comes to an end. -/
theorem SamePlan.ends (p : BackfillPlan) {q : BackfillPlan} (hq : q.inFlight = false)
    (h : q = { p with status := q.status, errorMsg := q.errorMsg }) : SamePlan p q := by
  refine ⟨by rw [h], by rw [h], ?_⟩
  rw [hq]
  exact nofun

theorem Work.setField (db : Database) (planHash entityID field : String) (status : FieldStatus) :
    Work db (db.setField planHash entityID field status) :=
  Work.updatePlan db planHash fun _ => ⟨rfl, rfl, id⟩

theorem Work.runPostSQL (host : Host) (db : Database) (p : BackfillPlan) : Work db (runPostSQL host db p).2 := by
  unfold Admin.runPostSQL
  split
  · exact .refl db
  · exact Work.updatePlan db p.planHash fun q => .ends q rfl rfl

theorem Work.tryPhaseThreeOnce {C : Codec} {host : Host} {db : Database} {planHash : String}
    {r : Except String Unit × Database} (h : tryPhaseThreeOnce C host db planHash = some r) : Work db r.2 := by
  obtain ⟨p, -, -, -, ⟨-, rfl⟩ | ⟨current, -, -, hr⟩⟩ := tryPhaseThreeOnce_cases h
  · exact .runPostSQL host db p
  · rw [hr]
    exact Work.updatePlan db planHash fun q => .ends q rfl rfl

variable {C : Codec} {s t : System} {a : Act}

/-- **Only four steps write checkpoints.** -/
theorem step_work (h : s.step C a = some t) (ha : a.mayWrite = false) : Work s.db t.db := by
  cases a with
  | applyCommit | begin | rollback | adopt => cases ha
  | applyCheck | chunkFails =>
    unfold System.step at h
    simp only at h
    split at h
    · cases h
      exact .refl _
    · cases h
  | indexes planHash created =>
    obtain ⟨_, h⟩ := Option.ite_none_right_eq_some.mp h
    cases h
    cases created with
    | true => exact .refl _
    | false => exact Work.updatePlan s.db planHash fun q => .ends q rfl rfl
  | chunk planHash entityID field rows =>
    obtain ⟨db, hdb, rfl⟩ := Option.map_eq_some_iff.mp h
    obtain ⟨_, hdb⟩ := Option.ite_none_right_eq_some.mp hdb
    cases hdb
    exact .setField ..
  | markFailed planHash entityID field =>
    obtain ⟨_, h⟩ := Option.ite_none_right_eq_some.mp h
    cases h
    exact .setField ..
  | phaseThree host planHash =>
    obtain ⟨r, hr, rfl⟩ := Option.map_eq_some_iff.mp h
    exact .tryPhaseThreeOnce hr

/-- What is stored when a checkpoint is written. -/
def Writes (db db' : Database) : Prop :=
  ∃ v : SchemaVersion, db'.checkpoint = some v.snapshot ∧ db'.versions = db.versions ++ [v]

/-- An apply, a rollback or an adoption leaves plans alone. -/
theorem step_write (h : s.step C a = some t) (ha : a.mayWrite = true) (hbegin : ∀ host req, a ≠ .begin host req) :
    t.db.plans = s.db.plans ∧ (t.db = s.db ∨ Writes s.db t.db) := by
  cases a with
  | applyCheck | indexes | chunk | chunkFails | markFailed | phaseThree => cases ha
  | begin host req => exact absurd rfl (hbegin host req)
  | applyCommit ord host req =>
    obtain ⟨_, h⟩ := Option.ite_none_right_eq_some.mp h
    split at h
    · rename_i applied happlied
      obtain ⟨st, scripts, v, _, _, _, hv, rfl⟩ := applyTx_ok happlied
      cases h
      exact ⟨rfl, .inr ⟨v, by rw [hv], rfl⟩⟩
    · cases h
      exact ⟨rfl, .inl rfl⟩
  | rollback ord host caller toVersion =>
    unfold System.step at h
    simp only at h
    split at h
    · rename_i applied happlied
      obtain ⟨target, currentIR, v, _, _, hv, hdb⟩ := RollbackSchema_ok happlied
      cases h
      exact ⟨by rw [hdb], .inr ⟨v, by rw [hdb, hv], by rw [hdb]⟩⟩
    · cases h
  | adopt ord host subs allowDrift =>
    unfold System.step at h
    simp only at h
    split at h
    · rename_i drift db' hadopt
      rcases AdoptBaseline_ok hadopt with ⟨hout, _⟩ | ⟨_, hout⟩ | ⟨drift', regs, v, _, hout⟩ <;> cases hout
      cases h
      exact ⟨rfl, .inr ⟨v, rfl, rfl⟩⟩
    · cases h

/-- A begin adds a plan under a new hash and writes the schema of the submitted files. -/
theorem step_begin {host : Host} {req : BeginRequest} (h : s.step C (.begin host req) = some t) :
    t.db.plans = s.db.plans ++ [planOf C s.db req] ∧ (∀ q ∈ s.db.plans, q.planHash ≠ req.planID) ∧
      ∃ st, stage "begin-backfill" s.db req.caller req.files = .ok st ∧
        t.db.checkpoint = some (numbered s.db.checkpoint st.lowered) ∧ Writes s.db t.db := by
  unfold System.step at h
  simp only at h
  split at h
  · rename_i executed db' hbegin
    obtain ⟨st, v, _, _, hfresh, hst, _, _, hv, rfl⟩ := BeginBackfillPlan_accepted hbegin
    cases h
    exact ⟨rfl, hfresh, st, hst, rfl, v, by rw [hv], rfl⟩
  · cases h

/-- **What a step can do to the plans**: add one, or work on those that are there. -/
theorem step_plans (h : s.step C a = some t) :
    (∃ host req, a = .begin host req) ∨
      ∃ g : BackfillPlan → BackfillPlan, (∀ p, SamePlan p (g p)) ∧ t.db.plans = s.db.plans.map g := by
  cases hwrite : a.mayWrite with
  | false =>
    obtain ⟨g, hg, hdb⟩ := step_work h hwrite
    exact .inr ⟨g, hg, by rw [hdb]⟩
  | true =>
    by_cases hbegin : ∃ host req, a = .begin host req
    · exact .inl hbegin
    · refine .inr ⟨id, .refl, ?_⟩
      rw [List.map_id]
      exact (step_write h hwrite fun host req heq => hbegin ⟨host, req, heq⟩).1

end Atlantis.Admin
