import Atlantis.Admin.PlanBinding
import Atlantis.Admin.System

/-!
# `Admin.Progress` — where a backfill plan ends

A plan should end complete or failed. Two transactions do not see to that. When a chunk fails the worker marks the
field and leaves the plan, which then is never ready for phase 3, so it stays in phase 2 for good and its caller
locked out of applying. And when the script of phase 3 fails, the plan is marked in the transaction that has just
been aborted, so the mark is lost and the plan is tried again.

`stuck_iff` says exactly where no worker step can change anything any more: where no mark is outstanding and every
plan in phase 2 has a failed field and no field left to fill. Without failing chunks there are no failed fields,
and every plan has ended (`recordsEnds_of_noFailure`).
-/

namespace Atlantis.Admin

open Schema Codegen Proto Lib

/-! ## Where the worker has nothing left to do -/

/-- No worker step can change anything any more. -/
def Stuck (C : Codec) (s : System) : Prop := ∀ a t, a.isWorker = true → s.step C a = some t → t = s

/-- A plan the worker can do nothing about. -/
def BackfillPlan.abandoned (p : BackfillPlan) : Bool :=
  p.fields.all (fun r => r.status = .complete || r.status = .failed) && p.fields.any (·.status = .failed)

theorem BackfillPlan.abandoned_iff {p : BackfillPlan} : p.abandoned = true ↔
    (∀ r ∈ p.fields, r.status = .complete ∨ r.status = .failed) ∧ ∃ r ∈ p.fields, r.status = .failed := by
  simp [BackfillPlan.abandoned]

variable {C : Codec} {s t : System} {a : Act}

/-- Phase 3 of a ready plan ends it, if its script runs. -/
theorem tryPhaseThreeOnce_ne {host : Host} {db : Database} {p : BackfillPlan} (hp : p ∈ db.plans)
    (hready : readyForPhaseThree p = true) (hpost : ∀ script, host.execute script = .ok ()) :
    ∃ r, tryPhaseThreeOnce C host db p.planHash = some r ∧ r.2 ≠ db := by
  obtain ⟨r, hr⟩ := exists_tryPhaseThreeOnce C host hp hready
  refine ⟨r, hr, fun hsame => ?_⟩
  have hkeeps : ∀ f, r.2 = db.updatePlan p.planHash f → (f p).status = .phase2Running := by
    intro f hf
    -- an update that leaves the database as it is leaves the plan as it is
    have hmap : db.plans.map (fun q => if q.planHash = p.planHash then f q else q) = db.plans.map id := by
      rw [List.map_id]
      exact congrArg Database.plans (hf.symm.trans hsame)
    have hself := List.map_inj_left.mp hmap p hp
    rw [if_pos rfl] at hself
    rw [hself]
    exact (readyForPhaseThree_iff.mp hready).1
  obtain ⟨q, -, hq, -, ⟨-, rfl⟩ | ⟨current, -, -, hdb⟩⟩ := tryPhaseThreeOnce_cases hr
  · unfold runPostSQL at hkeeps
    rw [hpost, hq] at hkeeps
    cases hkeeps _ rfl
  · cases hkeeps _ hdb

/-- **Where the worker is stuck.** -/
theorem stuck_iff :
    Stuck C s ↔ s.failing = [] ∧ ∀ p ∈ s.db.plans, p.status = .phase2Running → p.abandoned = true := by
  constructor
  · intro hstuck
    constructor
    · -- an outstanding mark can be made
      cases hfailing : s.failing with
      | nil => rfl
      | cons x rest =>
        obtain ⟨planHash, entityID, field⟩ := x
        have hmem : (planHash, entityID, field) ∈ s.failing := hfailing ▸ List.mem_cons_self
        have hstep : s.step C (.markFailed planHash entityID field) = some _ := if_pos hmem
        have hsame := congrArg System.failing (hstuck _ _ rfl hstep)
        have hlen := congrArg List.length hsame
        rw [List.length_erase_of_mem hmem, hfailing, List.length_cons] at hlen
        omega
    · intro p hp hphase
      -- no field of the plan can be claimed
      have hfields : ∀ r ∈ p.fields, r.status = .complete ∨ r.status = .failed := by
        intro r hr
        by_contra hopen
        have hclaim : claimable s.db p.planHash r.ref.entityID r.ref.field = true := by
          refine claimable_iff.mpr ⟨p, hp, rfl, hphase, r, hr, rfl, rfl, ?_⟩
          cases hst : r.status <;> simp_all
        have hstep : s.step C (.chunkFails p.planHash r.ref.entityID r.ref.field) = some _ := if_pos hclaim
        have hlen := congrArg (fun u => u.failing.length) (hstuck _ _ rfl hstep)
        simp at hlen
      refine BackfillPlan.abandoned_iff.mpr ⟨hfields, ?_⟩
      -- if all were complete, phase 3 would run
      by_contra hnone
      have hready : readyForPhaseThree p = true := by
        refine readyForPhaseThree_iff.mpr ⟨hphase, fun r hr => ?_⟩
        rcases hfields r hr with hr' | hr'
        · exact hr'
        · exact absurd ⟨r, hr, hr'⟩ hnone
      obtain ⟨r, hr, hne⟩ := @tryPhaseThreeOnce_ne C {} s.db p hp hready fun _ => rfl
      have hstep : s.step C (.phaseThree {} p.planHash) = some { s with db := r.2 } := by
        show (tryPhaseThreeOnce C {} s.db p.planHash).map _ = _
        rw [hr]
        rfl
      exact hne (congrArg System.db (hstuck _ _ rfl hstep))
  · rintro ⟨hfailing, hplans⟩ a t ha h
    have hclaim : ∀ planHash entityID field, claimable s.db planHash entityID field = false := by
      intro planHash entityID field
      by_contra hclaim
      obtain ⟨p, hp, -, hphase, r, hr, -, -, hopen⟩ := claimable_iff.mp (Bool.not_eq_false _ ▸ hclaim)
      have hclosed := (BackfillPlan.abandoned_iff.mp (hplans p hp hphase)).1 r hr
      cases hst : r.status <;> simp [hst] at hopen hclosed
    cases a with
    | applyCheck | applyCommit | begin | indexes | rollback | adopt => cases ha
    | chunk planHash entityID field rows =>
      obtain ⟨db, hdb, _⟩ := Option.map_eq_some_iff.mp h
      obtain ⟨hclaimed, _⟩ := Option.ite_none_right_eq_some.mp hdb
      rw [hclaim] at hclaimed
      cases hclaimed
    | chunkFails planHash entityID field =>
      obtain ⟨hclaimed, _⟩ := Option.ite_none_right_eq_some.mp h
      rw [hclaim] at hclaimed
      cases hclaimed
    | markFailed planHash entityID field =>
      obtain ⟨hmem, _⟩ := Option.ite_none_right_eq_some.mp h
      rw [hfailing] at hmem
      cases hmem
    | phaseThree host planHash =>
      obtain ⟨r, hr, _⟩ := Option.map_eq_some_iff.mp h
      -- a ready plan has no failed field, an abandoned one has
      obtain ⟨p, hp, -, hready, -⟩ := tryPhaseThreeOnce_cases hr
      obtain ⟨hphase, hcomplete⟩ := readyForPhaseThree_iff.mp hready
      obtain ⟨r, hmem, hfailed⟩ := (BackfillPlan.abandoned_iff.mp (hplans p hp hphase)).2
      cases (hcomplete r hmem).symm.trans hfailed

/-! ## Ends -/

/-- **A plan never gets stuck**: where the worker can change nothing any more every plan has ended, and a plan with a
    failed field is failed. -/
structure RecordsEnds (C : Codec) (s : System) : Prop where
  ends : Stuck C s → ∀ p ∈ s.db.plans, p.status = .complete ∨ p.status = .failed
  failedField : ∀ p ∈ s.db.plans, (∃ r ∈ p.fields, r.status = .failed) → p.status = .failed

/-- A plan whose script for phase 3 is run and fails is failed. -/
def RecordsPostFailure (C : Codec) (s : System) (a : Act) (t : System) : Prop :=
  ∀ host planHash p, a = .phaseThree host planHash → p ∈ s.db.plans → p.planHash = planHash →
    readyForPhaseThree p = true → irCheckpointHash C s.db = some p.irCheckpointHash →
    (host.execute p.postSQL).isOk = false → ∃ q ∈ t.db.plans, q.planHash = planHash ∧ q.status = .failed

/-- No chunk fails, and no script of phase 3 that is run. -/
def NoFailure (C : Codec) (s : System) : Act → Prop
  | .chunkFails .. => False
  | .phaseThree host planHash => ∀ p ∈ s.db.plans, p.planHash = planHash → readyForPhaseThree p = true →
      irCheckpointHash C s.db = some p.irCheckpointHash → (host.execute p.postSQL).isOk = true
  | _ => True

/-- The plan is not seen in the middle of phase 3, and no field of it is failed. -/
def BackfillPlan.Unfailed (p : BackfillPlan) : Prop :=
  p.status ≠ .phase3Running ∧ ∀ r ∈ p.fields, r.status ≠ .failed

/-- What such runs keep: no field is failed or about to be, and no plan is seen in the middle of phase 3. -/
structure Unfailed (s : System) : Prop where
  failing : s.failing = []
  plans : ∀ p ∈ s.db.plans, p.Unfailed

theorem Unfailed.updatePlan (hs : Unfailed s) {planHash : String} {f : BackfillPlan → BackfillPlan}
    (hdb : t.db = s.db.updatePlan planHash f) (hfailing : t.failing = s.failing) (hf : ∀ p, p.Unfailed → (f p).Unfailed) :
    Unfailed t := by
  refine ⟨hfailing ▸ hs.failing, fun q hq => ?_⟩
  rw [hdb] at hq
  obtain ⟨p, hp, rfl⟩ := List.mem_map.mp hq
  split
  · exact hf p (hs.plans p hp)
  · exact hs.plans p hp

theorem Unfailed.of_plans_eq (hs : Unfailed s) (hplans : t.db.plans = s.db.plans) (hfailing : t.failing = s.failing) :
    Unfailed t :=
  ⟨hfailing ▸ hs.failing, hplans ▸ hs.plans⟩

/-- Only the worker notes failing chunks. -/
theorem step_failing (h : s.step C a = some t) (ha : a.isWorker = false) : t.failing = s.failing := by
  cases a with
  | chunk | chunkFails | markFailed | phaseThree => cases ha
  | applyCommit =>
    obtain ⟨_, h⟩ := Option.ite_none_right_eq_some.mp h
    split at h <;> rw [← Option.some.inj h]
  | applyCheck | begin | indexes | rollback | adopt =>
    unfold System.step at h
    simp only at h
    split at h
    · rw [← Option.some.inj h]
    · cases h

theorem unfailed_step (hs : Unfailed s) (hok : NoFailure C s a) (h : s.step C a = some t) : Unfailed t := by
  cases a with
  | applyCommit | rollback | adopt => exact hs.of_plans_eq (step_write h rfl nofun).1 (step_failing h rfl)
  | chunkFails => cases hok
  | applyCheck host req =>
    unfold System.step at h
    simp only at h
    split at h
    · cases h
      exact hs.of_plans_eq rfl rfl
    · cases h
  | begin host req =>
    refine ⟨(step_failing h rfl).trans hs.failing, fun p hp => ?_⟩
    rw [(step_begin h).1] at hp
    rcases List.mem_append.mp hp with hp | hp
    · exact hs.plans p hp
    · rw [List.mem_singleton.mp hp]
      refine ⟨nofun, fun r hr => ?_⟩
      obtain ⟨f, _, rfl⟩ := List.mem_map.mp hr
      exact nofun
  | indexes planHash created =>
    obtain ⟨_, h⟩ := Option.ite_none_right_eq_some.mp h
    cases h
    cases created with
    | true => exact hs.of_plans_eq rfl rfl
    | false => exact hs.updatePlan rfl rfl fun _ hp => ⟨nofun, hp.2⟩
  | chunk planHash entityID field rows =>
    obtain ⟨db, hdb, rfl⟩ := Option.map_eq_some_iff.mp h
    obtain ⟨_, hdb⟩ := Option.ite_none_right_eq_some.mp hdb
    refine hs.updatePlan (Option.some.inj hdb).symm rfl fun p hp => ⟨hp.1, fun r hr => ?_⟩
    obtain ⟨r₀, hr₀, rfl⟩ := List.mem_map.mp hr
    split
    · split <;> exact nofun
    · exact hp.2 r₀ hr₀
  | markFailed planHash entityID field =>
    obtain ⟨hmem, _⟩ := Option.ite_none_right_eq_some.mp h
    rw [hs.failing] at hmem
    cases hmem
  | phaseThree host planHash =>
    obtain ⟨r, hr, rfl⟩ := Option.map_eq_some_iff.mp h
    obtain ⟨p, -, -, -, ⟨-, rfl⟩ | ⟨current, -, -, hdb⟩⟩ := tryPhaseThreeOnce_cases hr
    · unfold runPostSQL
      split
      · exact hs.of_plans_eq rfl rfl
      · exact hs.updatePlan rfl rfl fun _ hp => ⟨nofun, hp.2⟩
    · exact hs.updatePlan hdb rfl fun _ hp => ⟨nofun, hp.2⟩

/-- **Where nothing fails, plans end.** -/
theorem recordsEnds_of_noFailure (hs : (systemMachine C System.Fresh).Reach (NoFailure C) s) :
    RecordsEnds C s ∧ ∀ a t, NoFailure C s a → s.step C a = some t → RecordsPostFailure C s a t := by
  have hun : Unfailed s := by
    refine hs.invariant ?_ fun s a t hinv hok h => unfailed_step hinv hok h
    rintro s ⟨hplans, _, _, hfailing⟩
    exact ⟨hfailing, hplans ▸ nofun⟩
  refine ⟨⟨?_, ?_⟩, ?_⟩
  · intro hstuck p hp
    cases hstatus : p.status with
    | complete => exact .inl rfl
    | failed => exact .inr rfl
    | phase3Running => exact absurd hstatus (hun.plans p hp).1
    | phase2Running =>
      -- an abandoned plan has a failed field
      obtain ⟨r, hr, hfailed⟩ := (BackfillPlan.abandoned_iff.mp ((stuck_iff.mp hstuck).2 p hp hstatus)).2
      exact absurd hfailed ((hun.plans p hp).2 r hr)
  · rintro p hp ⟨r, hr, hfailed⟩
    exact absurd hfailed ((hun.plans p hp).2 r hr)
  · rintro a t hok h host planHash p rfl hp hhash hready hirhash hfails
    rw [hok p hp hhash hready hirhash] at hfails
    cases hfails

/-! ## The gap -/

/-- The worker of a plan that fills notes: begin, and a chunk that fails. -/
def fillFails : List Act :=
  [.begin {} (fillRequest filledTexts.preBackfillUpSQL), .chunkFails filledPlanID "shop.Item" "note",
    .markFailed filledPlanID "shop.Item" "note"]

/-- Begin again, on a checkpoint the request does not change, and fill the field. -/
def refillRequest : BeginRequest where
  caller := "shop"
  planID := filledPlanID
  files := [⟨"shop.atl", .ok { decls := [itemDecl] }⟩]
  backfillFields := filledTexts.backfillFields

def refillDone : List Act := [.begin {} refillRequest, .chunk filledPlanID "shop.Item" "note" 0]

/-- A database on which scripts fail. -/
def failingHost : Host := { execute := fun _ => .error "column contains null values" }

/-- **A failed chunk leaves the plan in phase 2 for good, and a failed script of phase 3 is not recorded.** -/
theorem failures_leave_plan_running :
    (∃ s, (systemMachine plainCodec System.Fresh).Reachable s ∧ Stuck plainCodec s ∧
      ∃ p ∈ s.db.plans, p.status = .phase2Running) ∧
    ∃ s t, (systemMachine plainCodec System.Fresh).Reachable s ∧
      s.step plainCodec (.phaseThree failingHost filledPlanID) = some t ∧
      ¬ RecordsPostFailure plainCodec s (.phaseThree failingHost filledPlanID) t := by
  have hinit : (systemMachine plainCodec System.Fresh).Reachable ⟨itemApplied, [], [], []⟩ :=
    .initial ⟨rfl, rfl, rfl, rfl⟩
  constructor
  · obtain ⟨s, hs, hfailing, habandoned, hplan⟩ :
        ∃ s ∈ (systemMachine plainCodec System.Fresh).run ⟨itemApplied, [], [], []⟩ fillFails, s.failing = [] ∧
          (∀ p ∈ s.db.plans, p.abandoned = true) ∧ ∃ p ∈ s.db.plans, p.status = .phase2Running := by
      decide +kernel
    exact ⟨s, Machine.reachable_of_run hinit hs, stuck_iff.mpr ⟨hfailing, fun p hp _ => habandoned p hp⟩, hplan⟩
  · obtain ⟨s, hs, t, ht, p, hp, hhash, hready, hirhash, hstatus⟩ :
        ∃ s ∈ (systemMachine plainCodec System.Fresh).run ⟨itemApplied, [], [], []⟩ refillDone,
          ∃ t ∈ s.step plainCodec (.phaseThree failingHost filledPlanID), ∃ p ∈ s.db.plans, p.planHash = filledPlanID ∧
            readyForPhaseThree p = true ∧ irCheckpointHash plainCodec s.db = some p.irCheckpointHash ∧
            ∀ q ∈ t.db.plans, q.status ≠ .failed := by
      decide +kernel
    refine ⟨s, t, Machine.reachable_of_run hinit hs, ht, fun hrecords => ?_⟩
    obtain ⟨q, hq, _, hfailed⟩ := hrecords failingHost filledPlanID p rfl hp hhash hready hirhash rfl
    exact hstatus q hq hfailed

/-- The same run without the failure comes to a state where the worker has nothing left to do. -/
theorem recordsEnds_of_noFailure_refill :
    ∃ s, (systemMachine plainCodec System.Fresh).Reach (NoFailure plainCodec) s ∧ Stuck plainCodec s ∧
      s.db.plans ≠ [] ∧ ∀ p ∈ s.db.plans, p.status = .complete ∨ p.status = .failed := by
  obtain ⟨s₁, h₁, s₂, h₂, s, h₃, hfailing, hne, hcomplete⟩ :
      ∃ s₁ ∈ System.step plainCodec ⟨itemApplied, [], [], []⟩ (.begin {} refillRequest),
        ∃ s₂ ∈ s₁.step plainCodec (.chunk filledPlanID "shop.Item" "note" 0),
          ∃ s ∈ s₂.step plainCodec (.phaseThree {} filledPlanID), s.failing = [] ∧ s.db.plans.length ≠ 0 ∧
            ∀ p ∈ s.db.plans, p.status = .complete := by
    decide +kernel
  have hinit : (systemMachine plainCodec System.Fresh).Reach (NoFailure plainCodec) ⟨itemApplied, [], [], []⟩ :=
    .initial ⟨rfl, rfl, rfl, rfl⟩
  have hreach := ((hinit.next (.begin {} refillRequest) trivial h₁).next
    (.chunk filledPlanID "shop.Item" "note" 0) trivial h₂).next (.phaseThree {} filledPlanID) (fun _ _ _ _ _ => rfl) h₃
  have hstuck : Stuck plainCodec s := by
    refine stuck_iff.mpr ⟨hfailing, fun q hq hq' => ?_⟩
    cases (hcomplete q hq).symm.trans hq'
  exact ⟨s, hreach, hstuck, fun hnil => hne (by rw [hnil]; rfl), (recordsEnds_of_noFailure hreach).1.ends hstuck⟩

end Atlantis.Admin
