import Atlantis.Admin.PlanBinding
import Atlantis.Admin.System

/-!
# `Admin.Drift` — the checkpoint a plan expects

Phase 3 refuses a plan whose checkpoint has moved: it compares the hash of the checkpoint with the one the plan
carries. The plan should carry the hash of the checkpoint that its begin commits; `BeginBackfillPlan` takes it before
it writes the new checkpoint, so the plan carries the hash of the old one, and an empty text where there was none.
A plan that changes the schema at all is therefore refused although nobody has touched the checkpoint, and accepted
if somebody puts the old one back.

`driftExact_iff` settles for every begin whether phase 3 refuses drift and only drift. A row of a plan keeps the hash
it was created with (`Tracks`), so the outcome of phase 3 is a matter of three texts: of the checkpoint before the
begin, after it, and at phase 3.
-/

namespace Atlantis.Admin

open Schema Codegen Proto Lib

/-! ## Texts and hashes -/

/-- The text of the checkpoint row. -/
def checkpointText (C : Codec) (db : Database) : Option String := db.checkpoint.map C.jsonbText

/-- SHA-256 has no collisions, and a hex digest is not empty. -/
structure Codec.CollisionFree (C : Codec) : Prop where
  injective : Function.Injective C.sha256
  nonempty : ∀ text, C.sha256 text ≠ ""

theorem irCheckpointHash_eq (C : Codec) (db : Database) : irCheckpointHash C db = (checkpointText C db).map C.sha256 := by
  unfold irCheckpointHash checkpointText
  rw [Option.map_map]
  rfl

/-! ## The row of a plan -/

/-- The database has one plan with the hash, and it expects `expected`. -/
def Tracks (planHash expected : String) (db : Database) : Prop :=
  ∃ p, db.plans.filter (·.planHash = planHash) = [p] ∧ p.irCheckpointHash = expected

variable {C : Codec} {initial : System → Prop} {s t : System} {a : Act} {host : Host} {db : Database}
  {planHash expected : String} {r : Except String Unit × Database}

theorem Tracks.mem {db : Database} (h : Tracks planHash expected db) :
    ∃ p ∈ db.plans, p.planHash = planHash ∧ ∀ q ∈ db.plans, q.planHash = planHash → q = p ∧ q.irCheckpointHash = expected := by
  obtain ⟨p, hfilter, hexpected⟩ := h
  have hp : p ∈ db.plans.filter (·.planHash = planHash) := hfilter ▸ List.mem_cons_self
  refine ⟨p, (List.mem_filter.mp hp).1, of_decide_eq_true (List.mem_filter.mp hp).2, ?_⟩
  intro q hq hhash
  have hq' : q ∈ db.plans.filter (·.planHash = planHash) := List.mem_filter.mpr ⟨hq, decide_eq_true hhash⟩
  rw [hfilter, List.mem_singleton] at hq'
  rw [hq']
  exact ⟨rfl, hexpected⟩

/-- **A plan keeps what it expects.** -/
theorem tracks_step (hs : Tracks planHash expected s.db) (h : s.step C a = some t) : Tracks planHash expected t.db := by
  rcases step_plans h with ⟨host, req, rfl⟩ | ⟨g, hg, hplans⟩
  · -- the new plan has another hash
    obtain ⟨hplans, hfresh, _⟩ := step_begin h
    obtain ⟨p, hp, hhash, _⟩ := hs.mem
    have hother : req.planID ≠ planHash := fun heq => hfresh p hp (hhash.trans heq.symm)
    obtain ⟨p, hfilter, hexpected⟩ := hs
    refine ⟨p, ?_, hexpected⟩
    rw [hplans, List.filter_append, hfilter]
    have hnone : [planOf C s.db req].filter (·.planHash = planHash) = [] :=
      List.filter_eq_nil_iff.mpr fun q hq => by
        rw [List.mem_singleton.mp hq, decide_eq_true_eq]
        exact hother
    rw [hnone, List.append_nil]
  · obtain ⟨p, hfilter, hexpected⟩ := hs
    refine ⟨g p, ?_, (hg p).irCheckpointHash.trans hexpected⟩
    have hcomp : (fun q : BackfillPlan => decide (q.planHash = planHash)) ∘ g = fun q => decide (q.planHash = planHash) := by
      funext q
      show decide ((g q).planHash = planHash) = _
      rw [(hg q).planHash]
    rw [hplans, List.filter_map, hcomp, hfilter, List.map_singleton]

/-- A checkpoint that is there stays there. -/
theorem checkpoint_isSome_step (hs : s.db.checkpoint.isSome = true) (h : s.step C a = some t) :
    t.db.checkpoint.isSome = true := by
  cases hwrite : a.mayWrite with
  | false =>
    obtain ⟨g, _, hdb⟩ := step_work h hwrite
    rw [hdb]
    exact hs
  | true =>
    by_cases hbegin : ∃ host req, a = .begin host req
    · obtain ⟨host, req, rfl⟩ := hbegin
      obtain ⟨_, _, _, _, hcheckpoint, _⟩ := step_begin h
      rw [hcheckpoint]
      rfl
    · rcases (step_write h hwrite fun host req heq => hbegin ⟨host, req, heq⟩).2 with hdb | ⟨v, hcheckpoint, _⟩
      · rw [hdb]
        exact hs
      · rw [hcheckpoint]
        rfl

/-! ## Phase 3 -/

/-- The plan is failed, for the reason that the checkpoint is not the expected one. -/
def FailsWithDrift (db : Database) (planHash : String) : Prop :=
  ∃ p ∈ db.plans, p.planHash = planHash ∧ p.status = .failed ∧ ∃ expected current, p.errorMsg = driftMessage expected current

/-- **Phase 3 fails the plan with drift exactly when the checkpoint's hash is not the expected one.** -/
theorem failsWithDrift_iff (htracks : Tracks planHash expected db) (hsome : db.checkpoint.isSome = true)
    (h : tryPhaseThreeOnce C host db planHash = some r) :
    FailsWithDrift r.2 planHash ↔ irCheckpointHash C db ≠ some expected := by
  obtain ⟨p, hp, hhash, hone⟩ := htracks.mem
  obtain ⟨q, hq, hqhash, hready, hcases⟩ := tryPhaseThreeOnce_cases h
  obtain ⟨rfl, hexpected⟩ := hone q hq hqhash
  rw [← hexpected]
  rcases hcases with ⟨hsame, rfl⟩ | ⟨current, hcurrent, hne, hr⟩
  · have hphase : ∀ q' ∈ db.plans, q'.planHash = planHash → q'.status = .phase2Running := by
      intro q' hq' hhash'
      rw [(hone q' hq' hhash').1]
      exact (readyForPhaseThree_iff.mp hready).1
    obtain ⟨current, hcurrent⟩ : ∃ current, irCheckpointHash C db = some current := by
      rwa [← Option.isSome_iff_exists, irCheckpointHash, Option.isSome_map]
    refine iff_of_false ?_ (not_not.mpr (by rw [hcurrent, hsame current hcurrent]))
    -- running the last script fails nothing
    rintro ⟨q', hq', hhash', hfailed, _⟩
    unfold runPostSQL at hq'
    split at hq'
    · rw [hphase q' hq' hhash'] at hfailed
      cases hfailed
    · obtain ⟨q₀, hq₀, rfl⟩ := List.mem_map.mp hq'
      split at hfailed
      · cases hfailed
      rename_i hne
      rw [if_neg hne] at hhash'
      exact hne (hhash'.trans hqhash.symm)
  · refine iff_of_true ?_ (hcurrent ▸ fun heq => hne (Option.some.inj heq))
    rw [hr]
    refine ⟨_, List.mem_map_of_mem hp, ?_⟩
    rw [if_pos hhash]
    exact ⟨hhash, rfl, _, _, rfl⟩

/-! ## Filling every field -/

/-- The fields still to fill. -/
def BackfillPlan.openFields (p : BackfillPlan) : Nat := p.fields.countP fun r => r.status ≠ .complete

theorem ready_of_openFields {p : BackfillPlan} (hphase : p.status = .phase2Running) (hopen : p.openFields = 0) :
    readyForPhaseThree p = true := by
  refine readyForPhaseThree_iff.mpr ⟨hphase, fun r hr => ?_⟩
  have hnot := List.countP_eq_zero.mp hopen r hr
  simpa using hnot

/-- The worker can fill the fields of a plan one after the other, and touches nothing else. -/
theorem exists_ready (n : Nat) (hs : (systemMachine C initial).Reachable s) {p : BackfillPlan} (hp : p ∈ s.db.plans)
    (hhash : p.planHash = planHash) (hphase : p.status = .phase2Running) (hfields : ∀ r ∈ p.fields, r.status ≠ .failed)
    (hopen : p.openFields ≤ n) :
    ∃ t, (systemMachine C initial).Reachable t ∧ t.db.checkpoint = s.db.checkpoint ∧
      ∃ q ∈ t.db.plans, q.planHash = planHash ∧ readyForPhaseThree q = true := by
  induction n generalizing s p with
  | zero => exact ⟨s, hs, rfl, p, hp, hhash, ready_of_openFields hphase (Nat.le_zero.mp hopen)⟩
  | succ n ih =>
    by_cases hnone : p.openFields = 0
    · exact ⟨s, hs, rfl, p, hp, hhash, ready_of_openFields hphase hnone⟩
    obtain ⟨r, hr, hstatus⟩ := List.countP_pos_iff.mp (Nat.pos_of_ne_zero hnone)
    have hclaim : claimable s.db planHash r.ref.entityID r.ref.field = true := by
      refine claimable_iff.mpr ⟨p, hp, hhash, hphase, r, hr, rfl, rfl, ?_⟩
      have hfailed := hfields r hr
      cases hst : r.status <;> simp_all
    -- a chunk that finds no rows completes the field
    have hstep : s.step C (.chunk planHash r.ref.entityID r.ref.field 0)
        = some { s with db := s.db.setField planHash r.ref.entityID r.ref.field .complete } := by
      show (drainChunk s.db planHash r.ref.entityID r.ref.field 0).map _ = _
      unfold drainChunk
      rw [if_pos hclaim]
      rfl
    let f : FieldState → FieldState := fun r' =>
      if r'.ref.entityID = r.ref.entityID ∧ r'.ref.field = r.ref.field then { r' with status := .complete } else r'
    have hp' : { p with fields := p.fields.map f } ∈ (s.db.setField planHash r.ref.entityID r.ref.field .complete).plans := by
      refine List.mem_map.mpr ⟨p, hp, ?_⟩
      rw [if_pos hhash]
    have hfewer : (p.fields.map f).countP (fun r => r.status ≠ .complete) < p.openFields := by
      refine countP_map_lt_countP ?_ ⟨r, hr, hstatus, ?_⟩
      · intro r' hr'
        by_cases hkey : r'.ref.entityID = r.ref.entityID ∧ r'.ref.field = r.ref.field
        · simp [f, hkey] at hr'
        · simpa [f, hkey] using hr'
      · simp [f]
    have hfields' : ∀ r' ∈ p.fields.map f, r'.status ≠ .failed := by
      intro r' hr'
      obtain ⟨r₀, hr₀, rfl⟩ := List.mem_map.mp hr'
      show FieldState.status (if _ then _ else _) ≠ _
      split
      · exact nofun
      · exact hfields r₀ hr₀
    have hreach := hs.next (.chunk planHash r.ref.entityID r.ref.field 0) trivial hstep
    obtain ⟨t, ht, hcheckpoint, hready⟩ :=
      ih hreach hp' hhash hphase hfields' (Nat.le_of_lt_succ (lt_of_lt_of_le hfewer hopen))
    exact ⟨t, ht, hcheckpoint, hready⟩

/-! ## Drift and only drift -/

/-- **Phase 3 refuses drift and only drift**: whenever, after the system was in `begun`, it comes to phase 3 of the
    plan, the plan is failed with drift exactly when the checkpoint is not the one of `begun`. -/
def DriftExact (C : Codec) (begun : System) (planHash : String) : Prop :=
  ∀ s, (systemMachine C (· = begun)).Reachable s → ∀ host r, tryPhaseThreeOnce C host s.db planHash = some r →
    (FailsWithDrift r.2 planHash ↔ checkpointText C s.db ≠ checkpointText C begun.db)

/-- The submitted files lower to what the checkpoint already holds. -/
def NothingNew (C : Codec) (db : Database) (caller : String) (files : List SubmittedFile) : Prop :=
  ∃ lowered prior, LowersTo db caller files lowered ∧ db.checkpoint = some prior ∧
    C.jsonbText (numbered (some prior) lowered) = C.jsonbText prior

/-- **Phase 3 refuses drift and only drift exactly after a begin that changes nothing.** -/
theorem driftExact_iff {C : Codec} (hC : C.CollisionFree) {s begun : System} {host : Host} {req : BeginRequest}
    (h : s.step C (.begin host req) = some begun) :
    DriftExact C begun req.planID ↔ NothingNew C s.db req.caller req.files := by
  obtain ⟨hplans, hfresh, st, hst, hcheckpoint, _⟩ := step_begin h
  obtain ⟨_, hparsed, hothers, hlower⟩ := stage_ok hst
  have hlowers : LowersTo s.db req.caller req.files st.lowered := ⟨_, _, hparsed, hothers, hlower⟩
  have htracks : ∀ u, (systemMachine C (· = begun)).Reachable u →
      Tracks req.planID ((irCheckpointHash C s.db).getD "") u.db ∧ u.db.checkpoint.isSome = true := by
    intro u hu
    refine hu.invariant (I := fun u => Tracks req.planID ((irCheckpointHash C s.db).getD "") u.db ∧
      u.db.checkpoint.isSome = true) ?_ fun u a t hinv _ hstep =>
        ⟨tracks_step hinv.1 hstep, checkpoint_isSome_step hinv.2 hstep⟩
    rintro u rfl
    refine ⟨⟨planOf C s.db req, ?_, rfl⟩, by rw [hcheckpoint]; rfl⟩
    rw [hplans, List.filter_append, List.filter_eq_nil_iff.mpr fun q hq => by simpa using hfresh q hq, List.nil_append]
    exact List.filter_eq_self.mpr fun q hq => by rw [List.mem_singleton.mp hq]; exact decide_eq_true rfl
  -- the plan expects the checkpoint its begin commits exactly if that is the one from before
  have hkey : irCheckpointHash C begun.db = some ((irCheckpointHash C s.db).getD "") ↔
      NothingNew C s.db req.caller req.files := by
    unfold irCheckpointHash NothingNew
    rw [hcheckpoint]
    constructor
    · intro hhash
      replace hhash := Option.some.inj hhash
      cases hprior : s.db.checkpoint with
      | none =>
        rw [hprior] at hhash
        exact absurd hhash (hC.nonempty _)
      | some prior =>
        rw [hprior] at hhash
        exact ⟨st.lowered, prior, hlowers, rfl, hC.injective hhash⟩
    · rintro ⟨lowered, prior, hlowered, hprior, htext⟩
      rw [(hlowered.eq_iff hlowers).mpr ⟨.refl _, fun _ _ => .refl _⟩] at htext
      rw [hprior]
      exact congrArg (fun text => some (C.sha256 text)) htext
  rw [← hkey]
  constructor
  · intro hexact
    -- let the worker fill all fields with nobody else at work
    have hready : ∃ t, (systemMachine C (· = begun)).Reachable t ∧ t.db.checkpoint = begun.db.checkpoint ∧
        ∃ q ∈ t.db.plans, q.planHash = req.planID ∧ readyForPhaseThree q = true := by
      refine exists_ready _ (.initial rfl) (p := planOf C s.db req) ?_ rfl rfl ?_ le_rfl
      · rw [hplans]
        exact List.mem_append_right _ List.mem_cons_self
      · intro r hr
        obtain ⟨f, _, rfl⟩ := List.mem_map.mp hr
        exact nofun
    obtain ⟨t, ht, hsame, q, hq, hqhash, hqready⟩ := hready
    obtain ⟨r, hr⟩ := exists_tryPhaseThreeOnce C {} hq hqready
    rw [hqhash] at hr
    have htext : checkpointText C t.db = checkpointText C begun.db := congrArg (Option.map _) hsame
    by_contra hne
    rw [irCheckpointHash_eq, ← htext, ← irCheckpointHash_eq] at hne
    exact (hexact t ht {} r hr).mp ((failsWithDrift_iff (htracks t ht).1 (htracks t ht).2 hr).mpr hne) htext
  · intro hhash u hu host r hr
    rw [failsWithDrift_iff (htracks u hu).1 (htracks u hu).2 hr, ← hhash, irCheckpointHash_eq, irCheckpointHash_eq]
    exact not_congr (Option.map_injective hC.injective).eq_iff

/-! ## The gap -/

theorem plainCodec_collisionFree : plainCodec.CollisionFree where
  injective := by
    intro a b hab
    have hlist := congrArg String.toList (show "sha256:" ++ a = "sha256:" ++ b from hab)
    rw [String.toList_append, String.toList_append] at hlist
    exact String.toList_inj.mp (List.append_cancel_left hlist)
  nonempty := by
    intro text h
    have hlen := congrArg String.length (show "sha256:" ++ text = "" from h)
    rw [String.length_append] at hlen
    have hseven : "sha256:".length = 7 := by decide
    rw [hseven] at hlen
    simp at hlen

/-- **A plan is failed with drift although nobody touched the checkpoint**: begin, fill the one field, phase 3. -/
theorem drift_without_change :
    ∃ begun s r, System.step plainCodec ⟨itemApplied, [], [], []⟩ (.begin {} (fillRequest filledTexts.preBackfillUpSQL))
        = some begun ∧
      begun.step plainCodec (.chunk filledPlanID "shop.Item" "note" 0) = some s ∧
      s.db.checkpoint = begun.db.checkpoint ∧ tryPhaseThreeOnce plainCodec {} s.db filledPlanID = some r ∧
      FailsWithDrift r.2 filledPlanID := by
  obtain ⟨begun, hbegun, s, hs, r, hr, hsame, p, hp, hhash, hstatus, hmsg⟩ :
      ∃ begun ∈ System.step plainCodec ⟨itemApplied, [], [], []⟩ (.begin {} (fillRequest filledTexts.preBackfillUpSQL)),
        ∃ s ∈ begun.step plainCodec (.chunk filledPlanID "shop.Item" "note" 0),
          ∃ r ∈ tryPhaseThreeOnce plainCodec {} s.db filledPlanID, s.db.checkpoint = begun.db.checkpoint ∧
            ∃ p ∈ r.2.plans, p.planHash = filledPlanID ∧ p.status = .failed ∧
              p.errorMsg = driftMessage "sha256:shop.Item:id" "sha256:shop.Item:id,note" := by
    decide +kernel
  exact ⟨begun, s, r, hbegun, hs, hsame, hr, p, hp, hhash, hstatus, _, _, hmsg⟩

/-- A request that changes nothing: the plan expects the checkpoint its begin commits. -/
theorem driftExact_iff_unchanged :
    ∃ begun, System.step plainCodec ⟨itemApplied, [], [], []⟩ (.begin {} { fillRequest "" with
        files := [⟨"shop.atl", .ok { decls := [itemDecl] }⟩] }) = some begun ∧ DriftExact plainCodec begun filledPlanID := by
  obtain ⟨begun, hbegun⟩ := Option.isSome_iff_exists.mp (show (System.step plainCodec ⟨itemApplied, [], [], []⟩
    (.begin {} { fillRequest "" with files := [⟨"shop.atl", .ok { decls := [itemDecl] }⟩] })).isSome = true by decide +kernel)
  refine ⟨begun, hbegun, (driftExact_iff plainCodec_collisionFree hbegun).mpr ?_⟩
  refine ⟨{ entities := [itemDecl.entity] }, _,
    ⟨[{ path := "shop:shop.atl", decls := [itemDecl] }], [], ?_, ?_, ?_⟩, rfl, ?_⟩ <;> decide +kernel

end Atlantis.Admin
