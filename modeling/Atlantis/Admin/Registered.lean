import Atlantis.Admin.PlanBinding
import Atlantis.Codegen.Unnumbered
import Atlantis.Proto.History

/-!
# `Admin.Registered` — the checkpoint and the registered files

Every plan starts from two things the database holds: the files all callers have registered and the checkpoint. A
plan compares what the files lower to with the checkpoint, so a caller that changed nothing should see an empty plan.
That is the case in every state where the checkpoint is, up to proto numbers, the schema of the registered files:
entities, queries, procedures, jobs, workflows and ephemerals.

An apply stores the files and the schema they lower to in one transaction, and keeps the two together whatever was
there before. A rollback stores the schema of an earlier version and leaves the files alone: it keeps them together
only if that version has the schema of the checkpoint it replaces.

The snapshots that the calls persist are a history in the sense of `Proto.History` (`history_numbers`).
-/

namespace Atlantis.Admin

open Schema Codegen Proto Custom Lib

/-! ## Histories of calls -/

/-- The calls that move the schema, with what they meet outside their tables. -/
inductive SchemaCall where
  | apply (ord : RangeOrder) (host : Host) (req : ApplyRequest)
  | rollback (ord : RangeOrder) (host : Host) (caller : String) (toVersion : Nat)

/-- A call that succeeds. -/
def SchemaCall.commit (C : Codec) (db : Database) : SchemaCall → Option Database
  | .apply ord host req => (ApplyMigration C ord host db req).toOption.map Applied.db
  | .rollback ord host caller toVersion => (RollbackSchema C ord host db caller toVersion).toOption.map Applied.db

/-- Successful calls, from an empty database on. -/
def historyMachine (C : Codec) : Machine Database SchemaCall := ⟨(· = {}), SchemaCall.commit C⟩

/-! ## Files and checkpoint -/

/-- All registered files. -/
def registeredFiles (db : Database) : Except String (List File) := loadRegistered db.registrations fun _ => true

/-- The files of a caller are the ones it has registered, in any order. -/
def Unchanged (db : Database) (caller : String) (files : List SubmittedFile) : Prop :=
  (registrationsOf caller files).Perm (db.registrations.filter (·.caller = caller))

/-- The checkpoint; without one, the schema is empty. -/
def Database.inForce (db : Database) : FullIR := db.checkpoint.getD { entities := [] }

/-- The same schema up to proto numbers, in all its parts. -/
def SameFull (full full' : FullIR) : Prop := SameSchema full.toIR full'.toIR ∧ full.customs = full'.customs

instance (full full' : FullIR) : Decidable (SameFull full full') :=
  inferInstanceAs (Decidable (full.toIR.unnumbered = full'.toIR.unnumbered ∧ _))

/-- The checkpoint is the schema of the registered files, and who submits its files again has nothing to apply. -/
structure UpToDate (db : Database) : Prop where
  current : ∃ files lowered, registeredFiles db = .ok files ∧ LowerAll files = .ok lowered ∧ SameFull db.inForce lowered
  idle : ∀ caller files, Unchanged db caller files → ∃ parsed others lowered,
    parseSubmitted caller files = .ok parsed ∧ loadOtherCallers db.registrations caller = .ok others ∧
    LowerAll (parsed ++ others) = .ok lowered ∧
    ∀ ord, planDiff ord db.checkpoint caller parsed others lowered = ⟨[], [], []⟩ ∧
      diffCustomDecls ord db.inForce.customs lowered.customs = []

/-- A rollback to a version that has the schema of the checkpoint; any apply. -/
def KeepsSchema (db : Database) : SchemaCall → Prop
  | .apply .. => True
  | .rollback _ _ _ toVersion =>
    ∃ target, db.versions.find? (·.version = toVersion) = some target ∧ SameFull target.snapshot db.inForce

/-! ## The same declarations, split by caller -/

variable {db db' : Database} {caller : String} {files : List SubmittedFile} {C : Codec}

theorem inForce_toIR (db : Database) : db.inForce.toIR = priorIR db.checkpoint := by
  unfold Database.inForce priorIR
  cases db.checkpoint <;> rfl

theorem SameFull.symm {a b : FullIR} (h : SameFull a b) : SameFull b a := ⟨h.1.symm, h.2.symm⟩

theorem SameFull.trans {a b c : FullIR} (h : SameFull a b) (h' : SameFull b c) : SameFull a c :=
  ⟨h.1.trans h'.1, h.2.trans h'.2⟩

/-- Numbering keeps the rest. -/
theorem sameFull_numbered (prior : Option FullIR) (full : FullIR) : SameFull (numbered prior full) full :=
  ⟨sameSchema_AssignProtoNumbers _ _, rfl⟩

/-- What one caller submits and the others have registered, against all that is registered. -/
theorem files_split {parsed others all : List File} (hsame : Unchanged db caller files)
    (hparsed : parseSubmitted caller files = .ok parsed)
    (hothers : loadOtherCallers db.registrations caller = .ok others) (hall : registeredFiles db = .ok all) :
    all.Perm (parsed ++ others) := by
  have hrows : db.registrations.Perm (registrationsOf caller files ++ db.registrations.filter (·.caller ≠ caller)) := by
    refine (List.filter_append_perm (fun r => decide (r.caller = caller)) _).symm.trans ?_
    simpa only [decide_not] using hsame.symm.append_right _
  have hown : parsed = (registrationsOf caller files).map Registration.file := by
    rw [(parseSubmitted_iff.mp hparsed).2, registrationsOf, List.map_map]
    rfl
  have hregs : all.Perm (db.registrations.map Registration.file) := by
    simpa only [List.filter_true] using loadRegistered_ok hall
  refine hregs.trans ((hrows.map _).trans ?_)
  rw [List.map_append, hown]
  exact (loadRegistered_ok hothers).symm.append_left _

/-- **A current checkpoint leaves nothing to apply.** -/
theorem UpToDate.of_current (h : ∃ files lowered, registeredFiles db = .ok files ∧ LowerAll files = .ok lowered ∧
    SameFull db.inForce lowered) : UpToDate db := by
  refine ⟨h, ?_⟩
  obtain ⟨all, lowered, hall, hlower, hschema⟩ := h
  intro caller files hsame
  have hok : ∀ r ∈ db.registrations, r.content.isOk = true := by
    intro r hr
    exact (loadRegistered_iff.mp hall).1 r (List.mem_filter.mpr ⟨hr, rfl⟩)
  have hown : ∀ f ∈ files, f.content.isOk = true := by
    intro f hf
    have hrow : (⟨caller, f.path, f.content⟩ : Registration) ∈ db.registrations.filter (·.caller = caller) :=
      hsame.mem_iff.mp (List.mem_map_of_mem hf)
    exact hok _ (List.mem_filter.mp hrow).1
  obtain ⟨parsed, hparsed⟩ : ∃ parsed, parseSubmitted caller files = .ok parsed :=
    ⟨_, parseSubmitted_iff.mpr ⟨hown, rfl⟩⟩
  obtain ⟨others, hothers⟩ : ∃ others, loadOtherCallers db.registrations caller = .ok others :=
    ⟨_, loadRegistered_iff.mpr ⟨fun r hr => hok r (List.mem_filter.mp hr).1, rfl⟩⟩
  have hsplit := files_split hsame hparsed hothers hall
  refine ⟨parsed, others, lowered, hparsed, hothers, LowerAll_perm (hsplit.flatMap_right _) (hsplit.flatMap_right _) hlower, ?_⟩
  intro ord
  obtain ⟨hentities, hcustoms⟩ := hschema
  rw [inForce_toIR] at hentities
  exact ⟨ComputeDiff_sameSchema (hentities.trans (sameSchema_AssignProtoNumbers _ _).symm) _ _,
    diffCustomDecls_of_eq (by rw [hcustoms]) (by rw [hcustoms])⟩

/-! ## One call -/

/-- What a submission has stored is what its caller has registered. -/
theorem unchanged_of_upsert {regs' : List Registration}
    (h : upsertCallerFiles db.registrations caller files = .ok regs') :
    Unchanged { db with registrations := regs' } caller files := by
  have hown : (registrationsOf caller files).filter (·.caller = caller) = registrationsOf caller files := by
    rw [List.filter_eq_self]
    intro r hr
    obtain ⟨f, _, rfl⟩ := List.mem_map.mp hr
    exact decide_eq_true rfl
  have hother : (db.registrations.filter (·.caller ≠ caller)).filter (·.caller = caller) = [] := by
    rw [List.filter_eq_nil_iff]
    intro r hr
    simpa using (List.mem_filter.mp hr).2
  show (registrationsOf caller files).Perm (regs'.filter (·.caller = caller))
  rw [upsertCallerFiles_ok h, List.filter_append, hother, hown, List.nil_append]

/-- **An apply leaves files and checkpoint together**, whatever was there. -/
theorem upToDate_apply {ord : RangeOrder} {host : Host} {req : ApplyRequest} {applied : Applied}
    (h : ApplyMigration C ord host db req = .ok applied) : UpToDate applied.db := by
  obtain ⟨_, htx⟩ := ApplyMigration_ok h
  obtain ⟨st, scripts, v, hst, _, _, _, rfl⟩ := applyTx_ok htx
  obtain ⟨hupsert, hparsed, hothers, hlower⟩ := stage_ok hst
  have hsame := unchanged_of_upsert hupsert
  rw [← loadOtherCallers_upsert hupsert] at hothers
  -- everything that is now registered has just been parsed
  have hok : ∀ r ∈ st.registrations, r.content.isOk = true := by
    intro r hr
    by_cases hcaller : r.caller = req.caller
    · obtain ⟨f, hf, rfl⟩ := List.mem_map.mp (hsame.mem_iff.mpr (List.mem_filter.mpr ⟨hr, decide_eq_true hcaller⟩))
      exact (parseSubmitted_iff.mp hparsed).1 f hf
    · exact (loadRegistered_iff.mp hothers).1 r (List.mem_filter.mpr ⟨hr, decide_eq_true hcaller⟩)
  have hall : loadRegistered st.registrations (fun _ => true) = .ok _ :=
    loadRegistered_iff.mpr ⟨fun r hr => hok r (List.mem_filter.mp hr).1, rfl⟩
  have hsplit := (files_split hsame hparsed hothers hall).symm
  refine UpToDate.of_current
    ⟨_, st.lowered, hall, LowerAll_perm (hsplit.flatMap_right _) (hsplit.flatMap_right _) hlower, ?_⟩
  exact sameFull_numbered _ _

/-- A rollback keeps them together exactly if it goes to the schema that is there. -/
theorem upToDate_rollback_iff {ord : RangeOrder} {host : Host} {toVersion : Nat} {applied : Applied} (hdb : UpToDate db)
    (h : RollbackSchema C ord host db caller toVersion = .ok applied) :
    UpToDate applied.db ↔ KeepsSchema db (.rollback ord host caller toVersion) := by
  obtain ⟨target, currentIR, v, htarget, hcurrent, _, hafter⟩ := RollbackSchema_ok h
  obtain ⟨files, lowered, hfiles, hlower, hschema⟩ := hdb.current
  have hprior : SameFull applied.db.inForce target.snapshot := by
    rw [hafter]
    exact sameFull_numbered _ _
  have hregs : registeredFiles applied.db = registeredFiles db := by
    rw [hafter]
    rfl
  constructor
  · intro hup
    obtain ⟨files', lowered', hfiles', hlower', hschema'⟩ := hup.current
    obtain rfl : files' = files := Except.ok.inj (hfiles'.symm.trans (hregs.trans hfiles))
    obtain rfl : lowered' = lowered := Except.ok.inj (hlower'.symm.trans hlower)
    exact ⟨target, htarget, hprior.symm.trans (hschema'.trans hschema.symm)⟩
  · rintro ⟨target', htarget', hsame⟩
    obtain rfl : target' = target := Option.some.inj (htarget'.symm.trans htarget)
    exact UpToDate.of_current ⟨files, lowered, hregs.trans hfiles, hlower, hprior.trans (hsame.trans hschema)⟩

/-- **One call**, from a state that is up to date. -/
theorem upToDate_commit_iff {call : SchemaCall} (hdb : UpToDate db) (h : call.commit C db = some db') :
    UpToDate db' ↔ KeepsSchema db call := by
  cases call with
  | apply ord host req =>
    obtain ⟨applied, happlied, rfl⟩ := Option.map_eq_some_iff.mp h
    exact ⟨fun _ => trivial, fun _ => upToDate_apply (eq_ok_of_toOption happlied)⟩
  | rollback ord host caller toVersion =>
    obtain ⟨applied, happlied, rfl⟩ := Option.map_eq_some_iff.mp h
    exact upToDate_rollback_iff hdb (eq_ok_of_toOption happlied)

/-! ## Histories -/

theorem upToDate_empty : UpToDate {} := UpToDate.of_current ⟨[], { entities := [] }, rfl, rfl, rfl, rfl⟩

/-- An apply of one file of the shop, under the plan for the given checkpoint. -/
def shopApply (checkpoint : String) (decls : List EntityDecl) : SchemaCall :=
  .apply insertionOrder {} ⟨"shop", "shop\x00shop:shop.atl\x00" ++ checkpoint, [⟨"shop.atl", .ok { decls }⟩], ""⟩

/-- An apply of the item with its query and its job. -/
def itemsApply : SchemaCall :=
  .apply insertionOrder {} ⟨"shop", "shop\x00shop:items.atl\x00", [itemsFile ⟨"", "Item"⟩ "1:1"], ""⟩

/-- The persisted schemas, newest first. -/
def Database.snapshots (db : Database) : List FullIR := (db.versions.map SchemaVersion.snapshot).reverse

/-- Their entities. -/
def Database.schemas (db : Database) : List IR := db.snapshots.map FullIR.toIR

/-- What `Lower` returns has no numbers. -/
theorem Lower_fresh {files : List File} {ir : IR} (h : Lower files = .ok ir) : FreshIR ir := by
  obtain ⟨hsound, hnodup, _, rfl⟩ := Lower_ok_iff.mp h
  refine ⟨?_, ?_⟩
  · show ((List.map _ (sortByID (declaredEntities files))).map Entity.id).Nodup
    rw [List.map_map]
    exact ((sortByID_perm _).map _).nodup_iff.mpr hnodup
  · refine List.forall_mem_map.mpr fun e he => ?_
    obtain ⟨_, _, hnames, hfields, _, hretired⟩ := declared_of_mem hsound ((sortByID_perm _).mem_iff.mp he)
    refine ⟨?_, ?_, hretired⟩
    · show ((e.fields.map (threadField _)).map Field.name).Nodup
      rw [List.map_map]
      exact hnames
    · exact List.forall_mem_map.mpr fun f hf => (hfields f hf).2.1

/-- **A call that succeeds is a step of `numberMachine`**: it numbers a schema that was just lowered, or the one of an
    earlier version. -/
theorem SchemaCall.commit_numbers {call : SchemaCall} (hhead : db.checkpoint = db.snapshots.head?)
    (h : call.commit C db = some db') :
    (∃ a, NumberStep.take db.schemas a = some db'.schemas) ∧ db'.checkpoint = db'.snapshots.head? := by
  have hprior : inForce db.schemas = priorIR db.checkpoint := by
    unfold inForce priorIR Database.schemas
    rw [hhead, List.head?_map]
  cases call with
  | apply ord host req =>
    obtain ⟨applied, happlied, rfl⟩ := Option.map_eq_some_iff.mp h
    obtain ⟨_, htx⟩ := ApplyMigration_ok (eq_ok_of_toOption happlied)
    obtain ⟨st, scripts, v, hst, _, _, hv, rfl⟩ := applyTx_ok htx
    refine ⟨⟨.apply st.lowered.toIR, ?_⟩, by simp [Database.snapshots, hv]⟩
    have hfresh := Lower_fresh (LowerAll_ok_iff.mp (stage_ok hst).2.2.2).1
    simp only [NumberStep.take, if_pos hfresh, hprior]
    simp [Database.schemas, Database.snapshots, hv, numbered]
  | rollback ord host caller toVersion =>
    obtain ⟨applied, happlied, rfl⟩ := Option.map_eq_some_iff.mp h
    obtain ⟨target, currentIR, v, htarget, hcurrent, hv, hdb⟩ := RollbackSchema_ok (eq_ok_of_toOption happlied)
    have hmem : target.snapshot.toIR ∈ db.schemas :=
      List.mem_map_of_mem (List.mem_reverse.mpr (List.mem_map_of_mem (List.mem_of_find?_eq_some htarget)))
    obtain ⟨back, hback⟩ := List.mem_iff_getElem?.mp hmem
    refine ⟨⟨.rollback back, ?_⟩, by simp [Database.snapshots, hdb, hv]⟩
    simp only [NumberStep.take, hback, Option.map_some, hprior, hcurrent]
    simp [hdb, hv, Database.schemas, Database.snapshots, numbered]

/-- **The calls number schemas by the steps of `numberMachine`**, and the checkpoint is the schema in force. -/
theorem history_numbers (h : (historyMachine C).Reachable db) :
    numberMachine.Reachable db.schemas ∧ db.checkpoint = db.snapshots.head? := by
  refine Machine.Reach.invariant (I := fun db => numberMachine.Reachable db.schemas ∧
    db.checkpoint = db.snapshots.head?) ?_ ?_ h
  · rintro s rfl
    exact ⟨.initial rfl, rfl⟩
  · rintro s call t ⟨hreach, hhead⟩ _ hstep
    obtain ⟨⟨a, htake⟩, hhead'⟩ := SchemaCall.commit_numbers hhead hstep
    exact ⟨hreach.next a trivial htake, hhead'⟩

/-- An apply, and a rollback to it. -/
theorem history_numbers_rollback : ∃ db : Database, db.snapshots.length = 2 ∧ numberMachine.Reachable db.schemas := by
  obtain ⟨db, hrun, hlen⟩ : ∃ db, (historyMachine plainCodec).run {} [shopApply "" [itemDecl],
      .rollback insertionOrder {} "ops" 1] = some db ∧ db.snapshots.length = 2 := by
    decide +kernel
  exact ⟨db, hlen, (history_numbers (Machine.reachable_of_run (.initial rfl) hrun)).1⟩

end Atlantis.Admin
