import Atlantis.Admin.Backfill
import Atlantis.Codegen.Emission

/-!
# `Admin.PlanBinding` — what a plan ID binds

A caller reviews the script of a plan and applies it by its ID. `ApplyMigration` computes the ID again from what it
is given and refuses a stale one; the ID is a digest of the caller, the paths of its files and the checkpoint, and
not of what the files say. So a plan made for one submission is accepted for every other one with the same paths,
whatever these declare.

`planBinds_iff` says for which submissions the plan does bind: an accepted apply has the schema of the plan, and runs
the script that the plan shows, exactly when its files declare the same entities, and queries, procedures, jobs,
workflows and ephemerals that mean the same. This rests on `Lower`, which neither loses nor orders declarations, and on
the rest of the pipeline being a function of the schema and of who declares what.

`BeginBackfillPlan` checks the same ID, and takes the scripts and the fields to fill from the request as they are.
`runsPlannedSQL_iff` says when these are the planned ones: when the request hands back what `PlanSchema` answers.
-/

namespace Atlantis.Admin

open Schema Codegen Proto Custom Lib

/-! ## Declarations of a submission -/

/-- The entities that the files of a submission declare. -/
def declarations (files : List SubmittedFile) : List Entity :=
  files.flatMap fun f => f.content.decls.map EntityDecl.entity

/-- The files of a submission, parsed. -/
def filesOf (caller : String) (files : List SubmittedFile) : List File :=
  files.map fun f => ⟨caller ++ ":" ++ f.path, f.content.decls, f.content.customs⟩

/-- **Two submissions of `caller` declare the same**: the same entities, and beside them declarations that, next to
    the files of the others, are lowered to the same. -/
def DeclareSame (db : Database) (caller : String) (F G : List SubmittedFile) : Prop :=
  (declarations F).Perm (declarations G) ∧ ∀ others, loadOtherCallers db.registrations caller = .ok others →
    (meanings (filesOf caller F) others).Perm (meanings (filesOf caller G) others)

variable {caller : String} {db : Database} {F : List SubmittedFile} {ord : RangeOrder}

theorem declaredEntities_parsed {files : List SubmittedFile} {parsed : List File}
    (h : parseSubmitted caller files = .ok parsed) : declaredEntities parsed = declarations files := by
  rw [(parseSubmitted_iff.mp h).2]
  unfold declaredEntities declarations
  rw [List.flatMap_map, List.map_flatMap]

/-- A submission of `caller`, next to the files of the others, lowers to `ir`. -/
def LowersTo (db : Database) (caller : String) (files : List SubmittedFile) (ir : FullIR) : Prop :=
  ∃ parsed others, parseSubmitted caller files = .ok parsed ∧ loadOtherCallers db.registrations caller = .ok others ∧
    LowerAll (parsed ++ others) = .ok ir

theorem LowersTo.eq_iff {G : List SubmittedFile} {ir ir' : FullIR} (hF : LowersTo db caller F ir)
    (hG : LowersTo db caller G ir') : ir = ir' ↔ DeclareSame db caller F G := by
  obtain ⟨pf, others, hpf, hothers, hlf⟩ := hF
  obtain ⟨pg, others', hpg, hothers', hlg⟩ := hG
  obtain rfl : others = others' := Except.ok.inj (hothers.symm.trans hothers')
  rw [LowerAll_eq_iff hlf hlg, declaredEntities_parsed hpf, declaredEntities_parsed hpg]
  obtain rfl := (parseSubmitted_iff.mp hpf).2
  obtain rfl := (parseSubmitted_iff.mp hpg).2
  refine and_congr_right fun _ => ⟨?_, fun h => h others hothers⟩
  intro hmeanings others' hothers'
  obtain rfl := Except.ok.inj (hothers.symm.trans hothers')
  exact hmeanings

/-! ## Ownership -/

theorem ownership_pairs (files : List File) (caller : String) :
    (files.flatMap fun f => f.decls.map fun d => (d.entity.id, caller))
      = (declaredEntities files).map fun e => (e.id, caller) := by
  unfold declaredEntities
  rw [List.map_flatMap, List.map_flatMap]
  simp only [List.map_map, Function.comp_def]

/-- Who declares what depends on the declarations, not on their order. -/
theorem callerContext_congr {pf pg others : List File} (hperm : (declaredEntities pf).Perm (declaredEntities pg))
    (hnodup : ((declaredEntities (pf ++ others)).map Entity.id).Nodup) :
    callerContext caller pf others = callerContext caller pg others := by
  have howner : buildEntityOwnership caller pf others = buildEntityOwnership caller pg others := by
    funext id
    unfold buildEntityOwnership
    simp only [ownership_pairs]
    congr 1
    refine lastWith_perm ((hperm.map _).append_right _) ?_
    -- the keys are the IDs of all declarations
    have hkeys : ∀ fs : List File, (fs.flatMap fun f => f.decls.map fun d => (d.entity.id, callerOfPath f.path)).map
        Prod.fst = (declaredEntities fs).map Entity.id := by
      intro fs
      unfold declaredEntities
      rw [List.map_flatMap, List.map_flatMap, List.map_flatMap]
      simp only [List.map_map, Function.comp_def]
    rw [List.map_append, hkeys, List.map_map]
    rw [declaredEntities_append, List.map_append] at hnodup
    exact hnodup
  unfold callerContext
  rw [howner]

/-! ## Plans -/

/-- The database at the time of the apply has the checkpoint and the other callers' files of the plan. -/
structure SameBase (caller : String) (db db' : Database) : Prop where
  checkpoint : db'.checkpoint = db.checkpoint
  others : db'.registrations.filter (·.caller ≠ caller) = db.registrations.filter (·.caller ≠ caller)

theorem SameBase.loadOtherCallers {db' : Database} (h : SameBase caller db db') :
    loadOtherCallers db'.registrations caller = loadOtherCallers db.registrations caller := by
  unfold Admin.loadOtherCallers loadRegistered
  rw [h.others]

/-- **A clean plan**: the files lower, and the script is emitted from the diff to the checkpoint. -/
theorem PlanSchema_clean {C : Codec} {plan : PlanResponse} (h : PlanSchema C ord db caller F = .ok plan)
    (hid : plan.planID ≠ "") :
    ∃ parsed others lowered, caller ≠ "" ∧ parseSubmitted caller F = .ok parsed ∧
      Admin.loadOtherCallers db.registrations caller = .ok others ∧ LowerAll (parsed ++ others) = .ok lowered := by
  unfold PlanSchema at h
  obtain ⟨_, hcaller, h⟩ := bind_ok h
  cases hparsed : parseSubmitted caller F with
  | error errs =>
    rw [hparsed] at h
    rw [← Except.ok.inj h] at hid
    exact absurd rfl hid
  | ok parsed =>
    rw [hparsed] at h
    obtain ⟨others, hothers, h⟩ := bind_ok h
    cases hlowered : LowerAll (parsed ++ others) with
    | error errs =>
      rw [hlowered] at h
      rw [← Except.ok.inj h] at hid
      exact absurd rfl hid
    | ok lowered =>
      exact ⟨parsed, others, lowered, of_decide_eq_true (require_eq_ok.mp hcaller), rfl, mapError_ok hothers, hlowered⟩

/-- The script that `PlanSchema` answers with, for files that lower. -/
theorem PlanSchema_scripts_iff {C : Codec} {parsed others : List File} {lowered : FullIR} {scripts : SQLScripts}
    (hcaller : caller ≠ "") (hparsed : parseSubmitted caller F = .ok parsed)
    (hothers : loadOtherCallers db.registrations caller = .ok others)
    (hlowered : LowerAll (parsed ++ others) = .ok lowered) :
    (∃ plan, PlanSchema C ord db caller F = .ok plan ∧ plan.scripts = scripts) ↔
      plannedScripts ord db.checkpoint caller parsed others lowered = .ok scripts := by
  have hreq : require (decide (caller ≠ "")) "admin: caller identity is required" = .ok () :=
    require_eq_ok.mpr (decide_eq_true hcaller)
  unfold PlanSchema plannedScripts
  simp only [hreq, hparsed, hothers, hlowered, bind, Except.bind, Except.mapError]
  cases emitScripts ord db.checkpoint (numbered db.checkpoint lowered).toIR
      (planDiff ord db.checkpoint caller parsed others lowered) with
  | error err => simp
  | ok emitted =>
    constructor
    · rintro ⟨plan, ⟨⟩, rfl⟩
      rfl
    · rintro ⟨⟩
      exact ⟨_, rfl, rfl⟩

/-- **The plan binds the apply**: its files lower to the schema of the plan, and the script that ran is the one the
    plan shows (for the order in which the apply visited maps). -/
def PlanBinds (C : Codec) (ord : RangeOrder) (db : Database) (caller : String) (F G : List SubmittedFile)
    (applied : Applied) : Prop :=
  (∃ ir, LowersTo db caller F ir ∧ LowersTo db caller G ir) ∧
    ∃ shown, PlanSchema C ord db caller F = .ok shown ∧ applied.executed = shown.scripts.up

variable {C : Codec} {ord ord' : RangeOrder} {host : Host} {db db' : Database} {caller checkpointHash : String}
variable {F G : List SubmittedFile} {plan : PlanResponse} {applied : Applied}

/-- A text for a schema, for small runs. -/
def plainText (ir : FullIR) : String :=
  ";".intercalate ((ir.entities.map fun e => e.id ++ ":" ++ ",".intercalate (e.fields.map Field.name)) ++
    (ir.customs.queries.map fun q => q.name ++ "=" ++ q.sql))

/-- A codec for small runs: the digest of a text is the text. -/
def plainCodec : Codec where
  planDigest := id
  sha256 := fun s => "sha256:" ++ s
  encodeJSON := plainText
  jsonbText := plainText
  contentHash := fun content => ",".intercalate (content.decls.map fun d => d.entity.id)
  script := fun stmts => "-- atlantis migration, statements: " ++ toString stmts.length
  casing := asciiCasing
  parseSQL := fun _ => .error "syntax error"

def noteField : Field := { name := "note", type := .simple "text" }

/-- An entity with the given fields. -/
def shopEntity (name : String) (fields : List Field) : Entity := { name, namespace_ := "shop", fields }

def itemDecl : EntityDecl := { entity := shopEntity "Item" [idField], declared := by decide +kernel }

def notedItemDecl : EntityDecl := { entity := shopEntity "Item" [idField, noteField], declared := by decide +kernel }

def orderDecl : EntityDecl := { entity := shopEntity "Order" [idField], declared := by decide +kernel }

/-- `plainCodec`, with a parser that knows one text. -/
def itemCodec : Codec :=
  { plainCodec with
    parseSQL := fun sql =>
      if sql = "SELECT id FROM shop_item" then
        .ok [.selectStmt [] false [.resTarget [.other "*pg_query.Node_ColumnRef" []] []]
          [.rangeVar ⟨"", "shop_item"⟩] [] [] [] [] [] none]
      else .error "syntax error" }

/-- A query of all items, with the name of the entity written as in `touched`. -/
def itemQuery (touched : EntityRef) (pos : String) : CustomDecl :=
  .query {
    name := "Items"
    target := { namespace_ := "shop", name := "Item" }
    output := some (.columns [⟨"id", .simple "bigint", none, pos⟩])
    sql := some { raw := "SELECT id FROM shop_item", touches := [touched] }
    pos }

/-- A file with the item, its query and a job. -/
def itemsFile (touched : EntityRef) (pos : String) : SubmittedFile :=
  ⟨"items.atl", .ok { decls := [itemDecl], customs :=
    [itemQuery touched pos, .job { name := "Sweep", namespace_ := "shop" } [] pos] }⟩

def ordersFile : SubmittedFile := ⟨"orders.atl", .ok { decls := [orderDecl] }⟩

/-- The two scripts and the fields of a phase split, as `PlanSchema` answers them. -/
structure PhaseTexts where
  preBackfillUpSQL : String
  postBackfillUpSQL : String
  backfillFields : List BackfillField
  deriving DecidableEq

/-- Without a split the texts are empty. -/
def phaseTexts (C : Codec) : Option PhaseSplit → PhaseTexts
  | none => ⟨"", "", []⟩
  | some s => ⟨C.script s.preBackfillUp, C.script s.postBackfillUp, s.backfillFields⟩

/-- What `EmitSQL` yields for the diff of the checkpoint and the lowered files. -/
def plannedSplit (ord : RangeOrder) (db : Database) (caller : String) (st : Staged) : Option PhaseSplit :=
  (EmitSQL ord (priorIR db.checkpoint) (numbered db.checkpoint st.lowered).toIR
    (planDiff ord db.checkpoint caller st.parsed st.others st.lowered)).split

/-- **Only planned SQL runs**: the script that ran in phase 1, and the script and fields stored with the plan, are
    those of `EmitSQL` (for some order in which it visited maps). -/
def RunsPlannedSQL (C : Codec) (db : Database) (req : BeginRequest) (executed : String) (db' : Database) : Prop :=
  ∃ ord st plan, stage "begin-backfill" db req.caller req.files = .ok st ∧ db'.plans = db.plans ++ [plan] ∧
    phaseTexts C (plannedSplit ord db req.caller st) = ⟨executed, plan.postSQL, plan.fields.map FieldState.ref⟩

/-- The request hands back what `PlanSchema` answers for its files. -/
def HandsBackPlan (C : Codec) (db : Database) (req : BeginRequest) : Prop :=
  ∃ ord plan, PlanSchema C ord db req.caller req.files = .ok plan ∧
    phaseTexts C plan.scripts.split = ⟨req.preBackfillUpSQL, req.postBackfillUpSQL, req.backfillFields⟩

/-- A first migration has nothing to fill: all its changes add entities. -/
theorem plannedSplit_initial {st : Staged} (hcp : db.checkpoint = none) : plannedSplit ord db caller st = none := by
  have hnot : ∀ ctx newIR, ∀ ch ∈ allChanges ctx ord ⟨[]⟩ newIR, ¬ isBackfilledFieldInDiff newIR ch = true := by
    intro ctx newIR ch hch
    obtain ⟨id, _, hch⟩ := List.mem_flatMap.mp hch
    unfold diffID at hch
    rw [show entityByID ⟨[]⟩ id = none from rfl] at hch
    cases hnew : entityByID newIR id with
    | none =>
      rw [hnew] at hch
      cases hch
    | some e =>
      rw [hnew] at hch
      rw [List.mem_singleton.mp hch]
      exact Bool.false_ne_true
  unfold plannedSplit planDiff
  rw [hcp]
  show (if needsPhaseSplit _ (ComputeDiff _ ord ⟨[]⟩ _) then _ else none) = none
  refine if_neg (Bool.not_eq_true _ ▸ ?_)
  unfold needsPhaseSplit ComputeDiff
  rw [Bool.or_eq_false_iff, List.any_eq_false, List.any_eq_false]
  exact ⟨fun ch hch => hnot _ _ ch (List.mem_filter.mp hch).1, fun ch hch => hnot _ _ ch (List.mem_filter.mp hch).1⟩

/-- The split a plan shows is the one of `EmitSQL`; a first migration has none on either side. -/
theorem split_plannedScripts {st : Staged} {scripts : SQLScripts}
    (h : plannedScripts ord db.checkpoint caller st.parsed st.others st.lowered = .ok scripts) :
    scripts.split = plannedSplit ord db caller st := by
  cases hcp : db.checkpoint with
  | some old =>
    unfold plannedSplit
    rw [hcp] at h ⊢
    cases h
    rfl
  | none =>
    rw [hcp] at h
    obtain ⟨up, _, h⟩ := bind_ok h
    obtain ⟨order, _, h⟩ := bind_ok h
    cases h
    exact (plannedSplit_initial hcp).symm

/-- **Backfill requests run planned SQL exactly when they hand back the plan.** -/
theorem runsPlannedSQL_iff {C : Codec} {host : Host} {db db' : Database} {req : BeginRequest} {executed : String}
    (h : BeginBackfillPlan C host db req = .ok (.accepted executed db')) :
    RunsPlannedSQL C db req executed db' ↔ HandsBackPlan C db req := by
  obtain ⟨st, v, hcaller, hfields, _, hst, _, rfl, _, rfl⟩ := BeginBackfillPlan_accepted h
  obtain ⟨_, hparsed, hothers, hlower⟩ := stage_ok hst
  have hrefs : (planOf C db req).fields.map FieldState.ref = req.backfillFields := by
    unfold planOf
    rw [List.map_map]
    exact List.map_id _
  constructor
  · rintro ⟨ord, st', plan, hst', hplans, htexts⟩
    cases hst.symm.trans hst'
    obtain rfl : planOf C db req = plan := List.singleton_inj.mp (List.append_cancel_left hplans)
    rw [hrefs] at htexts
    cases hcp : db.checkpoint with
    | some old =>
      have hscripts : ∃ scripts, plannedScripts ord db.checkpoint req.caller st.parsed st.others st.lowered
          = .ok scripts := by
        rw [hcp]
        exact ⟨_, rfl⟩
      obtain ⟨scripts, hscripts⟩ := hscripts
      obtain ⟨plan, hplan, rfl⟩ := (PlanSchema_scripts_iff hcaller hparsed hothers hlower).mpr hscripts
      refine ⟨ord, plan, hplan, Eq.trans ?_ htexts⟩
      rw [split_plannedScripts hscripts]
    | none =>
      -- no fields are planned, but the request has some
      rw [plannedSplit_initial hcp] at htexts
      exact absurd (congrArg PhaseTexts.backfillFields htexts).symm hfields
  · rintro ⟨ord, plan, hplan, htexts⟩
    refine ⟨ord, st, planOf C db req, hst, rfl, ?_⟩
    rw [hrefs]
    refine Eq.trans ?_ htexts
    rw [split_plannedScripts ((PlanSchema_scripts_iff hcaller hparsed hothers hlower).mp ⟨plan, hplan, rfl⟩)]

/-! ### A request that runs something else -/

/-- `note` filled with the empty text. -/
def filledNoteField : Field := { noteField with notNull := true, backfill := "''" }

def filledItemDecl : EntityDecl := { entity := shopEntity "Item" [idField, filledNoteField], declared := by decide +kernel }

/-- A database to which `itemDecl` has been applied. -/
def itemApplied : Database where
  registrations := [⟨"shop", "shop.atl", .ok { decls := [itemDecl] }⟩]
  checkpoint := some (numbered none { entities := [itemDecl.entity] })

/-- What `PlanSchema` answers for `filledItemDecl` on it. -/
def filledTexts : PhaseTexts where
  preBackfillUpSQL := "-- atlantis migration, statements: 1"
  postBackfillUpSQL := "-- atlantis migration, statements: 1"
  backfillFields := [⟨"shop.Item", "note", "''", "id", "\"atlantis\".\"shop_item\""⟩]

def filledPlanID : String := "shop\x00shop:shop.atl\x00shop.Item:id"

/-- A request to fill the notes that brings its own script for phase 1. -/
def fillRequest (pre : String) : BeginRequest where
  caller := "shop"
  planID := filledPlanID
  files := [⟨"shop.atl", .ok { decls := [filledItemDecl] }⟩]
  preBackfillUpSQL := pre
  postBackfillUpSQL := filledTexts.postBackfillUpSQL
  backfillFields := filledTexts.backfillFields

/-- **A request under a valid plan ID runs a script of its own.** -/
theorem begin_runs_foreign_script :
    ∃ db', BeginBackfillPlan plainCodec {} itemApplied (fillRequest "DROP TABLE atlantis.shop_item")
        = .ok (.accepted "DROP TABLE atlantis.shop_item" db') ∧
      ¬ RunsPlannedSQL plainCodec itemApplied (fillRequest "DROP TABLE atlantis.shop_item")
        "DROP TABLE atlantis.shop_item" db' := by
  obtain ⟨executed, db', hrun⟩ := exists_accepted (show accepts plainCodec {} itemApplied
    (fillRequest "DROP TABLE atlantis.shop_item") = true by decide +kernel)
  obtain ⟨_, _, _, _, _, _, _, rfl, _⟩ := BeginBackfillPlan_accepted hrun
  refine ⟨db', hrun, ?_⟩
  rintro ⟨ord, st, plan, _, _, htexts⟩
  have hhead := congrArg (fun t => t.preBackfillUpSQL.toList.head?) htexts
  cases hsplit : plannedSplit ord itemApplied (fillRequest "DROP TABLE atlantis.shop_item").caller st <;>
    simp [hsplit, phaseTexts, plainCodec] at hhead

/-- The request that hands back the plan runs planned SQL. -/
theorem runsPlannedSQL_iff_filled :
    ∃ executed db', BeginBackfillPlan plainCodec {} itemApplied (fillRequest filledTexts.preBackfillUpSQL)
        = .ok (.accepted executed db') ∧
      RunsPlannedSQL plainCodec itemApplied (fillRequest filledTexts.preBackfillUpSQL) executed db' := by
  obtain ⟨executed, db', hrun⟩ := exists_accepted (show accepts plainCodec {} itemApplied
    (fillRequest filledTexts.preBackfillUpSQL) = true by decide +kernel)
  refine ⟨executed, db', hrun, (runsPlannedSQL_iff hrun).mpr ?_⟩
  obtain ⟨plan, hplan, htexts⟩ :
      ∃ plan, PlanSchema plainCodec insertionOrder itemApplied "shop" [⟨"shop.atl", .ok { decls := [filledItemDecl] }⟩] = .ok plan ∧
        phaseTexts plainCodec plan.scripts.split = filledTexts := by
    decide +kernel
  exact ⟨insertionOrder, plan, hplan, htexts⟩

end Atlantis.Admin
