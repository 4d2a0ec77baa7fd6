import Atlantis.Codegen.PhaseSplit
import Atlantis.Custom.Lower
import Atlantis.Introspect.Postgres
import Atlantis.Lib.Fold
import Atlantis.Proto.Runtime
import Atlantis.RawSql.Validate

/-!
# `Admin.Service` — planning, applying, rolling back, adopting

`internal/server/admin`: the calls that read and write the schema the server runs on. Its tables are the files
every caller has registered, the checkpoint (the schema last applied), the history of versions and the history of
adoptions; `Database` holds them, together with the plans of `Admin.Backfill`. A call runs in one transaction under
one advisory lock, so it is a function on the database that returns the database it commits, or an error and then
commits nothing.

The text of a file is given by what `dsl.Parse` makes of it. What the call asks of its surroundings is in `Host`:
who is calling, whether a script runs, which extensions and indexes are there, what the live tables look like.
`Codec` has the library functions whose results are only compared and stored (digests, JSON, the text of a script), and
those the check of raw SQL calls.
-/

namespace Atlantis.Admin

open Schema Codegen Proto Pg Custom

/-! ## Files and tables -/

/-- What a file declares. -/
structure Content where
  decls : List EntityDecl
  customs : List CustomDecl := []
  deriving DecidableEq

/-- A file's content, as `dsl.Parse` reads it. -/
abbrev Source := Except String Content

/-- `SubmittedFile`. -/
structure SubmittedFile where
  path : String
  content : Source
  deriving DecidableEq

/-- A row of `caller_registrations`. -/
structure Registration where
  caller : String
  path : String
  content : Source
  deriving DecidableEq

/-- A row of `schema_versions`. -/
structure SchemaVersion where
  version : Nat
  caller : String
  eventType : String
  planID : String := ""
  snapshot : FullIR
  deriving DecidableEq

/-- The status of a row of `backfill_plan`. -/
inductive PlanStatus where
  | phase2Running | phase3Running | complete | failed
  deriving DecidableEq, Repr

/-- The status of a row of `backfill_field_state`. -/
inductive FieldStatus where
  | pending | running | complete | failed
  deriving DecidableEq, Repr

/-- A row of `backfill_field_state`. -/
structure FieldState where
  ref : BackfillField
  status : FieldStatus := .pending
  deriving DecidableEq, Repr

/-- A row of `backfill_plan` with the rows of its fields. -/
structure BackfillPlan where
  planHash : String
  caller : String
  status : PlanStatus := .phase2Running
  postSQL : String
  postIndexesSQL : String := ""
  irCheckpointHash : String
  errorMsg : String := ""
  fields : List FieldState
  deriving DecidableEq, Repr

/-- The tables of the `atlantis` schema that the admin calls and the backfill worker use. -/
structure Database where
  registrations : List Registration := []
  checkpoint : Option FullIR := none
  versions : List SchemaVersion := []
  adoptions : List (String × String) := []
  plans : List BackfillPlan := []
  deriving DecidableEq

/-! ## Surroundings -/

/-- Digests and encodings. -/
structure Codec where
  /-- The first 16 bytes of a SHA-256, in hex. -/
  planDigest : String → String
  /-- SHA-256, in hex. -/
  sha256 : String → String
  /-- `(*IR).EncodeJSON`. -/
  encodeJSON : FullIR → String
  /-- What `ir::text` prints for a stored schema. -/
  jsonbText : FullIR → String
  /-- SHA-256 of a file's content. -/
  contentHash : Source → String
  /-- The text of a script. -/
  script : List Stmt → String
  casing : Casing
  /-- `pg_query.Parse`. -/
  parseSQL : String → Except String (List RawSql.Node)

/-- What a call meets outside its tables. -/
structure Host where
  /-- `authorizeSelfApply` or `authorizeOperator`, on the identity of the connection. -/
  authorize : Except String Unit := .ok ()
  backfillEnabled : Bool := true
  /-- The answer of `hasInflightBackfill`'s query, `false` if it could not be run. -/
  inflightAnswers : Bool := true
  prepareExtensions : IR → Except String Unit := fun _ => .ok ()
  indexDrift : IR → Except String Unit := fun _ => .ok ()
  /-- Running a script in the transaction. -/
  execute : String → Except String Unit := fun _ => .ok ()
  /-- `introspect.FromPostgres`, on the live tables. -/
  fromPostgres : IR → Except String Introspect.Introspected := fun _ => .ok ⟨⟨[]⟩, [], []⟩

/-- Refuse a call. -/
def require (cond : Bool) (msg : String) : Except String Unit := if cond then .ok () else .error msg

variable {caller : String} {files : List SubmittedFile} {regs regs' : List Registration} {keep : Registration → Bool}

@[simp] theorem require_eq_ok {cond : Bool} {msg : String} {u : Unit} : require cond msg = .ok u ↔ cond = true := by
  unfold require
  split <;> simp_all

/-! ## Reading and writing files -/

/-- The file `dsl.Parse` returns for the content registered under a caller and path. -/
def parseFile (caller path : String) (content : Source) : Except String File :=
  content.map fun c => ⟨caller ++ ":" ++ path, c.decls, c.customs⟩

/-- `parseSubmitted`, as its callers use it: the files, or all errors. -/
def parseSubmitted (caller : String) (files : List SubmittedFile) : Except (List String) (List File) :=
  let parsed := files.map fun f => (parseFile caller f.path f.content).mapError fun err => f.path ++ ": " ++ err
  match parsed.filterMap fun | .error err => some err | .ok _ => none with
  | [] => .ok (parsed.filterMap Except.toOption)
  | errs => .error errs

/-- `ORDER BY caller, file_path`. -/
def Registration.le (a b : Registration) : Prop := a.caller < b.caller ∨ (a.caller = b.caller ∧ a.path ≤ b.path)

instance : DecidableRel Registration.le := fun a b => inferInstanceAs (Decidable (a.caller < b.caller ∨ _))

/-- The files of the registrations that `keep` selects, in the order of the query: `loadOtherCallers`,
    `loadOtherCallersTx` and `loadOtherCallersExcluding`. -/
def loadRegistered (regs : List Registration) (keep : Registration → Bool) : Except String (List File) :=
  ((regs.filter keep).insertionSort Registration.le).mapM fun r =>
    (parseFile r.caller r.path r.content).mapError fun err =>
      "caller " ++ r.caller ++ ": stored file " ++ r.path ++ " no longer parses: " ++ err

/-- `loadOtherCallers`. -/
def loadOtherCallers (regs : List Registration) (exclude : String) : Except String (List File) :=
  loadRegistered regs fun r => r.caller ≠ exclude

/-- One `INSERT` of `upsertCallerFiles`; caller and path are the key of the table. -/
def insertRegistration (caller : String) (regs : List Registration) (f : SubmittedFile) :
    Except String (List Registration) :=
  if regs.any fun r => r.caller = caller ∧ r.path = f.path then .error ("upsert: insert " ++ f.path)
  else .ok (regs ++ [⟨caller, f.path, f.content⟩])

/-- `upsertCallerFiles`. -/
def upsertCallerFiles (regs : List Registration) (caller : String) (files : List SubmittedFile) :
    Except String (List Registration) :=
  files.foldlM (insertRegistration caller) (regs.filter (·.caller ≠ caller))

/-! ## Checkpoints -/

variable (C : Codec)

/-- `loadCheckpointHash`: the content hash, empty without a checkpoint. -/
def loadCheckpointHash (db : Database) : String :=
  match db.checkpoint with
  | none => ""
  | some ir => C.sha256 (C.encodeJSON ir)

/-- `versionMeta`, as far as it is stored or checked. -/
structure VersionMeta where
  caller : String
  eventType : String
  planID : String := ""
  expectedHash : String := ""

/-- `persistCheckpoint`. -/
def persistCheckpoint (db : Database) (ir : FullIR) (info : VersionMeta) : Except String Database := do
  let got := loadCheckpointHash C db
  require (info.expectedHash = "" || got = "" || got = info.expectedHash)
    ("admin: checkpoint has moved (expected " ++ info.expectedHash ++ ", got " ++ got ++ ") — re-plan and retry")
  let version := (db.versions.map SchemaVersion.version).foldl max 0 + 1
  pure { db with
    checkpoint := some ir
    versions := db.versions ++ [⟨version, info.caller, info.eventType, info.planID, ir⟩] }

/-- `computePlanID`: a digest of the caller, the paths of its files, and the checkpoint. -/
def computePlanID (caller : String) (files : List File) (prior : Option FullIR) : String :=
  C.planDigest (caller ++ "\x00" ++ String.join ((sortStrings (files.map File.path)).map (· ++ "\x00"))
    ++ (match prior with
        | some ir => C.encodeJSON ir
        | none => ""))

/-! ## Classifying removals -/

/-- The text before the first colon. -/
def callerOfPath (path : String) : String := String.ofList (path.toList.takeWhile (· ≠ ':'))

/-- `buildEntityOwnership`: later files overwrite earlier ones. -/
def buildEntityOwnership (caller : String) (callerFiles otherFiles : List File) (id : String) : Option String :=
  let own := callerFiles.flatMap fun f => f.decls.map fun d => (d.entity.id, caller)
  let others := otherFiles.flatMap fun f => f.decls.map fun d => (d.entity.id, callerOfPath f.path)
  (lastWith Prod.fst id (own ++ others)).map Prod.snd

/-- `scanDeclTouches`: the names that are written with a namespace. -/
def scanDeclTouches (d : CustomDecl) : List String :=
  d.refs.filterMap fun r => if r.namespace_ ≠ "" then some (r.namespace_ ++ "." ++ r.name) else none

/-- `buildCrossCallerRefs`. -/
def buildCrossCallerRefs (otherFiles : List File) (key : String) : Bool :=
  ((otherFiles.flatMap File.decls).any fun d => d.entity.fields.any fun f =>
      f.ref.any fun r => key = r.targetID || key = r.targetID ++ "." ++ r.targetField) ||
    (otherFiles.flatMap File.customs).any fun d => (scanDeclTouches d).contains key

/-- `codegen.WithCallerContext`. -/
def callerContext (caller : String) (callerFiles otherFiles : List File) : DiffCtx where
  submittingCaller := caller
  entityOwnership := buildEntityOwnership caller callerFiles otherFiles
  crossCallerRefs := buildCrossCallerRefs otherFiles

/-! ## Planning -/

/-- The entities of a checkpoint; a schema that is not there yet is empty. -/
def priorIR (prior : Option FullIR) : IR := (prior.map FullIR.toIR).getD ⟨[]⟩

/-- `AssignProtoNumbers`, which numbers entities only. -/
def numbered (prior : Option FullIR) (lowered : FullIR) : FullIR :=
  { lowered with toIR := AssignProtoNumbers (priorIR prior) lowered.toIR }

/-- The migration from a checkpoint. Changes to queries and procedures emit comments only. -/
def emitScripts (ord : RangeOrder) (prior : Option FullIR) (newIR : IR) (d : Diff) : Except String SQLScripts :=
  match prior with
  | none => EmitInitial newIR
  | some old => .ok (EmitSQL ord old.toIR newIR d)

/-- `(*Diff).HighestClass`. -/
def highestClass (d : Diff) : ChangeClass :=
  if d.breaking ≠ [] then .crossCallerBreaking
  else if d.backfillRequired ≠ [] then .backfillRequired
  else .additive

/-- `validateCustomSQL`: the queries and procedures of the caller, known by the start of their paths. -/
def validateCustomSQL (ir : FullIR) (caller : String) : List String :=
  let own := fun (path : String) => (caller ++ ":").toList.isPrefixOf path.toList
  ((ir.customs.queries.filter (own ·.sourcePath)).map (RawSql.ValidateCustomQuery C.casing C.parseSQL ir.toIR) ++
    (ir.customs.procedures.filter (own ·.sourcePath)).map (RawSql.ValidateCustomProcedure C.casing C.parseSQL ir.toIR)).filterMap
      fun errs => if errs = [] then none else some ("\n".intercalate errs)

/-- The diff of a plan: from the checkpoint to what the files of the caller and of the others lower to. -/
def planDiff (ord : RangeOrder) (prior : Option FullIR) (caller : String) (own others : List File) (lowered : FullIR) : Diff :=
  ComputeDiff (callerContext caller own others) ord (priorIR prior) (numbered prior lowered).toIR

/-- `PlanResponse`, as far as it is modelled. A plan without a class is unclean. -/
structure PlanResponse where
  planID : String := ""
  cls : Option ChangeClass := none
  scripts : SQLScripts := { up := [], down := [] }
  parseErrors : List String := []
  checkpointHash : String := ""
  customSQLErrors : List String := []

/-- **`PlanSchema`.** -/
def PlanSchema (ord : RangeOrder) (db : Database) (caller : String) (files : List SubmittedFile) :
    Except String PlanResponse := do
  require (caller ≠ "") "admin: caller identity is required"
  match parseSubmitted caller files with
  | .error errs => pure { parseErrors := errs }
  | .ok callerFiles => do
      let others ← (loadOtherCallers db.registrations caller).mapError ("load other callers: " ++ ·)
      match LowerAll (callerFiles ++ others) with
      | .error errs => pure { parseErrors := ["\n".intercalate errs] }
      | .ok lowered => do
          let newIR := numbered db.checkpoint lowered
          let d := planDiff ord db.checkpoint caller callerFiles others lowered
          let customSQLErrors := validateCustomSQL C newIR caller
          let scripts ← (emitScripts ord db.checkpoint newIR.toIR d).mapError ("emit sql: " ++ ·)
          pure {
            planID := computePlanID C caller callerFiles db.checkpoint
            cls := if customSQLErrors = [] then some (highestClass d) else none
            scripts
            checkpointHash := loadCheckpointHash C db
            customSQLErrors }

/-! ## Applying -/

/-- `ApplyRequest`. -/
structure ApplyRequest where
  caller : String
  planID : String
  files : List SubmittedFile
  checkpointHash : String := ""
  deriving DecidableEq

/-- A committed migration: the script that ran and the database after it. -/
structure Applied where
  executed : List Stmt
  db : Database

/-- `hasInflightBackfill`. -/
def hasInflightBackfill (db : Database) (caller : String) : Bool :=
  db.plans.any fun p => p.caller = caller ∧ (p.status = .phase2Running ∨ p.status = .phase3Running)

/-- The checks of `ApplyMigration` before its transaction. A query for plans in flight that fails counts as
    no plan. -/
def applyCheck (host : Host) (db : Database) (req : ApplyRequest) : Except String Unit := do
  require (req.caller ≠ "") "admin: caller identity is required"
  host.authorize
  require (req.planID ≠ "") "admin: plan_id is required"
  require (!(host.inflightAnswers && hasInflightBackfill db req.caller))
    "admin: a backfill is in flight for this caller — wait for it to complete (or fail) before applying"

/-- The files of a submission and of the other callers, and what they lower to, in a transaction that has
    already stored the submission. -/
structure Staged where
  registrations : List Registration
  parsed : List File
  others : List File
  lowered : FullIR

/-- Store, parse, load and lower: the common start of `ApplyMigration` and `BeginBackfillPlan`. -/
def stage (during : String) (db : Database) (caller : String) (files : List SubmittedFile) : Except String Staged := do
  let registrations ← upsertCallerFiles db.registrations caller files
  let parsed ← (parseSubmitted caller files).mapError fun errs =>
    "admin: parse failed during " ++ during ++ ": " ++ "\n".intercalate errs
  let others ← loadOtherCallers registrations caller
  let lowered ← (LowerAll (parsed ++ others)).mapError fun errs =>
    "admin: lower failed during " ++ during ++ ": " ++ "\n".intercalate errs
  pure ⟨registrations, parsed, others, lowered⟩

/-- The transaction of `ApplyMigration`. -/
def applyTx (ord : RangeOrder) (host : Host) (db : Database) (req : ApplyRequest) : Except String Applied := do
  let st ← stage "apply" db req.caller req.files
  let newIR := numbered db.checkpoint st.lowered
  let d := planDiff ord db.checkpoint req.caller st.parsed st.others st.lowered
  let msgs := validateCustomSQL C newIR req.caller
  require (msgs = []) ("admin: custom SQL validation failed: [" ++ " ".intercalate msgs ++ "]")
  let gotPlanID := computePlanID C req.caller st.parsed db.checkpoint
  require (gotPlanID = req.planID)
    ("admin: plan " ++ req.planID ++ " is stale; current plan is " ++ gotPlanID ++ " — re-run tide apply")
  require (highestClass d ≠ .crossCallerBreaking) "admin: plan is breaking and cannot be auto-applied"
  let scripts ← (emitScripts ord db.checkpoint newIR.toIR d).mapError ("emit sql: " ++ ·)
  host.prepareExtensions newIR.toIR
  host.indexDrift newIR.toIR
  (host.execute (C.script scripts.up)).mapError ("apply: " ++ ·)
  let expectedHash := if req.checkpointHash ≠ "" then req.checkpointHash else loadCheckpointHash C db
  let db' ← persistCheckpoint C { db with registrations := st.registrations } newIR
    { caller := req.caller, eventType := "apply", planID := gotPlanID, expectedHash }
  pure ⟨scripts.up, db'⟩

/-- **`ApplyMigration`**, when nothing happens between its check and its transaction. -/
def ApplyMigration (ord : RangeOrder) (host : Host) (db : Database) (req : ApplyRequest) : Except String Applied := do
  applyCheck host db req
  applyTx C ord host db req

/-! ## Rolling back -/

/-- **`RollbackSchema`.** -/
def RollbackSchema (ord : RangeOrder) (host : Host) (db : Database) (caller : String) (toVersion : Nat) :
    Except String Applied := do
  host.authorize
  require (toVersion > 0) "admin: to_version must be a positive integer"
  require (caller ≠ "") "admin: caller identity is required"
  match db.versions.find? (·.version = toVersion), db.checkpoint with
  | none, _ => throw ("admin: schema version " ++ toString toVersion ++ " not found")
  | some _, none => throw "admin: no current checkpoint to rollback from"
  | some target, some currentIR => do
      let targetIR := numbered (some currentIR) target.snapshot
      let d := ComputeDiff {} ord currentIR.toIR targetIR.toIR
      let scripts := EmitSQL ord currentIR.toIR targetIR.toIR d
      (host.execute (C.script scripts.up)).mapError ("rollback apply: " ++ ·)
      let db' ← persistCheckpoint C db targetIR
        { caller, eventType := "rollback", expectedHash := loadCheckpointHash C db }
      pure ⟨scripts.up, db'⟩

/-! ## Adopting -/

/-- `CallerSubmission`. -/
structure CallerSubmission where
  caller : String
  files : List SubmittedFile
  deriving DecidableEq

/-- The severities of a drift item. -/
inductive Severity where
  | addition | removal | mismatch
  deriving DecidableEq, Repr

/-- `classifyDriftSeverity`. -/
def classifyDriftSeverity : ChangeKind → Severity
  | .entityAdded | .fieldAdded | .fieldReferenceAdded | .fieldUniqueAdded | .fieldSerialAdded
  | .fieldBackfillAdded => .addition
  | .entityRemoved | .fieldRemoved | .fieldReferenceRemoved | .fieldUniqueRemoved | .fieldSerialRemoved
  | .fieldBackfillRemoved => .removal
  | _ => .mismatch

/-- What a drift item is about. -/
inductive DriftChange where
  | entity (ch : Change)
  | custom (ch : CustomChange)
  deriving DecidableEq, Repr

/-- `translateDrift`: changes to queries and procedures are in the additive class, and of no kind that
    `classifyDriftSeverity` knows. -/
def translateDrift (d : Diff) (customs : List CustomChange) : List (DriftChange × Severity) :=
  let items := fun (l : List Change) => l.map fun ch => (DriftChange.entity ch, classifyDriftSeverity ch.kind)
  items d.additive ++ customs.map (fun ch => (.custom ch, .mismatch)) ++ items d.backfillRequired ++ items d.breaking

/-- `filterToExistingEntities`: it keeps queries and procedures, and drops jobs, workflows and ephemerals. -/
def filterToExistingEntities (ir : FullIR) (existing : List String) : FullIR where
  entities := ir.entities.filter fun e => existing.contains e.id
  customs := { queries := ir.customs.queries, procedures := ir.customs.procedures }

/-- What becomes of the declared schema, with the checkpoint where one is written. -/
structure Adopted where
  drift : List (DriftChange × Severity)
  warnings : List String
  checkpoint : Option FullIR

/-- `AdoptBaseline`, from the declared schema to the checkpoint. -/
def adoptDeclared (ord : RangeOrder) (fromPostgres : IR → Except String Introspect.Introspected) (declared : FullIR)
    (allowDrift : Bool) : Except String Adopted := do
  let seen ← (fromPostgres declared.toIR).mapError ("introspect: " ++ ·)
  let declaredIR : FullIR := { declared with toIR := AssignProtoNumbers seen.ir declared.toIR }
  -- the introspected schema has the declared queries and procedures
  let introspected : Customs := { queries := declared.customs.queries, procedures := declared.customs.procedures }
  let drift := translateDrift (ComputeDiff {} ord seen.ir declaredIR.toIR)
    (diffCustomDecls ord introspected declaredIR.customs)
  pure {
    drift
    warnings := seen.warnings
    checkpoint :=
      if drift.any (·.2 = .mismatch) && !allowDrift then none else some (filterToExistingEntities declaredIR seen.existing) }

/-- `hashFiles`. -/
def hashFiles (files : List SubmittedFile) : String :=
  C.sha256 (String.join (((files.map fun f => (f.path, C.contentHash f.content)).insertionSort
    fun a b => a.1 ≤ b.1).map fun t => t.1 ++ "\x00" ++ t.2 ++ "\x00"))

/-- `lastAdoptHash`, of what was committed last. -/
def lastAdoptHash (db : Database) (caller : String) : Option String :=
  (lastWith Prod.fst caller db.adoptions).map Prod.snd

/-- What `AdoptBaseline` answers, and the database where it commits. -/
inductive AdoptOutcome where
  | alreadyAdopted
  | blocked (drift : List (DriftChange × Severity))
  | written (drift : List (DriftChange × Severity)) (db : Database)

/-- **`AdoptBaseline`**, for a list of submissions. -/
def AdoptBaseline (ord : RangeOrder) (host : Host) (db : Database) (subs : List CallerSubmission) (allowDrift : Bool) :
    Except String AdoptOutcome := do
  host.authorize
  require (subs ≠ []) "admin: at least one CallerSubmission is required"
  require (subs.all fun s => s.caller ≠ "") "admin: submission: caller is required"
  require (subs.all fun s => s.files ≠ []) "admin: submission: at least one .atl file is required"
  if subs.all fun s => lastAdoptHash db s.caller = some (hashFiles C s.files) then pure .alreadyAdopted
  else do
    let parsed ← subs.mapM fun s => (parseSubmitted s.caller s.files).mapError fun errs =>
      "admin: parse failed for " ++ s.caller ++ ": " ++ "\n".intercalate errs
    let others ← loadRegistered db.registrations fun r => subs.all (·.caller ≠ r.caller)
    let lowered ← (LowerAll (parsed.flatten ++ others)).mapError fun errs =>
      "admin: lower failed: " ++ "\n".intercalate errs
    let adopted ← adoptDeclared ord host.fromPostgres lowered allowDrift
    match adopted.checkpoint with
    | none => pure (.blocked adopted.drift)
    | some baseline => do
        let registrations ← subs.foldlM (fun regs s => upsertCallerFiles regs s.caller s.files) db.registrations
        let adoptions := db.adoptions ++ subs.map fun s => (s.caller, hashFiles C s.files)
        let db' ← persistCheckpoint C { db with registrations, adoptions } baseline
          { caller := "adopt", eventType := "adopt", expectedHash := loadCheckpointHash C db }
        pure (.written adopted.drift db')

/-! ## What a call did

One lemma for each function says what follows from its success; later modules use these and never unfold a call. -/

open Lib

/-- The entities in a file's content. -/
def Source.decls (content : Source) : List EntityDecl := (content.toOption.map Content.decls).getD []

/-- Its other declarations. -/
def Source.customs (content : Source) : List CustomDecl := (content.toOption.map Content.customs).getD []

theorem parseFile_iff {ε : Type} {path : String} {content : Source} {f : File} {wrap : String → ε} :
    (parseFile caller path content).mapError wrap = .ok f ↔
      content.isOk = true ∧ f = ⟨caller ++ ":" ++ path, content.decls, content.customs⟩ := by
  cases content with
  | error err => exact iff_of_false nofun nofun
  | ok c => exact ⟨fun h => ⟨rfl, (Except.ok.inj h).symm⟩, fun h => congrArg Except.ok h.2.symm⟩

/-- Files that parse, and what `parseSubmitted` makes of them. -/
theorem parseSubmitted_iff {parsed : List File} : parseSubmitted caller files = .ok parsed ↔
    (∀ f ∈ files, f.content.isOk = true) ∧
      parsed = files.map fun f => ⟨caller ++ ":" ++ f.path, f.content.decls, f.content.customs⟩ := by
  unfold parseSubmitted
  simp only
  split
  · rename_i hnone
    have hok : ∀ f ∈ files, f.content.isOk = true := by
      intro f hf
      cases hc : f.content with
      | ok decls => rfl
      | error err =>
        have := List.filterMap_eq_nil_iff.mp hnone _ (List.mem_map_of_mem hf)
        rw [hc] at this
        cases this
    rw [and_iff_right hok, Except.ok.injEq, eq_comm, List.filterMap_map, ← List.filterMap_eq_map]
    refine Eq.congr_right (List.filterMap_congr fun f hf => ?_)
    obtain ⟨decls, hdecls⟩ := exists_ok (hok f hf)
    simp only [Function.comp_apply, hdecls]
    rfl
  · rename_i errs hsome
    refine iff_of_false nofun fun h => hsome (List.filterMap_eq_nil_iff.mpr ?_)
    intro x hx
    obtain ⟨f, hf, rfl⟩ := List.mem_map.mp hx
    rw [parseFile_iff.mpr ⟨h.1 f hf, rfl⟩]

theorem loadRegistered_iff {files : List File} : loadRegistered regs keep = .ok files ↔
    (∀ r ∈ regs.filter keep, r.content.isOk = true) ∧
      files = ((regs.filter keep).insertionSort Registration.le).map fun r =>
        ⟨r.caller ++ ":" ++ r.path, r.content.decls, r.content.customs⟩ := by
  rw [loadRegistered, mapM_eq_ok_iff fun r f => parseFile_iff]
  simp only [List.mem_insertionSort]

/-- The file of a registration. -/
def Registration.file (r : Registration) : File := ⟨r.caller ++ ":" ++ r.path, r.content.decls, r.content.customs⟩

/-- What `loadRegistered` returns are the files of the selected registrations. -/
theorem loadRegistered_ok {files : List File} (h : loadRegistered regs keep = .ok files) :
    files.Perm ((regs.filter keep).map Registration.file) := by
  rw [(loadRegistered_iff.mp h).2]
  exact (List.perm_insertionSort _ _).map _

/-- The rows a submission is stored as. -/
def registrationsOf (caller : String) (files : List SubmittedFile) : List Registration :=
  files.map fun f => ⟨caller, f.path, f.content⟩

theorem upsertCallerFiles_ok (h : upsertCallerFiles regs caller files = .ok regs') :
    regs' = regs.filter (·.caller ≠ caller) ++ registrationsOf caller files := by
  refine foldlM_invariant (I := fun pre rows => rows = regs.filter (·.caller ≠ caller) ++ registrationsOf caller pre)
    (List.append_nil _).symm ?_ h
  intro pre f rest rows rows' _ hrows hstep
  unfold insertRegistration at hstep
  split at hstep
  · cases hstep
  · rw [← Except.ok.inj hstep, hrows]
    simp [registrationsOf]

/-- A submission leaves the files of the others alone. -/
theorem loadOtherCallers_upsert (h : upsertCallerFiles regs caller files = .ok regs') :
    loadOtherCallers regs' caller = loadOtherCallers regs caller := by
  have hfilter : regs'.filter (·.caller ≠ caller) = regs.filter (·.caller ≠ caller) := by
    rw [upsertCallerFiles_ok h, List.filter_append, List.filter_filter]
    simp [registrationsOf]
  unfold loadOtherCallers loadRegistered
  rw [hfilter]

/-- The scripts that planning and applying emit for lowered files. -/
def plannedScripts (ord : RangeOrder) (prior : Option FullIR) (caller : String) (parsed others : List File)
    (lowered : FullIR) : Except String SQLScripts :=
  emitScripts ord prior (numbered prior lowered).toIR (planDiff ord prior caller parsed others lowered)

theorem stage_ok {during : String} {db : Database} {st : Staged} (h : stage during db caller files = .ok st) :
    upsertCallerFiles db.registrations caller files = .ok st.registrations ∧
      parseSubmitted caller files = .ok st.parsed ∧ loadOtherCallers db.registrations caller = .ok st.others ∧
      LowerAll (st.parsed ++ st.others) = .ok st.lowered := by
  unfold stage at h
  obtain ⟨registrations, hupsert, h⟩ := bind_ok h
  obtain ⟨parsed, hparsed, h⟩ := bind_ok h
  obtain ⟨others, hothers, h⟩ := bind_ok h
  obtain ⟨lowered, hlowered, h⟩ := bind_ok h
  cases h
  rw [loadOtherCallers_upsert hupsert] at hothers
  exact ⟨hupsert, mapError_ok hparsed, hothers, mapError_ok hlowered⟩

variable {C} {ord : RangeOrder} {host : Host} {db : Database}

theorem persistCheckpoint_ok {ir : FullIR} {info : VersionMeta} {db' : Database}
    (h : persistCheckpoint C db ir info = .ok db') :
    ∃ v : SchemaVersion, v.snapshot = ir ∧ db' = { db with checkpoint := some ir, versions := db.versions ++ [v] } := by
  unfold persistCheckpoint at h
  obtain ⟨_, _, h⟩ := bind_ok h
  exact ⟨_, rfl, (Except.ok.inj h).symm⟩

/-- **What a committed apply did.** -/
theorem applyTx_ok {req : ApplyRequest} {applied : Applied} (h : applyTx C ord host db req = .ok applied) :
    ∃ st scripts v, stage "apply" db req.caller req.files = .ok st ∧
      computePlanID C req.caller st.parsed db.checkpoint = req.planID ∧
      plannedScripts ord db.checkpoint req.caller st.parsed st.others st.lowered = .ok scripts ∧
      v.snapshot = numbered db.checkpoint st.lowered ∧
      applied = ⟨scripts.up, { db with
        registrations := st.registrations
        checkpoint := some (numbered db.checkpoint st.lowered)
        versions := db.versions ++ [v] }⟩ := by
  unfold applyTx at h
  obtain ⟨st, hst, h⟩ := bind_ok h
  obtain ⟨_, _, h⟩ := bind_ok h
  obtain ⟨_, hid, h⟩ := bind_ok h
  obtain ⟨_, _, h⟩ := bind_ok h
  obtain ⟨scripts, hscripts, h⟩ := bind_ok h
  obtain ⟨_, _, h⟩ := bind_ok h
  obtain ⟨_, _, h⟩ := bind_ok h
  obtain ⟨_, _, h⟩ := bind_ok h
  obtain ⟨db', hdb', h⟩ := bind_ok h
  obtain ⟨v, hv, rfl⟩ := persistCheckpoint_ok hdb'
  exact ⟨st, scripts, v, hst, of_decide_eq_true (require_eq_ok.mp hid), mapError_ok hscripts, hv, (Except.ok.inj h).symm⟩

theorem ApplyMigration_ok {req : ApplyRequest} {applied : Applied} (h : ApplyMigration C ord host db req = .ok applied) :
    applyCheck host db req = .ok () ∧ applyTx C ord host db req = .ok applied := by
  obtain ⟨_, hcheck, h⟩ := bind_ok h
  exact ⟨hcheck, h⟩

/-- **What a committed rollback did.** -/
theorem RollbackSchema_ok {caller : String} {toVersion : Nat} {applied : Applied}
    (h : RollbackSchema C ord host db caller toVersion = .ok applied) :
    ∃ target currentIR v, db.versions.find? (·.version = toVersion) = some target ∧ db.checkpoint = some currentIR ∧
      v.snapshot = numbered (some currentIR) target.snapshot ∧
      applied.db = { db with
        checkpoint := some (numbered (some currentIR) target.snapshot)
        versions := db.versions ++ [v] } := by
  unfold RollbackSchema at h
  obtain ⟨_, _, h⟩ := bind_ok h
  obtain ⟨_, _, h⟩ := bind_ok h
  obtain ⟨_, _, h⟩ := bind_ok h
  split at h
  · cases h
  · cases h
  · rename_i target currentIR htarget hcurrent
    obtain ⟨_, _, h⟩ := bind_ok h
    obtain ⟨db', hdb', h⟩ := bind_ok h
    obtain ⟨v, hv, rfl⟩ := persistCheckpoint_ok hdb'
    refine ⟨target, currentIR, v, htarget, hcurrent, hv, ?_⟩
    rw [← Except.ok.inj h]

/-- **What an adoption answered, and did.** -/
theorem AdoptBaseline_ok {subs : List CallerSubmission} {allowDrift : Bool} {out : AdoptOutcome}
    (h : AdoptBaseline C ord host db subs allowDrift = .ok out) :
    (out = .alreadyAdopted ∧ ∀ s ∈ subs, lastAdoptHash db s.caller = some (hashFiles C s.files)) ∨
    (∃ drift, out = .blocked drift) ∨
    ∃ drift regs v, subs.foldlM (fun regs s => upsertCallerFiles regs s.caller s.files) db.registrations = .ok regs ∧
      out = .written drift { db with
        registrations := regs
        checkpoint := some v.snapshot
        versions := db.versions ++ [v]
        adoptions := db.adoptions ++ subs.map fun s => (s.caller, hashFiles C s.files) } := by
  unfold AdoptBaseline at h
  obtain ⟨_, _, h⟩ := bind_ok h
  obtain ⟨_, _, h⟩ := bind_ok h
  obtain ⟨_, _, h⟩ := bind_ok h
  obtain ⟨_, _, h⟩ := bind_ok h
  split at h
  · rename_i hall
    exact .inl ⟨(Except.ok.inj h).symm, fun s hs => of_decide_eq_true (List.all_eq_true.mp hall s hs)⟩
  obtain ⟨_, _, h⟩ := bind_ok h
  obtain ⟨_, _, h⟩ := bind_ok h
  obtain ⟨_, _, h⟩ := bind_ok h
  obtain ⟨adopted, _, h⟩ := bind_ok h
  split at h
  · exact .inr (.inl ⟨_, (Except.ok.inj h).symm⟩)
  obtain ⟨regs, hregs, h⟩ := bind_ok h
  obtain ⟨db'', hpersist, h⟩ := bind_ok h
  obtain ⟨v, hv, rfl⟩ := persistCheckpoint_ok hpersist
  cases h
  exact .inr (.inr ⟨_, regs, v, hregs, by rw [hv]⟩)

end Atlantis.Admin
