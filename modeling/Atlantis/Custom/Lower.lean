import Atlantis.Codegen.Emission
import Atlantis.Schema.Lower

/-!
# `Custom.Lower` — queries and procedures, jobs, workflows, ephemerals

The third pass of `Lower` in `internal/dsl/ir.go`: once every entity is there, the other declarations of all files are
resolved against them. An entity is written `ns.Entity`, or without its namespace; then `resolveEntityRef` looks in the
namespace of the entity the declaration is `for`, and after that for the only entity of this name anywhere. Jobs come
first, since procedures and workflows name them. The position of a first declaration, which the error about a second one
repeats, is left out.

A declaration is lowered on its own, given the entities and the jobs (`lowerItem`), and a pass without errors keeps what
every declaration is lowered to (`LowerAll_ok_iff`). So the order of declarations does not matter (`LowerAll_perm`), and
two sets of files have one IR exactly if they declare the same entities and the rest is lowered to the same
(`LowerAll_eq_iff`).
-/

namespace Atlantis.Custom

open Schema Codegen Lib

/-! ## Resolving entities -/

/-- `resolveEntityRef`. -/
def resolveEntityRef (ir : IR) (ref : EntityRef) (defaultNS : String) : Except String Entity :=
  if ref.namespace_ ≠ "" then
    match ir.find (ref.namespace_ ++ "." ++ ref.name) with
    | some e => .ok e
    | none => .error ("unknown entity " ++ (ref.namespace_ ++ "." ++ ref.name))
  else
    match (if defaultNS ≠ "" then ir.find (defaultNS ++ "." ++ ref.name) else none) with
    | some e => .ok e
    | none =>
      match ir.entities.filter fun e => ("." ++ ref.name).toList.isSuffixOf e.id.toList with
      | [] => .error ("unknown entity " ++ quoted ref.name)
      | [e] => .ok e
      | _ => .error ("entity " ++ quoted ref.name
          ++ " is ambiguous (found in multiple namespaces — qualify with namespace.Name)")

/-- `resolveTouches` on one reference, with the IDs and errors so far. -/
def resolveTouch (ir : IR) (defaultNS context : String) (acc : List String × List String) (ref : EntityRef) :
    List String × List String :=
  match resolveEntityRef ir ref defaultNS with
  | .error err => (acc.1, acc.2 ++ [context ++ ": touches: " ++ err])
  | .ok e =>
    if acc.1.contains e.id then (acc.1, acc.2 ++ [context ++ ": touches lists " ++ e.id ++ " more than once"])
    else (acc.1 ++ [e.id], acc.2)

/-- `resolveTouches`: the IDs in order, and the errors. -/
def resolveTouches (ir : IR) (refs : List EntityRef) (defaultNS context : String) : List String × List String :=
  if refs = [] then ([], [context ++ ": touches() requires at least one entity"])
  else
    let (ids, errs) := refs.foldl (resolveTouch ir defaultNS context) ([], [])
    (sortStrings ids, errs)

/-- The namespace an unqualified name is looked up in first: that of the entity the declaration is for. -/
def ownerNS (ir : IR) (target : EntityRef) : String :=
  match resolveEntityRef ir target "" with
  | .ok owner => owner.namespace_
  | .error _ => ""

/-- The owner's ID, and the error where there is none. -/
def lowerOwner (ir : IR) (target : EntityRef) (context : String) : String × List String :=
  match resolveEntityRef ir target "" with
  | .ok owner => (owner.id, [])
  | .error err => ("", [context ++ err])

/-! ## Arguments -/

/-- The bytes of a text, each as the character `rune(b)` is. -/
def bytesOf (s : String) : List Char := s.toUTF8.data.toList.map fun b => Char.ofNat b.toNat

/-- `unicode.IsLetter`, on one byte. -/
def isLetterByte (c : Char) : Bool :=
  ('a' ≤ c && c ≤ 'z') || ('A' ≤ c && c ≤ 'Z') || c.toNat = 0xaa || c.toNat = 0xb5 || c.toNat = 0xba ||
    (0xc0 ≤ c.toNat && c.toNat ≤ 0xff && c.toNat ≠ 0xd7 && c.toNat ≠ 0xf7)

def isIdentStart (c : Char) : Bool := c = '_' || isLetterByte c

def isIdentRune (c : Char) : Bool := isIdentStart c || ('0' ≤ c && c ≤ '9')

/-- The loop of `scanRawArgRefs`, over the rest of the text: the names after a `$`, dollar quotes skipped. Each round
    consumes a character, so the length of the text is fuel enough. -/
def argNames : Nat → List Char → List String
  | 0, _ => []
  | _, [] => []
  | fuel + 1, c :: rest =>
    if c = '$' ∧ rest.head?.any isIdentStart then
      match rest.dropWhile isIdentRune with
      | '$' :: after => argNames fuel after
      | after => String.ofList (rest.takeWhile isIdentRune) :: argNames fuel after
    else argNames fuel rest

/-- `scanRawArgRefs`: the names a text refers to, each once, and an error for each that no input declares. -/
def scanRawArgRefs (sql : String) (declared : List String) (pos context : String) : List String × List String :=
  let refs := (argNames (bytesOf sql).length (bytesOf sql)).eraseDups
  (refs, (refs.filter fun name => !declared.contains name).map fun name =>
    context ++ ": $" ++ name ++ " referenced in SQL but not declared in input\x7b\x7d (declared at " ++ pos ++ ")")

/-- `validateInputUsage`. -/
def validateInputUsage (inputs : List QueryParam) (used : List String) (context : String) : List String :=
  (inputs.filter fun p => !used.contains p.name).map fun p =>
    context ++ ": input $" ++ p.name ++ " is declared but never referenced in SQL (declared at " ++ p.pos ++ ")"

/-- `collectArgRefsFromExpr`. -/
def ExprIR.argRefs : ExprIR → List String
  | .arg name => [name]
  | .binary _ left right => left.argRefs ++ right.argRefs
  | _ => []

section

/-! ## Expressions and steps -/

variable (ir : IR) (byJobID : String → Option Job) (ns : String) (target : Entity) (job : Job) (inputs : List String)
  (procName : String) (idx : Nat)

/-- `strconv.ParseInt(s, 10, 64)`. -/
def parseInt (s : String) : Option Int :=
  let digits := fun (cs : List Char) =>
    if cs ≠ [] ∧ cs.all (fun c => '0' ≤ c ∧ c ≤ '9') then
      some (cs.foldl (fun n c => n * 10 + (c.toNat - '0'.toNat)) 0)
    else none
  let value : Option Int := match s.toList with
    | '-' :: cs => (digits cs).map fun n => -(n : Int)
    | '+' :: cs => (digits cs).map fun n => (n : Int)
    | cs => (digits cs).map fun n => (n : Int)
  value.filter fun n => -2 ^ 63 ≤ n ∧ n < 2 ^ 63

/-- What a literal is lowered to; `at_` is where it stands. -/
def lowerLiteral (l : Literal) (at_ : String) : Except (List String) ExprIR :=
  match l with
  | .int value =>
    match parseInt value with
    | some n => .ok (.literalInt n)
    | none => .error [at_ ++ "malformed integer literal " ++ quoted value]
  | .string value => .ok (.literalStr value)
  | .bool value => .ok (.literalBool value)
  | .now => .ok .literalNow

/-- The text that names a step in an error. -/
def atStep (pos procName : String) (idx : Nat) : String :=
  pos ++ ": procedure " ++ procName ++ " step " ++ toString (idx + 1) ++ ": "

/-- What `$name` is lowered to; `at_` is where it stands. -/
def lowerArg (name at_ : String) : Except (List String) ExprIR :=
  if inputs.contains name then .ok (.arg name) else .error [at_ ++ "$" ++ name ++ " is not declared in input\x7b\x7d"]

/-- `lowerExpr`. -/
def lowerExpr : Expr → Except (List String) ExprIR
  | .literal l pos => lowerLiteral l (atStep pos procName idx)
  | .arg name pos => lowerArg inputs name (atStep pos procName idx)
  | .field name pos =>
    if (target.findField name).isSome then .ok (.field name)
    else .error [atStep pos procName idx ++ "unknown column " ++ quoted name ++ " on " ++ target.id]
  | .binary op left right _ =>
    match lowerExpr left, lowerExpr right with
    | .ok l, .ok r => .ok (.binary op l r)
    | .error ls, .error rs => .error (ls ++ rs)
    | .error ls, .ok _ => .error ls
    | .ok _, .error rs => .error rs

/-- An assignment of a typed step: what is set, and the errors. -/
def lowerAssign (a : Assignment) : List (String × ExprIR) × List String :=
  if (target.findField a.name).isNone then
    ([], [atStep a.pos procName idx ++ "unknown column " ++ quoted a.name ++ " on " ++ target.id])
  else
    match lowerExpr target inputs procName idx a.value with
    | .ok value => ([(a.name, value)], [])
    | .error errs => ([], errs)

/-- A lowered step, the arguments it uses, and the errors. -/
structure LoweredStep where
  step : Option ProcedureStepIR := none
  used : List String := []
  errs : List String := []
  deriving DecidableEq, Repr

/-- `lowerTypedStep`. -/
def lowerTypedStep (s : TypedStep) : LoweredStep :=
  match resolveEntityRef ir s.target ns with
  | .error err => { errs := [atStep s.pos procName idx ++ err] }
  | .ok target =>
    let assigns := s.assigns.map (lowerAssign target inputs procName idx)
    let (where_, errs) := match s.whereExpr.map (lowerExpr target inputs procName idx) with
      | none => (none, [])
      | some (.ok e) => (some e, [])
      | some (.error errs) => (none, errs)
    let sets := assigns.flatMap Prod.fst
    { step := some (.typed s.verb target.id sets where_)
      used := sets.flatMap (fun a => a.2.argRefs) ++ where_.toList.flatMap ExprIR.argRefs
      errs := assigns.flatMap Prod.snd ++ errs }

/-- `lowerEnqueueValue`. -/
def lowerEnqueueValue : Expr → Except (List String) ExprIR
  | .literal l pos => lowerLiteral l (atStep pos procName idx)
  | .arg name pos => lowerArg inputs name (atStep pos procName idx)
  | .field _ pos =>
    .error [atStep pos procName idx ++ "enqueue arg cannot reference a row field; bind it to an input first"]
  | .binary _ _ _ pos => .error [atStep pos procName idx ++ "enqueue arg cannot be a compound expression"]

/-- One argument of an `enqueue`: with what is supplied so far, the arguments and errors so far. -/
def lowerEnqueueArg (acc : List String × List (String × ExprIR) × List String) (a : Assignment) :
    List String × List (String × ExprIR) × List String :=
  let (supplied, args, errs) := acc
  if supplied.contains a.name then
    (supplied, args, errs ++ [atStep a.pos procName idx ++ "duplicate enqueue arg " ++ quoted a.name])
  else if (lastWith Field.name a.name job.args).isNone then
    (supplied, args,
      errs ++ [atStep a.pos procName idx ++ "enqueue arg " ++ quoted a.name ++ " is not declared on job " ++ job.id])
  else
    match lowerEnqueueValue inputs procName idx a.value with
    | .ok value => (supplied ++ [a.name], args ++ [(a.name, value)], errs)
    | .error more => (supplied ++ [a.name], args, errs ++ more)

/-- The ID of a job that is named from a namespace. -/
def jobIDOf (ref : EntityRef) : String :=
  (if ref.namespace_ = "" then ns else ref.namespace_) ++ "." ++ ref.name

/-- `lowerEnqueueStep`. The arguments that are missing are reported in the order of a map. -/
def lowerEnqueueStep (s : EnqueueStep) : LoweredStep :=
  let jobID := jobIDOf ns s.target
  match byJobID jobID with
  | none => { errs := [atStep s.pos procName idx ++ "unknown job " ++ jobID] }
  | some job =>
    let (supplied, args, errs) := s.args.foldl (lowerEnqueueArg job inputs procName idx) ([], [], [])
    let missing := (mapValues Field.name job.args).filter fun f =>
      !supplied.contains f.name && f.notNull && f.default.isNone
    { step := some (.enqueue jobID args job.queue job.retries job.timeoutMS)
      used := args.filterMap fun a => match a.2 with
        | .arg name => some name
        | _ => none
      errs := errs ++ missing.map fun f =>
        atStep s.pos procName idx ++ "enqueue " ++ jobID ++ " is missing required arg " ++ quoted f.name }

/-- One step of a procedure. -/
def lowerStep : ProcedureStep → LoweredStep
  | .typed s => lowerTypedStep ir ns inputs procName idx s
  | .raw s =>
    let context := "procedure " ++ procName ++ " step " ++ toString (idx + 1)
    let (touches, errs) := resolveTouches ir s.touches ns context
    let (refs, more) := scanRawArgRefs s.raw inputs s.pos context
    { step := some (.raw s.raw touches), used := refs, errs := errs ++ more }
  | .enqueue s => lowerEnqueueStep byJobID ns inputs procName idx s

/-! ## Queries and procedures -/

/-- A parameter without its position. -/
def contentOf (p : QueryParam) : QueryParam := { p with pos := "" }

/-- `lowerQuery`. -/
def lowerQuery (path : String) (d : QueryDecl) : CustomQuery × List String :=
  let context := "query " ++ d.name
  let ns := ownerNS ir d.target
  let (owner, ownerErrs) := lowerOwner ir d.target (d.pos ++ ": " ++ context ++ ": ")
  let (output, outputErrs) := match d.output with
    | none => (.columns [],
        [d.pos ++ ": " ++ context ++ ": missing output\x7b\x7d or output as <entity>"])
    | some (.asEntity ref pos) =>
      match resolveEntityRef ir ref ns with
      | .ok e => (.asEntityID e.id, [])
      | .error err => (.columns [], [pos ++ ": " ++ context ++ " output: " ++ err])
    | some (.columns cols) => (CustomOutput.columns (cols.map contentOf), [])
  let (sql, touches, sqlErrs) := match d.sql with
    | none => ("", [], [d.pos ++ ": " ++ context ++ ": missing sql\x7b\x7d block"])
    | some s =>
      let (touches, errs) := resolveTouches ir s.touches ns context
      let (used, more) := scanRawArgRefs s.raw (d.inputs.map QueryParam.name) s.pos context
      (s.raw, touches, errs ++ more ++ validateInputUsage d.inputs used context)
  (⟨d.name, owner, d.inputs.map contentOf, output, sql, touches, d.cache, path⟩, ownerErrs ++ outputErrs ++ sqlErrs)

/-- `lowerProcedure`. -/
def lowerProcedure (path : String) (d : ProcedureDecl) : CustomProcedure × List String :=
  let context := "procedure " ++ d.name
  let (owner, ownerErrs) := lowerOwner ir d.target (d.pos ++ ": " ++ context ++ ": ")
  let inputs := d.inputs.map QueryParam.name
  let steps := d.steps.mapIdx fun idx s => lowerStep ir byJobID (ownerNS ir d.target) inputs d.name idx s
  (⟨d.name, owner, d.inputs.map contentOf, steps.filterMap LoweredStep.step, d.invalidate, path⟩,
    ownerErrs ++ (if d.steps = [] then [d.pos ++ ": " ++ context ++ ": at least one step is required"] else [])
      ++ steps.flatMap LoweredStep.errs
      ++ validateInputUsage d.inputs (steps.flatMap LoweredStep.used) context)

/-! ## Workflows -/

/-- A step or compensation of a workflow, with the text of the error about a job that is not there. -/
def lowerWorkflowStep (d : WorkflowDecl) (context : String) (idx : Nat) (s : WorkflowStepDecl) :
    List WorkflowStepIR × List String :=
  let jobID := jobIDOf d.namespace_ s.job
  if (byJobID jobID).isNone then ([], [context ++ ": unknown job " ++ jobID])
  else
    let args := s.args.map fun a => (a.name, lowerEnqueueValue (d.state.map Field.name) d.name idx a.value)
    ([⟨s.name, jobID, args.filterMap fun a => a.2.toOption.map (a.1, ·)⟩], args.flatMap fun a => match a.2 with
      | .ok _ => []
      | .error errs => errs)

/-- `lowerWorkflow`. -/
def lowerWorkflow (path : String) (d : WorkflowDecl) : WorkflowIR × List String :=
  let at_ := fun (s : WorkflowStepDecl) => s.pos ++ ": workflow " ++ d.name
  let steps := d.steps.mapIdx fun i s =>
    if (d.steps.take i).any (·.name = s.name) then ([], [at_ s ++ ": duplicate step name " ++ quoted s.name])
    else lowerWorkflowStep byJobID d (at_ s ++ " step " ++ toString (i + 1) ++ " " ++ quoted s.name) i s
  let comps := d.compensations.map fun c =>
    if d.steps.any (·.name = c.name) then lowerWorkflowStep byJobID d (at_ c ++ " compensate " ++ quoted c.name) 0 c
    else ([], [at_ c ++ ": compensate references unknown step " ++ quoted c.name])
  (⟨d.name, d.namespace_, d.state, steps.flatMap Prod.fst, comps.flatMap Prod.fst, path⟩,
    d.stateErrs ++ steps.flatMap Prod.snd ++ comps.flatMap Prod.snd)

end

/-! ## The third pass -/

variable (ir : IR) (byJobID : String → Option Job)

/-- What a declaration is lowered to. -/
inductive CustomItem where
  | job (j : Job)
  | query (q : CustomQuery)
  | procedure (p : CustomProcedure)
  | workflow (w : WorkflowIR)
  | ephemeral (e : Ephemeral)
  deriving DecidableEq, Repr

namespace CustomItem

def id : CustomItem → String
  | .job j => j.id
  | .query q => customID q.owner q.name
  | .procedure p => customID p.owner p.name
  | .workflow w => w.namespace_ ++ "." ++ w.name
  | .ephemeral e => e.namespace_ ++ "." ++ e.name

/-- Its kind, as errors name it. -/
def kind : CustomItem → String
  | .job _ => "job"
  | .query _ => "query"
  | .procedure _ => "procedure"
  | .workflow _ => "workflow"
  | .ephemeral _ => "ephemeral"

def job? : CustomItem → Option Job
  | .job j => some j
  | _ => none

def query? : CustomItem → Option CustomQuery
  | .query q => some q
  | _ => none

def procedure? : CustomItem → Option CustomProcedure
  | .procedure p => some p
  | _ => none

def workflow? : CustomItem → Option WorkflowIR
  | .workflow w => some w
  | _ => none

def ephemeral? : CustomItem → Option Ephemeral
  | .ephemeral e => some e
  | _ => none

end CustomItem

/-- One declaration of a file, with its errors. -/
def lowerItem (path : String) : CustomDecl → CustomItem × List String
  | .job j errs _ => (.job { j with sourcePath := path }, errs)
  | .query d => ((lowerQuery ir path d).map .query id)
  | .procedure d => ((lowerProcedure ir byJobID path d).map .procedure id)
  | .workflow d => ((lowerWorkflow byJobID path d).map .workflow id)
  | .ephemeral e errs _ => (.ephemeral { e with sourcePath := path }, errs)

/-- One declaration of the third pass, on the errors and items so far. -/
def collectItem (acc : List String × List CustomItem) (d : String × CustomDecl) :
    List String × List CustomItem :=
  let (item, errs) := lowerItem ir byJobID d.1 d.2
  if acc.2.any (·.id = item.id) then
    (acc.1 ++ errs ++ [d.2.pos ++ ": duplicate " ++ item.kind ++ " " ++ item.id], acc.2)
  else if item.job?.isSome && (ir.find item.id).isSome then
    (acc.1 ++ errs ++ [d.2.pos ++ ": job " ++ item.id ++ " collides with entity"], acc.2)
  else (acc.1 ++ errs, acc.2 ++ [item])

/-- The sub-pass that lowers a declaration. -/
def CustomDecl.subPass : CustomDecl → Nat
  | .job _ _ _ => 0
  | .query _ | .procedure _ => 1
  | .workflow _ => 2
  | .ephemeral _ _ _ => 3

/-- The declarations of the third pass, each with its file. -/
def deferred (files : List File) : List (String × CustomDecl) := files.flatMap fun f => f.customs.map (f.path, ·)

/-- `byJobID`, from the jobs among the items. -/
def jobsOf (items : List CustomItem) (id : String) : Option Job := lastWith Job.id id (items.filterMap CustomItem.job?)

/-- The declarations of a sub-pass. -/
def ofSubPass (decls : List (String × CustomDecl)) (n : Nat) : List (String × CustomDecl) :=
  decls.filter fun d => d.2.subPass = n

/-- **The third pass**, over the entities of the passes before it: the errors, and the items. -/
def lowerDeferred (decls : List (String × CustomDecl)) : List String × List CustomItem :=
  let jobs := (ofSubPass decls 0).foldl (collectItem ir fun _ => none) ([], [])
  (ofSubPass decls 1 ++ (ofSubPass decls 2 ++ ofSubPass decls 3)).foldl (collectItem ir (jobsOf jobs.2)) jobs

/-- The items of an IR, each kind by ID. -/
def Customs.of (items : List CustomItem) : Customs where
  jobs := sortBy Job.id (items.filterMap CustomItem.job?)
  queries := sortBy (fun q => customID q.owner q.name) (items.filterMap CustomItem.query?)
  procedures := sortBy (fun p => customID p.owner p.name) (items.filterMap CustomItem.procedure?)
  workflows := sortBy (fun w => w.namespace_ ++ "." ++ w.name) (items.filterMap CustomItem.workflow?)
  ephemerals := sortBy (fun e => e.namespace_ ++ "." ++ e.name) (items.filterMap CustomItem.ephemeral?)

/-- **`Lower`**, all its passes. -/
def LowerAll (files : List File) : Except (List String) FullIR :=
  let (errs, ir) := lowerEntities files
  let (customErrs, items) := lowerDeferred ir (deferred files)
  match errs ++ customErrs with
  | [] => .ok { toIR := ir, customs := Customs.of items }
  | errs => .error errs

/-! ## Names that resolve -/

/-- The entities a step names: the target of a typed step, what a raw one touches. -/
def ProcedureStep.refs : ProcedureStep → List EntityRef
  | .typed s => [s.target]
  | .raw s => s.touches
  | .enqueue _ => []

/-- The entities a declaration names. -/
def CustomDecl.refs : CustomDecl → List EntityRef
  | .query d => d.sql.toList.flatMap SQLBlock.touches
  | .procedure d => d.steps.flatMap ProcedureStep.refs
  | .job _ _ _ | .workflow _ | .ephemeral _ _ _ => []

/-- The namespace in which its unqualified names are looked up first. -/
def CustomDecl.ns : CustomDecl → String
  | .query d => ownerNS ir d.target
  | .procedure d => ownerNS ir d.target
  | .job j _ _ => j.namespace_
  | .workflow d => d.namespace_
  | .ephemeral e _ _ => e.namespace_

/-- The IDs of the entities a declaration names, in a schema. -/
def CustomDecl.names (d : CustomDecl) : List String :=
  d.refs.filterMap fun r => ((resolveEntityRef ir r (d.ns ir)).toOption).map Entity.id

variable {ir byJobID} {ref : EntityRef} {ns : String} {e : Entity}

variable {d : CustomDecl} {context path : String}

theorem resolveEntityRef_mem (h : resolveEntityRef ir ref ns = .ok e) : e ∈ ir.entities := by
  unfold resolveEntityRef at h
  split at h
  · split at h
    · rename_i found
      cases h
      exact List.mem_of_find?_eq_some found
    · cases h
  · split at h
    · rename_i found
      cases h
      split at found
      · exact List.mem_of_find?_eq_some found
      · cases found
    · split at h
      · cases h
      · rename_i heq
        cases h
        exact List.mem_of_mem_filter (heq ▸ List.mem_singleton_self e)
      · cases h

theorem mem_names {id : String} :
    id ∈ d.names ir ↔ ∃ r ∈ d.refs, ∃ e, resolveEntityRef ir r (d.ns ir) = .ok e ∧ e.id = id := by
  unfold CustomDecl.names
  rw [List.mem_filterMap]
  refine exists_congr fun r => and_congr_right fun _ => ?_
  cases resolveEntityRef ir r (d.ns ir) with
  | ok e => simp [Except.toOption]
  | error err => simp [Except.toOption]

theorem foldl_resolveTouch_ok {refs : List EntityRef} {acc : List String × List String}
    (h : (refs.foldl (resolveTouch ir ns context) acc).2 = []) :
    acc.2 = [] ∧ ∀ r ∈ refs, ∃ e, resolveEntityRef ir r ns = .ok e := by
  induction refs generalizing acc with
  | nil => exact ⟨h, fun r hr => absurd hr List.not_mem_nil⟩
  | cons r refs ih =>
    obtain ⟨hstep, hrest⟩ := ih h
    -- the first touch left no error, so it resolves, and there was none before it
    unfold resolveTouch at hstep
    split at hstep
    · simp at hstep
    · rename_i e he
      split at hstep
      · simp at hstep
      · exact ⟨hstep, List.forall_mem_cons.mpr ⟨⟨e, he⟩, hrest⟩⟩

theorem resolveTouches_ok {refs : List EntityRef} (h : (resolveTouches ir refs ns context).2 = []) :
    ∀ r ∈ refs, ∃ e, resolveEntityRef ir r ns = .ok e := by
  unfold resolveTouches at h
  split at h
  · simp at h
  · exact (foldl_resolveTouch_ok h).2

/-- **A declaration without errors names only entities that are there.** -/
theorem resolves_of_lowerItem (h : (lowerItem ir byJobID path d).2 = []) :
    ∀ r ∈ d.refs, ∃ e, resolveEntityRef ir r (d.ns ir) = .ok e := by
  intro r hr
  cases d with
  | query d =>
    obtain ⟨s, hs, hr⟩ := List.mem_flatMap.mp hr
    rw [Option.mem_toList] at hs
    simp only [lowerItem, Prod.map_snd, id, lowerQuery, List.append_eq_nil_iff, hs] at h
    exact resolveTouches_ok h.2.1.1 r hr
  | procedure d =>
    obtain ⟨s, hs, hr⟩ := List.mem_flatMap.mp hr
    simp only [lowerItem, Prod.map_snd, id, lowerProcedure, List.append_eq_nil_iff, List.flatMap_eq_nil_iff] at h
    obtain ⟨idx, hlt, hget⟩ := List.mem_iff_getElem.mp hs
    have hstep := h.1.2 _ (List.mem_mapIdx.mpr ⟨idx, hlt, rfl⟩)
    rw [hget] at hstep
    cases s with
    | typed s =>
      obtain rfl : r = s.target := List.mem_singleton.mp hr
      simp only [lowerStep, lowerTypedStep] at hstep
      split at hstep
      · simp at hstep
      · rename_i e he
        exact ⟨e, he⟩
    | raw s =>
      simp only [lowerStep, List.append_eq_nil_iff] at hstep
      exact resolveTouches_ok hstep.1 r hr
    | enqueue s => exact absurd hr List.not_mem_nil
  | job | workflow | ephemeral => exact absurd hr List.not_mem_nil

/-! ## What the third pass accepts -/

variable {decls decls' : List (String × CustomDecl)} {items items' : List CustomItem}

/-- The job that a declaration is. -/
def jobAt (d : String × CustomDecl) : Option Job :=
  match d.2 with
  | .job j _ _ => some { j with sourcePath := d.1 }
  | _ => none

/-- `byJobID`, where every job is kept. -/
def declaredJobs (decls : List (String × CustomDecl)) (id : String) : Option Job := lastWith Job.id id (decls.filterMap jobAt)

variable (ir byJobID)

/-- What the declarations are lowered to, each on its own. -/
def itemsOf (decls : List (String × CustomDecl)) : List CustomItem :=
  decls.map fun d => (lowerItem ir byJobID d.1 d.2).1

/-- A declaration that leaves no error: none of its own, and a job not under the ID of an entity. -/
def Sound (d : String × CustomDecl) : Prop :=
  (lowerItem ir byJobID d.1 d.2).2 = [] ∧ ∀ j, jobAt d = some j → (ir.find j.id).isNone = true

theorem job?_lowerItem (d : String × CustomDecl) :
    (lowerItem ir byJobID d.1 d.2).1.job? = jobAt d := by
  obtain ⟨path, d⟩ := d
  cases d <;> rfl

theorem jobs_itemsOf (decls : List (String × CustomDecl)) :
    (itemsOf ir byJobID decls).filterMap CustomItem.job? = decls.filterMap jobAt := by
  unfold itemsOf
  rw [List.filterMap_map]
  exact List.filterMap_congr fun d _ => job?_lowerItem ir byJobID d

theorem id_of_job? {item : CustomItem} {j : Job} (h : item.job? = some j) : item.id = j.id := by
  cases item <;> cases h
  rfl

theorem collectItem_iff (acc : List String × List CustomItem)
    (d : String × CustomDecl) (out : List CustomItem) : collectItem ir byJobID acc d = ([], out) ↔
      acc.1 = [] ∧ Sound ir byJobID d ∧ (lowerItem ir byJobID d.1 d.2).1.id ∉ acc.2.map CustomItem.id ∧
        out = acc.2 ++ [(lowerItem ir byJobID d.1 d.2).1] := by
  have hjob := job?_lowerItem ir byJobID d
  unfold collectItem Sound
  generalize lowerItem ir byJobID d.1 d.2 = lowered at hjob
  obtain ⟨item, errs⟩ := lowered
  have hdup : acc.2.any (·.id = item.id) = true ↔ item.id ∈ acc.2.map CustomItem.id := by
    simp only [List.any_eq_true, decide_eq_true_eq, List.mem_map]
  have hcollides : (item.job?.isSome && (ir.find item.id).isSome) = false ↔
      ∀ j, jobAt d = some j → (ir.find j.id).isNone = true := by
    rw [← hjob]
    cases hj : item.job? with
    | none => simp
    | some j => simp [id_of_job? hj]
  simp only
  by_cases hmem : item.id ∈ acc.2.map CustomItem.id
  · rw [if_pos (hdup.mpr hmem)]
    simp [hmem]
  rw [if_neg fun h => hmem (hdup.mp h), ← hcollides]
  cases hc : item.job?.isSome && (ir.find item.id).isSome with
  | true => simp
  | false => simp [hmem, and_assoc, eq_comm]

variable {ir byJobID}

/-- The declarations in the order in which the sub-passes meet them. -/
def inPasses (decls : List (String × CustomDecl)) : List (String × CustomDecl) :=
  ofSubPass decls 0 ++ (ofSubPass decls 1 ++ (ofSubPass decls 2 ++ ofSubPass decls 3))

/-- What is first in a part may come first altogether. -/
theorem append_perm_cons {α : Type} {x : α} {l l' : List α} (k : List α) (h : l.Perm (x :: l')) :
    (k ++ l).Perm (x :: (k ++ l')) :=
  (h.append_left k).trans List.perm_middle

theorem inPasses_perm (decls : List (String × CustomDecl)) : (inPasses decls).Perm decls := by
  induction decls with
  | nil => exact .nil
  | cons d decls ih =>
    refine .trans ?_ (ih.cons d)
    have hpass : d.2.subPass = 0 ∨ d.2.subPass = 1 ∨ d.2.subPass = 2 ∨ d.2.subPass = 3 := by
      cases d.2 <;> simp [CustomDecl.subPass]
    unfold inPasses ofSubPass
    rcases hpass with h | h | h | h <;> simp only [List.filter_cons, h]
    · exact .refl _
    · exact append_perm_cons _ (.refl _)
    · exact append_perm_cons _ (append_perm_cons _ (.refl _))
    · exact append_perm_cons _ (append_perm_cons _ (append_perm_cons _ (.refl _)))

/-- **The third pass without an error.** -/
theorem lowerDeferred_iff : lowerDeferred ir decls = ([], items) ↔
    (∀ d ∈ decls, Sound ir (declaredJobs decls) d) ∧ (items.map CustomItem.id).Nodup ∧
      items = itemsOf ir (declaredJobs decls) (inPasses decls) := by
  -- what a job is lowered to does not depend on the others
  have hsame : ∀ d ∈ ofSubPass decls 0, ∀ byJobID byJobID', lowerItem ir byJobID d.1 d.2 = lowerItem ir byJobID' d.1 d.2 := by
    rintro ⟨path, d⟩ hd
    cases d with
    | job => exact fun _ _ => rfl
    | _ => cases of_decide_eq_true (List.mem_filter.mp hd).2
  have hitems : itemsOf ir (fun _ => none) (ofSubPass decls 0) = itemsOf ir (declaredJobs decls) (ofSubPass decls 0) :=
    List.map_congr_left fun d hd => congrArg Prod.fst (hsame d hd _ _)
  have hsound : ∀ d ∈ ofSubPass decls 0, Sound ir (fun _ => none) d ↔ Sound ir (declaredJobs decls) d := by
    intro d hd
    unfold Sound
    rw [hsame d hd _ (declaredJobs decls)]
  have hjobs : jobsOf (itemsOf ir (declaredJobs decls) (ofSubPass decls 0)) = declaredJobs decls := by
    funext id
    unfold jobsOf declaredJobs ofSubPass
    rw [jobs_itemsOf, List.filterMap_filter]
    congr 1
    refine List.filterMap_congr fun d _ => ?_
    obtain ⟨path, d⟩ := d
    cases d <;> rfl
  have hmem : ∀ d, d ∈ decls ↔ d ∈ ofSubPass decls 0 ∨ d ∈ ofSubPass decls 1 ++ (ofSubPass decls 2 ++ ofSubPass decls 3) := by
    intro d
    rw [← (inPasses_perm decls).mem_iff, inPasses, List.mem_append]
  unfold lowerDeferred
  cases hfold : (ofSubPass decls 0).foldl (collectItem ir fun _ => none) ([], []) with
  | mk errs jobs =>
  have hfirst := fun out => @foldl_collect_iff _ _ _ _ _ _ _ _ (collectItem_iff ir fun _ => none) (ofSubPass decls 0) [] []
    out List.nodup_nil
  constructor
  · intro h
    obtain rfl : errs = [] := errs_of_foldl_collect (collectItem_iff ir _) h
    obtain ⟨-, hok, hnodup, hkept⟩ := (hfirst jobs).mp hfold
    obtain rfl : jobs = itemsOf ir (declaredJobs decls) (ofSubPass decls 0) := hkept.trans hitems
    simp only [hjobs] at h
    obtain ⟨-, hlater, hnodup, rfl⟩ := (foldl_collect_iff (collectItem_iff ir _) hnodup).mp h
    refine ⟨fun d hd => ?_, hnodup, ?_⟩
    · rcases (hmem d).mp hd with hd | hd
      · exact (hsound d hd).mp (hok d hd)
      · exact hlater d hd
    · exact List.map_append.symm
  · rintro ⟨hok, hnodup, rfl⟩
    unfold itemsOf inPasses at hnodup ⊢
    rw [List.map_append] at hnodup ⊢
    have hids : ((itemsOf ir (declaredJobs decls) (ofSubPass decls 0)).map CustomItem.id).Nodup := by
      rw [List.map_append] at hnodup
      exact (List.nodup_append.mp hnodup).1
    have hjobsOk := (hfirst _).mpr ⟨rfl, fun d hd => (hsound d hd).mpr (hok d ((hmem d).mpr (.inl hd))), hids, hitems.symm⟩
    obtain ⟨rfl, rfl⟩ := Prod.mk.inj (hfold.symm.trans hjobsOk)
    simp only [hjobs]
    exact (foldl_collect_iff (collectItem_iff ir _) hids).mpr ⟨rfl, fun d hd => hok d ((hmem d).mpr (.inr hd)), hnodup, rfl⟩

/-! ## The IR and the declarations -/

/-- What of the items is of one kind has no ID twice either. -/
theorem nodup_filterMap {α : Type} {kind : CustomItem → Option α} {key : α → String}
    (hkey : ∀ item a, kind item = some a → item.id = key a) (hnodup : (items.map CustomItem.id).Nodup) :
    ((items.filterMap kind).map key).Nodup := by
  rw [List.Nodup, List.pairwise_map] at hnodup ⊢
  refine hnodup.filterMap _ fun item item' hne a ha b hb hab => hne ?_
  rw [hkey item a ha, hkey item' b hb, hab]

/-- The items, kind by kind. -/
theorem perm_kinds (items : List CustomItem) : items.Perm
    ((items.filterMap CustomItem.job?).map .job ++ ((items.filterMap CustomItem.query?).map .query ++
      ((items.filterMap CustomItem.procedure?).map .procedure ++ ((items.filterMap CustomItem.workflow?).map .workflow ++
        (items.filterMap CustomItem.ephemeral?).map .ephemeral)))) := by
  induction items with
  | nil => exact .nil
  | cons item items ih =>
    refine (ih.cons item).trans (.symm ?_)
    cases item with
    | job => exact .refl _
    | query => exact append_perm_cons _ (.refl _)
    | procedure => exact append_perm_cons _ (append_perm_cons _ (.refl _))
    | workflow => exact append_perm_cons _ (append_perm_cons _ (append_perm_cons _ (.refl _)))
    | ephemeral => exact append_perm_cons _ (append_perm_cons _ (append_perm_cons _ (append_perm_cons _ (.refl _))))

/-- **The parts of an IR determine the items**, up to their order, and are determined by them. -/
theorem Customs.of_eq_iff (hnodup : (items.map CustomItem.id).Nodup) :
    Customs.of items = Customs.of items' ↔ items.Perm items' := by
  unfold Customs.of
  rw [Customs.mk.injEq]
  -- one kind after the other
  iterate 5 rw [sortBy_eq_iff (nodup_filterMap (fun item a h => by cases item <;> cases h; rfl) hnodup)]
  constructor
  · rintro ⟨hj, hq, hp, hw, he⟩
    refine (perm_kinds items).trans (.trans ?_ (perm_kinds items').symm)
    exact (hj.map _).append ((hq.map _).append ((hp.map _).append ((hw.map _).append (he.map _))))
  · intro h
    exact ⟨h.filterMap _, h.filterMap _, h.filterMap _, h.filterMap _, h.filterMap _⟩

variable {files fs gs own own' others : List File} {full full' : FullIR}

/-- **What `Lower` accepts, and what comes out.** -/
theorem LowerAll_ok_iff : LowerAll files = .ok full ↔ Lower files = .ok full.toIR ∧
    (∀ d ∈ deferred files, Sound full.toIR (declaredJobs (deferred files)) d) ∧
    ((itemsOf full.toIR (declaredJobs (deferred files)) (deferred files)).map CustomItem.id).Nodup ∧
    full.customs = Customs.of (itemsOf full.toIR (declaredJobs (deferred files)) (deferred files)) := by
  -- the sub-passes change the order of the items, which the IR forgets
  have hperm : ∀ ir, (itemsOf ir (declaredJobs (deferred files)) (inPasses (deferred files))).Perm
      (itemsOf ir (declaredJobs (deferred files)) (deferred files)) := fun ir => (inPasses_perm _).map _
  rw [Lower_eq_ok]
  unfold LowerAll
  obtain ⟨errs, ir⟩ := lowerEntities files
  have hiff := fun items => @lowerDeferred_iff ir (deferred files) items
  obtain ⟨ir', customs⟩ := full
  dsimp only
  generalize lowerDeferred ir (deferred files) = pass at hiff ⊢
  obtain ⟨customErrs, items⟩ := pass
  dsimp only
  constructor
  · intro h
    split at h
    · rename_i hnone
      obtain ⟨rfl, rfl⟩ := List.append_eq_nil_iff.mp hnone
      cases h
      obtain ⟨hsound, hnodup, rfl⟩ := (hiff items).mp rfl
      exact ⟨rfl, hsound, ((hperm ir).map _).nodup_iff.mp hnodup, (Customs.of_eq_iff hnodup).mpr (hperm ir)⟩
    · cases h
  · rintro ⟨hlower, hsound, hnodup, rfl⟩
    obtain ⟨rfl, rfl⟩ := Prod.mk.inj hlower
    have hids := ((hperm ir).map CustomItem.id).nodup_iff.mpr hnodup
    obtain ⟨rfl, rfl⟩ := Prod.mk.inj ((hiff _).mpr ⟨hsound, hids, rfl⟩)
    rw [(Customs.of_eq_iff hids).mpr (hperm ir)]
    rfl

/-- No job has the ID of another. -/
theorem nodup_jobs (hnodup : ((itemsOf ir byJobID decls).map CustomItem.id).Nodup) :
    ((decls.filterMap jobAt).map Job.id).Nodup := by
  rw [← jobs_itemsOf ir byJobID]
  exact nodup_filterMap (fun _ _ => id_of_job?) hnodup

/-- `byJobID` does not depend on the order. -/
theorem declaredJobs_perm (hperm : (decls.filterMap jobAt).Perm (decls'.filterMap jobAt))
    (hnodup : ((decls.filterMap jobAt).map Job.id).Nodup) : declaredJobs decls = declaredJobs decls' := by
  funext id
  exact lastWith_perm hperm hnodup

/-- **Neither the order of declarations nor their spread over files matters**, as long as each stays in its file. -/
theorem LowerAll_perm (hdecls : (fs.flatMap File.decls).Perm (gs.flatMap File.decls))
    (hcustoms : (deferred fs).Perm (deferred gs)) (h : LowerAll fs = .ok full) : LowerAll gs = .ok full := by
  obtain ⟨hlower, hsound, hnodup, hfull⟩ := LowerAll_ok_iff.mp h
  have hjobs := declaredJobs_perm (hcustoms.filterMap _) (nodup_jobs hnodup)
  rw [hjobs] at hsound hnodup hfull
  have hitems := hcustoms.map fun d => (lowerItem full.toIR (declaredJobs (deferred gs)) d.1 d.2).1
  refine LowerAll_ok_iff.mpr ⟨Lower_perm hdecls hlower, fun d hd => hsound d (hcustoms.mem_iff.mpr hd),
    (hitems.map _).nodup_iff.mp hnodup, ?_⟩
  rw [hfull]
  exact (Customs.of_eq_iff hnodup).mpr hitems

/-- What the other declarations of `own` are lowered to, next to the files `others`. -/
def meanings (own others : List File) : List CustomItem :=
  itemsOf (lowerEntities (own ++ others)).2 (declaredJobs (deferred (own ++ others))) (deferred own)

theorem deferred_append (fs gs : List File) : deferred (fs ++ gs) = deferred fs ++ deferred gs := List.flatMap_append

theorem itemsOf_append (ir byJobID) (ds es : List (String × CustomDecl)) :
    itemsOf ir byJobID (ds ++ es) = itemsOf ir byJobID ds ++ itemsOf ir byJobID es := List.map_append

/-- The items tell the jobs. -/
theorem jobs_of_items {ir' : IR} {byJobID' : String → Option Job}
    (hitems : (itemsOf ir byJobID decls).Perm (itemsOf ir' byJobID' decls')) :
    (decls.filterMap jobAt).Perm (decls'.filterMap jobAt) := by
  rw [← jobs_itemsOf ir byJobID, ← jobs_itemsOf ir' byJobID']
  exact hitems.filterMap _

/-- **Files lower to one IR exactly if they declare the same entities, and the rest is lowered to the same.** -/
theorem LowerAll_eq_iff (hf : LowerAll (own ++ others) = .ok full) (hg : LowerAll (own' ++ others) = .ok full') :
    full = full' ↔ (declaredEntities own).Perm (declaredEntities own') ∧ (meanings own others).Perm (meanings own' others) := by
  obtain ⟨hlower, -, hnodup, hcustoms⟩ := LowerAll_ok_iff.mp hf
  obtain ⟨hlower', -, -, hcustoms'⟩ := LowerAll_ok_iff.mp hg
  -- the entities determine the IR that the names of the rest are resolved in
  have hentities : full.toIR = full'.toIR ↔ (declaredEntities own).Perm (declaredEntities own') := by
    rw [Lower_eq_iff hlower hlower', declaredEntities_append, declaredEntities_append, List.perm_append_right_iff]
  have hwhole : full = full' ↔ full.toIR = full'.toIR ∧ full.customs = full'.customs := by
    cases full
    cases full'
    exact FullIR.mk.injEq .. ▸ Iff.rfl
  rw [hwhole, ← hentities]
  refine and_congr_right fun hir => ?_
  unfold meanings
  rw [Lower_eq_ok.mp hlower, Lower_eq_ok.mp hlower', hcustoms, hcustoms', Customs.of_eq_iff hnodup, ← hir]
  have hjobs := nodup_jobs hnodup
  rw [deferred_append] at hjobs
  rw [deferred_append, deferred_append]
  constructor
  · intro hitems
    have hsame := declaredJobs_perm (jobs_of_items hitems) hjobs
    rw [hsame] at hitems ⊢
    rw [itemsOf_append, itemsOf_append] at hitems
    exact (List.perm_append_right_iff _).mp hitems
  · intro hown
    have hsame : declaredJobs (deferred own ++ deferred others) = declaredJobs (deferred own' ++ deferred others) := by
      refine declaredJobs_perm ?_ hjobs
      rw [List.filterMap_append, List.filterMap_append]
      exact (jobs_of_items hown).append_right _
    rw [itemsOf_append, itemsOf_append]
    rw [hsame] at hown ⊢
    exact hown.append_right _

/-! ## Changes -/

/-- The kinds of a change to a query or procedure. -/
inductive CustomKind where
  | customQueryAdded | customQueryChanged | customQueryRemoved
  | procedureAdded | procedureChanged | procedureRemoved
  deriving DecidableEq, Repr

/-- A change to a query or procedure. -/
structure CustomChange where
  kind : CustomKind
  id : String
  deriving DecidableEq, Repr

/-- `customQueryContentEqual`. -/
def customQueryContentEqual (a b : CustomQuery) : Bool := { a with sourcePath := "" } == { b with sourcePath := "" }

/-- `customProcContentEqual`. -/
def customProcContentEqual (a b : CustomProcedure) : Bool := { a with sourcePath := "" } == { b with sourcePath := "" }

/-- The two loops of `diffCustomDecls` over queries, or over procedures. -/
def diffDecls {α : Type} (ord : RangeOrder) (site : String) (id : α → String) (contentEqual : α → α → Bool)
    (added changed removed : CustomKind) (old new : List α) : List CustomChange :=
  ((ord.order (site ++ " new") (mapValues id new)).filterMap fun x =>
    match lastWith id (id x) old with
    | none => some ⟨added, id x⟩
    | some o => if contentEqual o x then none else some ⟨changed, id x⟩) ++
  (ord.order (site ++ " old") (mapValues id old)).filterMap fun x =>
    if (lastWith id (id x) new).isNone then some ⟨removed, id x⟩ else none

/-- `diffCustomDecls`. -/
def diffCustomDecls (ord : RangeOrder) (old new : Customs) : List CustomChange :=
  diffDecls ord "queries" (fun q => customID q.owner q.name) customQueryContentEqual .customQueryAdded
      .customQueryChanged .customQueryRemoved old.queries new.queries ++
    diffDecls ord "procedures" (fun p => customID p.owner p.name) customProcContentEqual .procedureAdded
      .procedureChanged .procedureRemoved old.procedures new.procedures

/-- A query or procedure that stays is no change. -/
theorem diffDecls_self {α : Type} {ord : RangeOrder} (site : String) (id : α → String) {contentEqual : α → α → Bool}
    (hrefl : ∀ x, contentEqual x x = true) (added changed removed : CustomKind) (l : List α) :
    diffDecls ord site id contentEqual added changed removed l l = [] := by
  have hlast : ∀ {site' : String} {x : α}, x ∈ ord.order site' (mapValues id l) → lastWith id (id x) l = some x :=
    fun hx => mem_mapValues.mp ((ord.perm _ _).mem_iff.mp hx)
  unfold diffDecls
  rw [List.append_eq_nil_iff, List.filterMap_eq_nil_iff, List.filterMap_eq_nil_iff]
  constructor <;> intro x hx <;> rw [hlast hx]
  · exact if_pos (hrefl x)
  · rfl

/-- Jobs are not compared. -/
theorem diffCustomDecls_of_eq {ord : RangeOrder} {old new : Customs} (hq : old.queries = new.queries)
    (hp : old.procedures = new.procedures) : diffCustomDecls ord old new = [] := by
  unfold diffCustomDecls
  rw [hq, hp, diffDecls_self _ _ (fun q => by simp [customQueryContentEqual]),
    diffDecls_self _ _ (fun p => by simp [customProcContentEqual])]
  rfl

end Atlantis.Custom
