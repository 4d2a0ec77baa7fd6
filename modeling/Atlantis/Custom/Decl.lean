import Atlantis.Schema.Names

/-!
# `Custom.Decl` — what files declare beside entities

The other declarations of `internal/dsl/ast.go` and what `internal/dsl/ir.go` has for them: queries and procedures,
jobs, workflows and ephemerals. Inputs and output columns are given with the types that `lowerInputs` gives them, the
cache block of a query as `lowerCacheForCustom` leaves it. Positions are text, as errors print them; an IR is stored
without positions, and here has none.
-/

namespace Atlantis.Custom

open Schema

/-! ## Declarations -/

/-- `EntityRef`. -/
structure EntityRef where
  namespace_ : String := ""
  name : String
  deriving DecidableEq, Repr

/-- `InputParam`, and `QueryParam`, which it is lowered to. -/
structure QueryParam where
  name : String
  type : FieldType
  default : Option Default := none
  pos : String := ""
  deriving DecidableEq, Repr

/-- `LiteralExpr`, by its `Kind`. -/
inductive Literal where
  | int (value : String)
  | string (value : String)
  | bool (value : Bool)
  | now
  deriving DecidableEq, Repr

/-- `Expr`. -/
inductive Expr where
  | literal (l : Literal) (pos : String)
  | arg (name pos : String)
  | field (name pos : String)
  | binary (op : String) (left right : Expr) (pos : String)
  deriving DecidableEq, Repr

/-- `SetAssignment` and `EnqueueAssignment`. -/
structure Assignment where
  name : String
  value : Expr
  pos : String := ""
  deriving DecidableEq, Repr

/-- `SQLBlock`. -/
structure SQLBlock where
  raw : String
  touches : List EntityRef
  pos : String := ""
  deriving DecidableEq, Repr

/-- `TypedStep`. -/
structure TypedStep where
  verb : String
  target : EntityRef
  assigns : List Assignment := []
  whereExpr : Option Expr := none
  pos : String := ""
  deriving DecidableEq, Repr

/-- `EnqueueStep`. -/
structure EnqueueStep where
  target : EntityRef
  args : List Assignment := []
  pos : String := ""
  deriving DecidableEq, Repr

/-- `ProcedureStep`. -/
inductive ProcedureStep where
  | typed (s : TypedStep)
  | raw (s : SQLBlock)
  | enqueue (s : EnqueueStep)
  deriving DecidableEq, Repr

/-- `QueryOutput`: one of the two, as the parser leaves it. -/
inductive QueryOutput where
  | asEntity (ref : EntityRef) (pos : String)
  | columns (cols : List QueryParam)
  deriving DecidableEq, Repr

/-- `Invalidate`, its `where` clause as field and own field. -/
structure Invalidate where
  self : Bool := false
  targetID : String := ""
  where_ : Option (String × String) := none
  deriving DecidableEq, Repr

/-- `Consistency`. -/
inductive Consistency where
  | default | eventual | strict
  deriving DecidableEq, Repr

/-- `Cache`. -/
structure Cache where
  hasReadThrough : Bool := false
  ttlMS : Int := 0
  tag : String := ""
  tagFields : List String := []
  invalidate : List Invalidate := []
  consistency : Consistency := .default
  deriving DecidableEq, Repr

/-- `QueryDecl`. -/
structure QueryDecl where
  name : String
  target : EntityRef
  inputs : List QueryParam := []
  output : Option QueryOutput
  sql : Option SQLBlock
  cache : Option Cache := none
  pos : String := ""
  deriving DecidableEq, Repr

/-- `ProcedureDecl`. -/
structure ProcedureDecl where
  name : String
  target : EntityRef
  inputs : List QueryParam := []
  steps : List ProcedureStep
  invalidate : String := ""
  pos : String := ""
  deriving DecidableEq, Repr

/-- `Job`. -/
structure Job where
  name : String
  namespace_ : String
  args : List Field := []
  retries : Nat := 0
  timeoutMS : Nat := 0
  timeoutNone : Bool := false
  /-- Zero if none is declared. -/
  heartbeatMS : Nat := 0
  queue : String := ""
  schedule : String := ""
  visibleTo : String := ""
  sourcePath : String := ""
  deriving DecidableEq, Repr

def Job.id (j : Job) : String := j.namespace_ ++ "." ++ j.name

/-- `WorkflowStepDecl`, and `WorkflowCompDecl` with the name of the step it undoes. -/
structure WorkflowStepDecl where
  name : String
  job : EntityRef
  args : List Assignment := []
  pos : String := ""
  deriving DecidableEq, Repr

/-- `WorkflowDecl`; its state with the errors found in it. -/
structure WorkflowDecl where
  name : String
  namespace_ : String
  state : List Field := []
  stateErrs : List String := []
  steps : List WorkflowStepDecl
  compensations : List WorkflowStepDecl := []
  pos : String := ""
  deriving DecidableEq, Repr

/-- `Ephemeral`. -/
structure Ephemeral where
  name : String
  namespace_ : String
  fields : List Field
  ttlMS : Nat := 0
  sourcePath : String := ""
  deriving DecidableEq, Repr

/-- A declaration that is no entity. Jobs and ephemerals are given as `lowerJob` and `lowerEphemeral` leave them. -/
inductive CustomDecl where
  | query (d : QueryDecl)
  | procedure (d : ProcedureDecl)
  | job (j : Job) (errs : List String) (pos : String)
  | workflow (d : WorkflowDecl)
  | ephemeral (e : Ephemeral) (errs : List String) (pos : String)
  deriving DecidableEq, Repr

def CustomDecl.pos : CustomDecl → String
  | .query d => d.pos
  | .procedure d => d.pos
  | .job _ _ pos => pos
  | .workflow d => d.pos
  | .ephemeral _ _ pos => pos

/-! ## What they are lowered to -/

/-- `ExprIR`. -/
inductive ExprIR where
  | arg (name : String)
  | field (name : String)
  | literalStr (s : String)
  | literalInt (n : Int)
  | literalBool (b : Bool)
  | literalNow
  | binary (op : String) (left right : ExprIR)
  deriving DecidableEq, Repr

/-- `CustomOutput`. -/
inductive CustomOutput where
  | asEntityID (id : String)
  | columns (cols : List QueryParam)
  deriving DecidableEq, Repr

/-- `CustomQuery`. -/
structure CustomQuery where
  name : String
  owner : String
  inputs : List QueryParam
  output : CustomOutput
  sql : String
  touches : List String
  cache : Option Cache := none
  sourcePath : String
  deriving DecidableEq, Repr

/-- `ProcedureStepIR`. -/
inductive ProcedureStepIR where
  | typed (verb targetID : String) (assigns : List (String × ExprIR)) (where_ : Option ExprIR)
  | raw (sql : String) (touches : List String)
  | enqueue (targetJobID : String) (args : List (String × ExprIR)) (queue : String) (maxRetries timeoutMS : Nat)
  deriving DecidableEq, Repr

/-- `CustomProcedure`. -/
structure CustomProcedure where
  name : String
  owner : String
  inputs : List QueryParam
  steps : List ProcedureStepIR
  invalidate : String
  sourcePath : String
  deriving DecidableEq, Repr

/-- `ID` of a query or procedure: its name in the namespace of its owner. -/
def customID (owner name : String) : String :=
  match cutDot owner with
  | some (ns, _) => ns ++ "." ++ name
  | none => name

/-- `WorkflowStepIR` and `WorkflowCompIR`. -/
structure WorkflowStepIR where
  name : String
  targetJobID : String
  args : List (String × ExprIR)
  deriving DecidableEq, Repr

/-- `Workflow`. -/
structure WorkflowIR where
  name : String
  namespace_ : String
  state : List Field
  steps : List WorkflowStepIR
  compensations : List WorkflowStepIR
  sourcePath : String
  deriving DecidableEq, Repr

/-- What an IR holds beside entities. -/
structure Customs where
  jobs : List Job := []
  queries : List CustomQuery := []
  procedures : List CustomProcedure := []
  workflows : List WorkflowIR := []
  ephemerals : List Ephemeral := []
  deriving DecidableEq, Repr

/-- **`dsl.IR`**, with all its parts. -/
structure FullIR extends IR where
  customs : Customs := {}
  deriving DecidableEq, Repr

end Atlantis.Custom
