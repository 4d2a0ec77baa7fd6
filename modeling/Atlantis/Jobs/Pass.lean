import Mathlib.Data.List.Nodup
import Atlantis.Jobs.System

/-!
# `Jobs.Pass` — one drain pass against sessions that leave

`Dispatcher.drainOnce` (`internal/server/jobsdispatcher/dispatcher.go`) after its claim, step by step: for each claimed
row it picks a session among those that had slots when the pass began, checks authorization again, binds the row to
the session, records the dispatch in the session's in-flight map and pushes it into the outbox; each way out of this
releases the row under the name it is expected to have. `unregister` may run at any point for any session: under the
lock it takes the session out of the registry and copies its in-flight map, then it releases the copied rows one by
one. All statements succeed.

Two things go wrong. A row that fails the second authorization check is released under the *session's* name while it
still has the pod's, which releases nothing. And a row that is recorded on a session after that session's
`unregister` has copied its map is never released and never answered. `placed_iff_sound` says that nothing else does:
**of the rows of a pass that started clean, all are placed or given back at the end exactly when no row was rejected
and no row was sent to a session that had left without seeing it.**

A row is followed through the pass by what it sees of it (`View`): `OnTrack` has one case for each point of the loop
body; `Lost` says what the two accidents leave behind, and nobody repairs it.
-/

namespace Atlantis.Jobs

open Lib

/-! ## The second authorization check -/

/-- What `authz.go` reads of a `dsl.Job`. -/
structure JobDecl where
  id : String
  visibleTo : String
  deriving DecidableEq, Repr

/-- `jobVisibleTo`. -/
def jobVisibleTo (job : JobDecl) (callerCN : String) (aliases : List String) : Bool :=
  job.visibleTo = "" || job.visibleTo = "*" || job.visibleTo = callerCN || aliases.contains job.visibleTo

/-- `CheckSingleAuthz`: no such job, or not for this caller. -/
def checkSingleAuthz (callerCN : String) (aliases : List String) (jobName : String) (jobs : List JobDecl) : Bool :=
  match jobs.find? (·.id = jobName) with
  | none => false
  | some job => jobVisibleTo job callerCN aliases

/-! ## The pass -/

/-- What does not change while the pass runs. -/
structure PassEnv where
  cfg : Config
  pod : Nat
  /-- The sessions of the queue when the pass began. -/
  targets : List Nat
  jobNames : Nat → List String
  caller : Nat → String
  aliases : Nat → List String

namespace PassEnv

variable (E : PassEnv)

/-- `"dispatcher/" + PodID`. -/
def placeholder : String := E.cfg.placeholder E.pod

/-- `session.claimedBy`. -/
def name (s : Nat) : String := E.cfg.claimedBy s

end PassEnv

/-- Where the loop body stands with its row. -/
inductive Stage where
  | bound
  /-- In the in-flight map, not yet in the outbox; `dup` if the map had the row before. -/
  | recorded (dup : Bool)
  /-- Out of the map again, to be released. -/
  | full
  deriving DecidableEq, Repr

/-- The row the loop body is at. -/
structure Routing where
  id : Nat
  session : Nat
  stage : Stage
  deriving DecidableEq, Repr

/-- The state of the database and of the dispatcher during the pass. -/
structure Pass where
  now : Int
  jobs : Nat → Row
  registered : Nat → Bool
  inflight : Nat → List Nat
  /-- The in-flight map as `unregister` copied it. -/
  seen : Nat → List Nat := fun _ => []
  /-- What is left of the copy to release. -/
  leaving : Nat → List Nat := fun _ => []
  /-- `perSessSlot`. -/
  slots : Nat → Nat
  /-- The claimed rows the loop has not come to. -/
  todo : List (Nat × String)
  cur : Option Routing := none

inductive PassAct where
  | tick (d : Nat)
  /-- No session with a slot handles the row. -/
  | noSession
  /-- The IR is there and refuses the session that was picked. -/
  | reject (s : Nat) (ir : List JobDecl)
  /-- The IR is there and allows it, or cannot be loaded. -/
  | bind (s : Nat) (ir : Option (List JobDecl))
  /-- The per-job lease. -/
  | extend (perJob : Nat)
  /-- The first half of `recordDispatch`. -/
  | record
  /-- The outbox takes the row. -/
  | send
  /-- It does not: `recordDispatch` undoes its bookkeeping. -/
  | outboxFull
  /-- … and the row is released. -/
  | giveBack
  /-- The locked part of `unregister`. -/
  | unregister (s : Nat)
  /-- `unregister` releases the next row. -/
  | release (s : Nat)
  deriving DecidableEq, Repr

namespace Pass

/-- An `UPDATE … WHERE id = $1`. -/
def write (σ : Pass) (id : Nat) (f : Row → Row) : Pass := { σ with jobs := Function.update σ.jobs id (f (σ.jobs id)) }

/-- `pickSession` may return `s`. -/
def eligible (E : PassEnv) (σ : Pass) (jobName : String) (s : Nat) : Bool :=
  E.targets.contains s && decide (0 < σ.slots s) && (E.jobNames s).contains jobName

/-- The steps of the loop that take the next row. -/
def next (E : PassEnv) (σ : Pass) : PassAct → Nat → String → List (Nat × String) → Option Pass
  | .noSession, id, jobName, rest =>
    if E.targets.all fun s => !σ.eligible E jobName s then
      some { σ.write id (Row.releaseRow σ.now E.placeholder "no_session_post_claim") with todo := rest }
    else none
  | .reject s ir, id, jobName, rest =>
    if σ.eligible E jobName s && !checkSingleAuthz (E.caller s) (E.aliases s) jobName ir then
      some { σ.write id (Row.releaseRow σ.now (E.name s) "authz_rejected") with todo := rest }
    else none
  | .bind s ir, id, jobName, rest =>
    if σ.eligible E jobName s && (ir.all fun jobs => checkSingleAuthz (E.caller s) (E.aliases s) jobName jobs) then
      some { σ.write id (Row.bindClaimToSession (E.name s) (E.cfg.sessionID s)) with
        todo := rest, cur := some ⟨id, s, .bound⟩ }
    else none
  | _, _, _, _ => none

/-- One step. -/
def step (E : PassEnv) (σ : Pass) (a : PassAct) : Option Pass :=
  match a with
  | .tick d => some { σ with now := σ.now + d }
  | .noSession | .reject .. | .bind .. =>
    match σ.cur, σ.todo with
    | none, (id, jobName) :: rest => σ.next E a id jobName rest
    | _, _ => none
  | .extend perJob =>
    match σ.cur with
    | some ⟨id, s, .bound⟩ => some (σ.write id (Row.extendLease σ.now (E.name s) perJob))
    | _ => none
  | .record =>
    match σ.cur with
    | some ⟨id, s, .bound⟩ =>
      let dup := decide (id ∈ σ.inflight s)
      some { σ with
        inflight := Function.update σ.inflight s (if dup then σ.inflight s else id :: σ.inflight s)
        cur := some ⟨id, s, .recorded dup⟩ }
    | _ => none
  | .send =>
    match σ.cur with
    | some ⟨_, s, .recorded _⟩ => some { σ with cur := none, slots := Function.update σ.slots s (σ.slots s - 1) }
    | _ => none
  | .outboxFull =>
    match σ.cur with
    | some ⟨id, s, .recorded dup⟩ =>
      some { σ with
        inflight := Function.update σ.inflight s (if dup then σ.inflight s else (σ.inflight s).filter (· ≠ id))
        cur := some ⟨id, s, .full⟩ }
    | _ => none
  | .giveBack =>
    match σ.cur with
    | some ⟨id, s, .full⟩ => some { σ.write id (Row.releaseRow σ.now (E.name s) "outbox_full") with cur := none }
    | _ => none
  | .unregister s =>
    if σ.registered s then
      some { σ with
        registered := Function.update σ.registered s false
        seen := Function.update σ.seen s (σ.inflight s)
        leaving := Function.update σ.leaving s (σ.inflight s) }
    else none
  | .release s =>
    match σ.leaving s with
    | id :: rest =>
      some { σ.write id (Row.releaseRow σ.now (E.name s) "stream_closed") with
        leaving := Function.update σ.leaving s rest }
    | [] => none

/-- The rows the loop has not come to. -/
def Queued (σ : Pass) (id : Nat) : Prop := id ∈ σ.todo.map Prod.fst

/-- **The claim has just been made**: each claimed row is there once, under the pod's name, and no session has it in
    flight or is releasing it. -/
structure Started (E : PassEnv) (σ : Pass) : Prop where
  nodup : (σ.todo.map Prod.fst).Nodup
  cur : σ.cur = none
  claimed : ∀ id, σ.Queued id → (σ.jobs id).status = .running ∧ (σ.jobs id).claimedBy = some E.placeholder
  fresh : ∀ id, σ.Queued id → ∀ s, id ∉ σ.inflight s ∧ id ∉ σ.seen s ∧ id ∉ σ.leaving s

/-- Both the pass and every `unregister` have finished. -/
structure Finished (σ : Pass) : Prop where
  todo : σ.todo = []
  cur : σ.cur = none
  leaving : ∀ s, σ.leaving s = []

/-- The row is pending and nobody's. -/
def GivenBack (σ : Pass) (id : Nat) : Prop := (σ.jobs id).status = .pending ∧ (σ.jobs id).claimedBy = none

/-- **Placed or given back**: pending without a claimant, or in flight on exactly one session, which is registered and
    under whose name the row is claimed. -/
def Placed (E : PassEnv) (σ : Pass) (id : Nat) : Prop :=
  σ.GivenBack id ∨
    ∃ s, (∀ s', id ∈ σ.inflight s' ↔ s' = s) ∧ σ.registered s = true ∧ (σ.jobs id).claimedBy = some (E.name s)

/-- No row is rejected, unless its session should go by the pod's own name, and none is sent to a session that has left
    without seeing it. -/
def Sound (E : PassEnv) (σ : Pass) : PassAct → Prop
  | .reject s _ => E.name s = E.placeholder
  | .send => ∀ r, σ.cur = some r → σ.registered r.session = true ∨ r.id ∈ σ.seen r.session
  | _ => True

/-! ## What a row sees -/

/-- The pass as far as one row is concerned. -/
@[ext]
structure View where
  row : Row
  queued : Prop
  /-- The session and the stage, while the loop body is at the row. -/
  cur : Option (Nat × Stage)
  inflight : Nat → Prop
  seen : Nat → Prop
  leaving : Nat → Prop
  registered : Nat → Bool

def view (σ : Pass) (id : Nat) : View where
  row := σ.jobs id
  queued := σ.Queued id
  cur := (σ.cur.filter fun r => r.id = id).map fun r => (r.session, r.stage)
  inflight s := id ∈ σ.inflight s
  seen s := id ∈ σ.seen s
  leaving s := id ∈ σ.leaving s
  registered := σ.registered

variable {E : PassEnv} {σ τ : Pass} {id : Nat}

variable {a : PassAct} {s s₀ : Nat}

variable {i s' : Nat} {jobName name reason : String} {rest : List (Nat × String)} {now : Int} {claimed : List Nat}

@[simp] theorem jobs_write_self (f : Row → Row) : (σ.write id f).jobs id = f (σ.jobs id) := Function.update_self ..

theorem view_cur_of_eq {stage : Stage} (h : σ.cur = some ⟨id, s, stage⟩) : (σ.view id).cur = some (s, stage) := by
  simp [view, h]

theorem view_cur_none (h : σ.cur = none) : (σ.view id).cur = none := by simp [view, h]

/-- **What a step can do**, act by act, and the row it is about. -/
inductive Stepped (E : PassEnv) (σ : Pass) : Option Nat → PassAct → Pass → Prop where
  | tick (d : Nat) : Stepped E σ none (.tick d) { σ with now := σ.now + d }
  | noSession (i : Nat) (jobName : String) (rest : List (Nat × String)) (hcur : σ.cur = none)
      (htodo : σ.todo = (i, jobName) :: rest) : Stepped E σ (some i) .noSession
        { σ.write i (Row.releaseRow σ.now E.placeholder "no_session_post_claim") with todo := rest }
  | reject (s : Nat) (ir : List JobDecl) (i : Nat) (jobName : String) (rest : List (Nat × String)) (hcur : σ.cur = none)
      (htodo : σ.todo = (i, jobName) :: rest) : Stepped E σ (some i) (.reject s ir)
        { σ.write i (Row.releaseRow σ.now (E.name s) "authz_rejected") with todo := rest }
  | bind (s : Nat) (ir : Option (List JobDecl)) (i : Nat) (jobName : String) (rest : List (Nat × String))
      (hcur : σ.cur = none) (htodo : σ.todo = (i, jobName) :: rest)
      (hchecked : ∀ jobs ∈ ir, checkSingleAuthz (E.caller s) (E.aliases s) jobName jobs = true) :
      Stepped E σ (some i) (.bind s ir)
        { σ.write i (Row.bindClaimToSession (E.name s) (E.cfg.sessionID s)) with
          todo := rest, cur := some ⟨i, s, .bound⟩ }
  | extend (perJob i s : Nat) (hcur : σ.cur = some ⟨i, s, .bound⟩) :
      Stepped E σ (some i) (.extend perJob) (σ.write i (Row.extendLease σ.now (E.name s) perJob))
  | record (i s : Nat) (hcur : σ.cur = some ⟨i, s, .bound⟩) : Stepped E σ (some i) .record { σ with
      inflight := Function.update σ.inflight s (if i ∈ σ.inflight s then σ.inflight s else i :: σ.inflight s)
      cur := some ⟨i, s, .recorded (decide (i ∈ σ.inflight s))⟩ }
  | send (i s : Nat) (dup : Bool) (hcur : σ.cur = some ⟨i, s, .recorded dup⟩) :
      Stepped E σ (some i) .send { σ with cur := none, slots := Function.update σ.slots s (σ.slots s - 1) }
  | outboxFull (i s : Nat) (dup : Bool) (hcur : σ.cur = some ⟨i, s, .recorded dup⟩) : Stepped E σ (some i) .outboxFull { σ with
      inflight := Function.update σ.inflight s (if dup then σ.inflight s else (σ.inflight s).filter (· ≠ i))
      cur := some ⟨i, s, .full⟩ }
  | giveBack (i s : Nat) (hcur : σ.cur = some ⟨i, s, .full⟩) : Stepped E σ (some i) .giveBack
      { σ.write i (Row.releaseRow σ.now (E.name s) "outbox_full") with cur := none }
  | unregister (s : Nat) (hreg : σ.registered s = true) : Stepped E σ none (.unregister s) { σ with
      registered := Function.update σ.registered s false
      seen := Function.update σ.seen s (σ.inflight s)
      leaving := Function.update σ.leaving s (σ.inflight s) }
  | release (s i : Nat) (rest : List Nat) (hleaving : σ.leaving s = i :: rest) : Stepped E σ (some i) (.release s)
      { σ.write i (Row.releaseRow σ.now (E.name s) "stream_closed") with leaving := Function.update σ.leaving s rest }

theorem stepped (h : σ.step E a = some τ) : ∃ row, Stepped E σ row a τ := by
  cases a with
  | tick d =>
    cases h
    exact ⟨_, .tick d⟩
  | noSession | reject s ir | bind s ir =>
    simp only [step] at h
    split at h
    · simp only [next, Option.ite_none_right_eq_some, Option.some.injEq, Bool.and_eq_true, Option.all_eq_true] at h
      obtain ⟨hguard, h⟩ := h
      rw [← h]
      exact ⟨_, by constructor <;> first | assumption | exact hguard.2⟩
    · cases h
  | unregister s =>
    simp only [step, Option.ite_none_right_eq_some, Option.some.injEq] at h
    rw [← h.2]
    exact ⟨_, .unregister s h.1⟩
  | extend perJob | record | send | outboxFull | giveBack | release s =>
    simp only [step, decide_eq_true_eq] at h
    split at h
    · cases h
      exact ⟨_, by constructor; assumption⟩
    · cases h

theorem mem_update_iff {f : Nat → List Nat} {l : List Nat} (h : id ∈ l ↔ id ∈ f s) :
    id ∈ Function.update f s l s' ↔ id ∈ f s' := by
  by_cases hs : s' = s
  · rw [hs, Function.update_self]
    exact h
  · rw [Function.update_of_ne hs]

/-- **A step changes what one row sees**, apart from `unregister`, which changes a session. -/
theorem view_of_step {row : Option Nat} (h : Stepped E σ row a τ) (hne : row ≠ some id) (hun : ∀ s, a ≠ .unregister s) :
    τ.view id = σ.view id := by
  cases h with
  | tick d => rfl
  | noSession i jobName rest hcur htodo | reject s ir i jobName rest hcur htodo | bind s ir i jobName rest hcur htodo _ =>
    have hid : id ≠ i := fun heq => hne (by rw [heq])
    simp [view, Queued, write, htodo, hcur, Option.filter_some, hid, hid.symm]
  | extend perJob i s hcur | giveBack i s hcur | send i s dup hcur =>
    have hid : id ≠ i := fun heq => hne (by rw [heq])
    simp [view, Queued, write, hcur, Option.filter_some, hid, hid.symm]
  | record i s hcur | outboxFull i s dup hcur =>
    have hid : id ≠ i := fun heq => hne (by rw [heq])
    refine View.ext rfl rfl ?_ (funext fun s' => propext (mem_update_iff ?_)) rfl rfl rfl
    · simp [view, hcur, Option.filter_some, hid.symm]
    · split <;> simp [hid]
  | unregister s hreg => exact absurd rfl (hun s)
  | release s i rest hleaving =>
    have hid : id ≠ i := fun heq => hne (by rw [heq])
    have hmem : ∀ s', id ∈ Function.update σ.leaving s rest s' ↔ id ∈ σ.leaving s' := by
      refine fun s' => mem_update_iff ?_
      rw [hleaving, List.mem_cons]
      exact (or_iff_right hid).symm
    simp [view, hmem, Queued, write, hid]

/-- What `unregister` does to what a row sees. -/
def View.unregister (v : View) (s₀ : Nat) : View :=
  { v with
    seen := Function.update v.seen s₀ (v.inflight s₀)
    leaving := Function.update v.leaving s₀ (v.inflight s₀)
    registered := Function.update v.registered s₀ false }

theorem view_unregister (h : σ.step E (.unregister s₀) = some τ) :
    σ.registered s₀ = true ∧ τ.view id = (σ.view id).unregister s₀ := by
  have hmem : ∀ f : Nat → List Nat, (fun s => id ∈ Function.update f s₀ (σ.inflight s₀) s)
      = Function.update (fun s => id ∈ f s) s₀ (id ∈ σ.inflight s₀) := fun f =>
    funext fun s => Function.apply_update (fun _ l => id ∈ l) f s₀ (σ.inflight s₀) s
  obtain ⟨_, hstep⟩ := stepped h
  cases hstep with
  | unregister _ hreg =>
    refine ⟨hreg, ?_⟩
    unfold view View.unregister
    simp only [hmem]
    rfl

/-! ## Following a row -/

namespace View

/-- The row is pending and nobody's. -/
def GivenBack (v : View) : Prop := v.row.status = .pending ∧ v.row.claimedBy = none

/-- No session has the row, or has seen it. -/
def Untouched (v : View) : Prop := ∀ s, ¬ v.inflight s ∧ ¬ v.seen s ∧ ¬ v.leaving s

/-- The row is on a session that answers it or releases it. -/
def Sent (E : PassEnv) (v : View) (s : Nat) : Prop :=
  (∀ s', v.inflight s' ↔ s' = s) ∧ (∀ s', v.leaving s' → s' = s) ∧ v.row.claimedBy = some (E.name s) ∧
    (v.registered s = true ∨ v.leaving s)

/-- **Where a row is, as long as nothing has gone wrong with it**, by the stage of the loop body. -/
def At (E : PassEnv) (v : View) : Option (Nat × Stage) → Prop
  | some (s, .bound) => ¬ v.queued ∧ v.row.claimedBy = some (E.name s) ∧ v.Untouched
  | some (s, .recorded dup) => ¬ v.queued ∧ dup = false ∧ (∀ s', v.inflight s' ↔ s' = s) ∧
      (∀ s', v.leaving s' → s' = s ∧ v.seen s) ∧
      ((v.row.claimedBy = some (E.name s) ∧ (v.seen s → v.leaving s)) ∨ (v.GivenBack ∧ v.seen s))
  | some (s, .full) => ¬ v.queued ∧ (∀ s', ¬ v.inflight s') ∧ (∀ s', v.leaving s' → s' = s) ∧
      (v.row.claimedBy = some (E.name s) ∨ v.GivenBack)
  | none => (v.queued ∧ v.row.claimedBy = some E.placeholder ∧ v.Untouched) ∨
      (¬ v.queued ∧ (v.GivenBack ∨ ∃ s, v.Sent E s))

def OnTrack (E : PassEnv) (v : View) : Prop := v.At E v.cur

/-- **What the two accidents leave behind**: a row under the pod's name that no session has, or a row on a session that
    has left and will not release it. -/
structure Lost (E : PassEnv) (v : View) : Prop where
  cur : v.cur = none
  queued : ¬ v.queued
  leaving : ∀ s, ¬ v.leaving s
  left : (v.row.claimedBy = some E.placeholder ∧ ∀ s, ¬ v.inflight s) ∨
    ∃ s, (∀ s', v.inflight s' ↔ s' = s) ∧ v.row.claimedBy = some (E.name s) ∧ v.registered s = false

variable {v : View}

theorem OnTrack.at_stage {c : Option (Nat × Stage)} (h : v.OnTrack E) (hcur : v.cur = c) : v.At E c := hcur ▸ h

theorem OnTrack.of_stage {c : Option (Nat × Stage)} (hcur : v.cur = c) (h : v.At E c) : v.OnTrack E := by
  rw [OnTrack, hcur]
  exact h

theorem leaving_unregister {s : Nat} :
    (v.unregister s₀).leaving s ↔ if s = s₀ then v.inflight s₀ else v.leaving s := by
  simp [View.unregister, Function.update_apply]

theorem seen_unregister {s : Nat} : (v.unregister s₀).seen s ↔ if s = s₀ then v.inflight s₀ else v.seen s := by
  simp [View.unregister, Function.update_apply]

theorem Untouched.unregister (h : v.Untouched) : (v.unregister s₀).Untouched := by
  intro s
  rw [leaving_unregister, seen_unregister]
  refine ⟨(h s).1, ?_, ?_⟩ <;> split
  exacts [(h s₀).1, (h s).2.1, (h s₀).1, (h s).2.2]

theorem OnTrack.unregister (h : v.OnTrack E) : (v.unregister s₀).OnTrack E := by
  have hcur : (v.unregister s₀).cur = v.cur := rfl
  unfold OnTrack at h ⊢
  rw [hcur]
  match v.cur, h with
  | none, .inl ⟨hqueued, hby, hno⟩ => exact .inl ⟨hqueued, hby, hno.unregister⟩
  | none, .inr ⟨hqueued, .inl hback⟩ => exact .inr ⟨hqueued, .inl hback⟩
  | none, .inr ⟨hqueued, .inr ⟨s, hin, hleaving, hby, hknown⟩⟩ =>
    refine .inr ⟨hqueued, .inr ⟨s, hin, fun s' => ?_, hby, ?_⟩⟩
    · rw [leaving_unregister]
      have := hleaving s'
      grind
    · rw [leaving_unregister]
      show Function.update v.registered s₀ false s = true ∨ _
      rw [Function.update_apply]
      grind
  | some (s, .bound), ⟨hqueued, hby, hno⟩ => exact ⟨hqueued, hby, hno.unregister⟩
  | some (s, .recorded dup), ⟨hqueued, hdup, hin, hleaving, hrow⟩ =>
    -- the copy is taken of the session the row is on, or has nothing to do with the row
    refine ⟨hqueued, hdup, hin, fun s' => ?_, ?_⟩
    · have := hleaving s'
      simp only [leaving_unregister, seen_unregister]
      grind
    · have := hleaving s
      simp only [leaving_unregister, seen_unregister]
      change (v.row.claimedBy = _ ∧ _) ∨ (v.GivenBack ∧ _)
      grind
  | some (s, .full), ⟨hqueued, hin, hleaving, hrow⟩ =>
    refine ⟨hqueued, hin, fun s' => ?_, hrow⟩
    rw [leaving_unregister]
    split
    · exact fun hs' => absurd hs' (hin s₀)
    · exact hleaving s'

/-- The session that left is not the one that is leaving now. -/
theorem Lost.unregister (h : v.Lost E) (hreg : v.registered s₀ = true) : (v.unregister s₀).Lost E := by
  rcases h.left with ⟨hby, hin⟩ | ⟨s, hin, hby, hgone⟩
  · refine ⟨h.cur, h.queued, fun s' => ?_, .inl ⟨hby, hin⟩⟩
    rw [leaving_unregister]
    split
    exacts [hin s₀, h.leaving s']
  · have hne : s ≠ s₀ := by
      rintro rfl
      cases hgone.symm.trans hreg
    refine ⟨h.cur, h.queued, fun s' => ?_, .inr ⟨s, hin, hby, ?_⟩⟩
    · rw [leaving_unregister, hin]
      split
      exacts [Ne.symm hne, h.leaving s']
    · exact (Function.update_of_ne hne ..).trans hgone

end View

open View

theorem givenBack_releaseRow (h : (σ.jobs id).claimedBy = some name ∨ σ.GivenBack id)
    (hrow : τ.jobs id = (σ.jobs id).releaseRow now name reason) : τ.GivenBack id := by
  unfold Pass.GivenBack
  rw [hrow]
  rcases h with h | h
  · unfold Row.releaseRow
    rw [if_pos h]
    exact ⟨rfl, rfl⟩
  · rw [Row.releaseRow_of_ne (by simp [h.2])]
    exact h

/-- A row that the loop is done with. -/
theorem onTrack_of_passed (hcur : σ.cur = none) (hqueued : ¬ σ.Queued id)
    (h : σ.GivenBack id ∨ ∃ s, (σ.view id).Sent E s) : (σ.view id).OnTrack E :=
  .of_stage (view_cur_none hcur) (.inr ⟨hqueued, h⟩)

/-- The row that the loop has just taken is not queued any more. -/
theorem not_queued_of_take (hnodup : (σ.todo.map Prod.fst).Nodup) (htodo : σ.todo = (id, jobName) :: rest) :
    id ∉ rest.map Prod.fst := by
  rw [htodo, List.map_cons, List.nodup_cons] at hnodup
  exact hnodup.1

/-- The row that the loop takes. -/
theorem onTrack_head (h : (σ.view id).OnTrack E) (hcur : σ.cur = none) (htodo : σ.todo = (id, jobName) :: rest) :
    (σ.jobs id).claimedBy = some E.placeholder ∧ (σ.view id).Untouched := by
  rcases h.at_stage (view_cur_none hcur) with h | h
  · exact h.2
  · exact absurd (show σ.Queued id by simp [Queued, htodo]) h.1

/-- `unregister` releases a row. -/
theorem onTrack_release {rest : List Nat} (hleft : σ.leaving s₀ = id :: rest) (ht : (σ.view id).OnTrack E) :
    (view { σ.write id (Row.releaseRow σ.now (E.name s₀) "stream_closed") with
      leaving := Function.update σ.leaving s₀ rest } id).OnTrack E := by
  have hmem : id ∈ σ.leaving s₀ := by
    rw [hleft]
    exact List.mem_cons_self
  have hsub : ∀ s', id ∈ Function.update σ.leaving s₀ rest s' → id ∈ σ.leaving s' := by
    intro s' hs'
    by_cases hs : s' = s₀
    · rw [hs]
      exact hmem
    · rwa [Function.update_of_ne hs] at hs'
  have hback : (σ.jobs id).claimedBy = some (E.name s₀) ∨ σ.GivenBack id → Pass.GivenBack
      { σ.write id (Row.releaseRow σ.now (E.name s₀) "stream_closed") with
        leaving := Function.update σ.leaving s₀ rest } id :=
    fun h => givenBack_releaseRow h (jobs_write_self _)
  unfold OnTrack at ht ⊢
  change At E _ (σ.view id).cur
  match (σ.view id).cur, ht with
  | none, .inl ⟨_, _, hno⟩ | some (_, .bound), ⟨_, _, hno⟩ => exact absurd hmem (hno s₀).2.2
  | none, .inr ⟨hqueued, .inl h⟩ => exact .inr ⟨hqueued, .inl (hback (.inr h))⟩
  | none, .inr ⟨hqueued, .inr ⟨s, _, hleaving, hby, _⟩⟩ =>
    obtain rfl := hleaving s₀ hmem
    exact .inr ⟨hqueued, .inl (hback (.inl hby))⟩
  | some (s, .recorded dup), ⟨hqueued, hdup, hin, hleaving, hrow⟩ =>
    obtain ⟨rfl, hsaw⟩ := hleaving s₀ hmem
    exact ⟨hqueued, hdup, hin, fun s' hs' => hleaving s' (hsub s' hs'),
      .inr ⟨hback (hrow.imp And.left And.left), hsaw⟩⟩
  | some (s, .full), ⟨hqueued, hin, hleaving, hrow⟩ =>
    obtain rfl := hleaving s₀ hmem
    exact ⟨hqueued, hin, fun s' hs' => hleaving s' (hsub s' hs'), .inr (hback hrow)⟩

/-- **A sound step keeps a row on track.** -/
theorem OnTrack.step (hnodup : (σ.todo.map Prod.fst).Nodup) (h : σ.step E a = some τ) (hsound : σ.Sound E a)
    (ht : (σ.view id).OnTrack E) : (τ.view id).OnTrack E := by
  by_cases hun : ∃ s, a = .unregister s
  · obtain ⟨s, rfl⟩ := hun
    rw [(view_unregister h).2]
    exact ht.unregister
  obtain ⟨row, hstep⟩ := stepped h
  by_cases hact : row ≠ some id
  · rw [view_of_step hstep hact fun s hs => hun ⟨s, hs⟩]
    exact ht
  obtain rfl := not_not.mp hact
  cases hstep with
  | noSession _ jobName rest hcur htodo =>
    obtain ⟨hby, -⟩ := onTrack_head ht hcur htodo
    exact onTrack_of_passed hcur (not_queued_of_take hnodup htodo) (.inl (givenBack_releaseRow (.inl hby) (jobs_write_self _)))
  | reject s ir _ jobName rest hcur htodo =>
    obtain ⟨hby, -⟩ := onTrack_head ht hcur htodo
    rw [← show E.name s = E.placeholder from hsound] at hby
    exact onTrack_of_passed hcur (not_queued_of_take hnodup htodo) (.inl (givenBack_releaseRow (.inl hby) (jobs_write_self _)))
  | bind s ir _ jobName rest hcur htodo _ =>
    refine .of_stage (view_cur_of_eq rfl) ⟨not_queued_of_take hnodup htodo, ?_, (onTrack_head ht hcur htodo).2⟩
    rw [view, jobs_write_self]
    rfl
  | extend perJob _ s hcur =>
    obtain ⟨hqueued, hby, hno⟩ := ht.at_stage (view_cur_of_eq hcur)
    refine .of_stage (view_cur_of_eq hcur) ⟨hqueued, ?_, hno⟩
    rw [view, jobs_write_self, Row.claimedBy_extendLease]
    exact hby
  | record _ s hcur =>
    obtain ⟨hqueued, hby, hno⟩ := ht.at_stage (view_cur_of_eq hcur)
    have hin : ∀ s, id ∉ σ.inflight s := fun s => (hno s).1
    rw [decide_eq_false (hin s), if_neg (hin s)]
    refine .of_stage (view_cur_of_eq rfl) ⟨hqueued, rfl, fun s' => ?_, fun s' hs' => absurd hs' (hno s').2.2,
      .inl ⟨hby, fun hsaw => absurd hsaw (hno s).2.1⟩⟩
    show id ∈ Function.update σ.inflight s (id :: σ.inflight s) s' ↔ s' = s
    by_cases hs : s' = s
    · rw [hs, Function.update_self]
      exact iff_of_true List.mem_cons_self rfl
    · rw [Function.update_of_ne hs]
      exact iff_of_false (hin s') hs
  | send _ s dup hcur =>
    obtain ⟨hqueued, -, hin, hleaving, hrow⟩ := ht.at_stage (view_cur_of_eq hcur)
    refine onTrack_of_passed rfl hqueued ?_
    rcases hrow with ⟨hby, himp⟩ | ⟨hback, -⟩
    · exact .inr ⟨s, hin, fun s' hs' => (hleaving s' hs').1, hby, (hsound _ hcur).imp_right himp⟩
    · exact .inl hback
  | outboxFull _ s dup hcur =>
    obtain ⟨hqueued, rfl, hin, hleaving, hrow⟩ := ht.at_stage (view_cur_of_eq hcur)
    refine .of_stage (view_cur_of_eq rfl) ⟨hqueued, fun s' => ?_, fun s' hs' => (hleaving s' hs').1,
      hrow.imp And.left And.left⟩
    show id ∉ Function.update σ.inflight s ((σ.inflight s).filter (· ≠ id)) s'
    by_cases hs : s' = s
    · rw [hs, Function.update_self]
      simp
    · rw [Function.update_of_ne hs]
      exact fun hmem => hs ((hin s').mp hmem)
  | giveBack _ s hcur =>
    obtain ⟨hqueued, -, -, hrow⟩ := ht.at_stage (view_cur_of_eq hcur)
    exact onTrack_of_passed rfl hqueued (.inl (givenBack_releaseRow hrow (jobs_write_self _)))
  | release s _ rest hleft =>
    exact onTrack_release hleft ht

/-! ## Lost rows stay lost -/

/-- No step is about a lost row. -/
theorem Lost.not_actedOn (h : Stepped E σ (some id) a τ) : ¬ (σ.view id).Lost E := by
  intro hl
  cases h with
  | noSession _ jobName rest _ htodo | reject s ir _ jobName rest _ htodo | bind s ir _ jobName rest _ htodo _ =>
    exact hl.queued (show σ.Queued id by simp [Queued, htodo])
  | extend perJob _ s hcur | record _ s hcur | giveBack _ s hcur | send _ s dup hcur | outboxFull _ s dup hcur =>
    cases hl.cur.symm.trans (view_cur_of_eq hcur)
  | release s _ rest hleaving => exact hl.leaving s (show id ∈ σ.leaving s by simp [hleaving])

/-- **Nobody finds a lost row.** -/
theorem Lost.step (h : σ.step E a = some τ) (hl : (σ.view id).Lost E) : (τ.view id).Lost E := by
  by_cases hun : ∃ s, a = .unregister s
  · obtain ⟨s₀, rfl⟩ := hun
    obtain ⟨hreg, hview⟩ := view_unregister h
    rw [hview]
    exact hl.unregister hreg
  · obtain ⟨row, hstep⟩ := stepped h
    rw [view_of_step hstep (fun hrow => Lost.not_actedOn (hrow ▸ hstep) hl) fun s hs => hun ⟨s, hs⟩]
    exact hl

/-! ## Whole passes -/

/-- What holds of a pass over the rows `claimed` while no step has been unsound. -/
structure Good (E : PassEnv) (claimed : List Nat) (σ : Pass) : Prop where
  nodup : (σ.todo.map Prod.fst).Nodup
  queued : ∀ id, σ.Queued id → id ∈ claimed
  cur : ∀ r, σ.cur = some r → r.id ∈ claimed
  onTrack : ∀ id ∈ claimed, (σ.view id).OnTrack E

/-- The work that is left is part of the work that was left. -/
theorem todo_step (h : σ.step E a = some τ) :
    τ.todo.Sublist σ.todo ∧ ∀ r, τ.cur = some r → σ.Queued r.id ∨ ∃ c, σ.cur = some c ∧ c.id = r.id := by
  have hkeep : ∀ r, σ.cur = some r → σ.Queued r.id ∨ ∃ c, σ.cur = some c ∧ c.id = r.id :=
    fun r hr => .inr ⟨r, hr, rfl⟩
  obtain ⟨_, hstep⟩ := stepped h
  cases hstep with
  | tick | extend | unregister | release => exact ⟨List.Sublist.refl _, hkeep⟩
  | noSession i jobName rest hcur htodo | reject s ir i jobName rest hcur htodo =>
    rw [htodo]
    exact ⟨List.sublist_cons_self .., hkeep⟩
  | bind s ir i jobName rest hcur htodo _ =>
    unfold Queued
    rw [htodo]
    refine ⟨List.sublist_cons_self .., fun r hr => .inl ?_⟩
    rw [← Option.some.inj hr]
    exact List.mem_cons_self
  | record i s hcur | outboxFull i s dup hcur =>
    refine ⟨List.Sublist.refl _, fun r hr => .inr ⟨_, hcur, ?_⟩⟩
    rw [← Option.some.inj hr]
  | send | giveBack => exact ⟨List.Sublist.refl _, fun r hr => by cases hr⟩

theorem Good.step (hg : Good E claimed σ) (hsound : σ.Sound E a) (h : σ.step E a = some τ) : Good E claimed τ where
  nodup := hg.nodup.sublist ((todo_step h).1.map Prod.fst)
  queued id hid := hg.queued id (((todo_step h).1.map Prod.fst).subset hid)
  cur r hr := by
    rcases (todo_step h).2 r hr with hq | ⟨c, hc, hid⟩
    · exact hg.queued _ hq
    · rw [← hid]
      exact hg.cur c hc
  onTrack id hid := OnTrack.step hg.nodup h hsound (hg.onTrack id hid)

/-- **The first step that is not sound loses its row.** -/
theorem Good.fall (hg : Good E claimed σ) (hsound : ¬ σ.Sound E a) (h : σ.step E a = some τ) :
    ∃ id ∈ claimed, (τ.view id).Lost E := by
  obtain ⟨_, hstep⟩ := stepped h
  cases hstep with
  | reject s ir i jobName rest hcur htodo =>
    have hi := hg.queued i (by simp [Queued, htodo])
    obtain ⟨hby, hno⟩ := onTrack_head (hg.onTrack i hi) hcur htodo
    refine ⟨i, hi, view_cur_none hcur, not_queued_of_take hg.nodup htodo, fun s => (hno s).2.2, .inl ⟨?_, fun s => (hno s).1⟩⟩
    -- the guard names the session, the row has the pod's name
    have hne : (σ.jobs i).claimedBy ≠ some (E.name s) := by
      rw [hby]
      exact fun heq => hsound (Option.some.inj heq).symm
    rw [view, jobs_write_self, Row.releaseRow_of_ne hne]
    exact hby
  | send i s dup hcur =>
    have hi : i ∈ claimed := hg.cur _ hcur
    obtain ⟨hqueued, -, hin, hleaving, hrow⟩ := (hg.onTrack i hi).at_stage (view_cur_of_eq hcur)
    have hgone : σ.registered s ≠ true ∧ i ∉ σ.seen s := by
      refine not_or.mp fun hor => hsound fun r hr => ?_
      cases hcur.symm.trans hr
      exact hor
    have hby : (σ.jobs i).claimedBy = some (E.name s) := by
      rcases hrow with ⟨hby, -⟩ | ⟨-, hsaw⟩
      · exact hby
      · exact absurd hsaw hgone.2
    exact ⟨i, hi, view_cur_none rfl, hqueued, fun s' hs' => hgone.2 (hleaving s' hs').2,
      .inr ⟨s, hin, hby, Bool.eq_false_iff.mpr hgone.1⟩⟩
  | _ => exact absurd trivial hsound

/-- A pass and the sessions that leave during it. -/
def machine (E : PassEnv) : Machine Pass PassAct where
  initial := Started E
  step := step E

theorem Started.good (h : Started E σ) : Good E (σ.todo.map Prod.fst) σ where
  nodup := h.nodup
  queued _ hid := hid
  cur r hr := by
    rw [h.cur] at hr
    cases hr
  onTrack id hid := .of_stage (view_cur_none h.cur) (.inl ⟨hid, (h.claimed id hid).2, h.fresh id hid⟩)

theorem OnTrack.placed (h : (σ.view id).OnTrack E) (hf : σ.Finished) : Placed E σ id := by
  rcases h.at_stage (view_cur_none hf.cur) with ⟨hqueued, _⟩ | ⟨_, hback | ⟨s, hin, _, hby, hknown⟩⟩
  · have hqueued : σ.Queued id := hqueued
    unfold Queued at hqueued
    rw [hf.todo] at hqueued
    cases hqueued
  · exact .inl hback
  · refine .inr ⟨s, hin, hknown.resolve_right fun hmem => ?_, hby⟩
    have hmem : id ∈ σ.leaving s := hmem
    rw [hf.leaving s] at hmem
    cases hmem

theorem Lost.not_placed (h : (σ.view id).Lost E) : ¬ Placed E σ id := by
  rintro (hback | ⟨s, hin, hreg, _⟩)
  · rcases h.left with ⟨hby, _⟩ | ⟨_, _, hby, _⟩ <;> cases hback.2.symm.trans hby
  · rcases h.left with ⟨_, hno⟩ | ⟨s', hin', _, hleft⟩
    · exact hno s ((hin s).mpr rfl)
    · obtain rfl := (hin' s).mp ((hin s).mpr rfl)
      cases hleft.symm.trans hreg

/-- **Every claimed row is placed or given back exactly when every step was sound**: for every pass that starts with
    rows that no session has, every interleaving with sessions that leave, and every finished end of it. -/
theorem placed_iff_sound {σ₀ : Pass} {as : List PassAct} (hstart : Started E σ₀)
    (hrun : (machine E).run σ₀ as = some τ) (hfinished : τ.Finished) :
    (∀ id, σ₀.Queued id → Placed E τ id) ↔ (machine E).Along (Sound E) σ₀ as := by
  have hend := Machine.along_or_trapped (m := machine E) (G := Good E (σ₀.todo.map Prod.fst))
    (B := fun σ => ∃ id ∈ σ₀.todo.map Prod.fst, (σ.view id).Lost E) (fun _ _ _ hg hsound h => hg.step hsound h)
    (fun _ _ _ hg hsound h => hg.fall hsound h) (fun _ _ _ ⟨id, hid, hl⟩ h => ⟨id, hid, Lost.step h hl⟩) hstart.good hrun
  rcases hend with ⟨halong, hg⟩ | ⟨halong, id, hid, hl⟩
  · exact iff_of_true (fun id hid => OnTrack.placed (hg.onTrack id hid) hfinished) halong
  · exact iff_of_false (fun hall => Lost.not_placed hl (hall id hid)) halong

/-! ## Three passes over one row -/

def mailPass : PassEnv where
  cfg := ⟨fun _ => "worker", fun _ => "server", fun _ => "session"⟩
  pod := 0
  targets := [0]
  jobNames _ := ["app.Mail"]
  caller _ := "shop"
  aliases _ := []

def mailClaimed : Pass where
  now := 0
  jobs _ := Row.claim 0 mailPass.placeholder 1000 .dispatched "server"
    { queue := "default", jobName := "app.Mail", maxRetries := 3, scheduledFor := 0 }
  registered _ := true
  inflight _ := []
  slots _ := 1
  todo := [(7, "app.Mail")]

private theorem mailClaimed_started : Started mailPass mailClaimed where
  nodup := List.nodup_singleton 7
  cur := rfl
  claimed _ _ := ⟨rfl, rfl⟩
  fresh _ _ _ := ⟨List.not_mem_nil, List.not_mem_nil, List.not_mem_nil⟩

/-- A finished pass from a clean start, at whose end the claimed row has the given claimant and is neither placed nor
    given back. -/
def LeavesRow (E : PassEnv) (start : Pass) (as : List PassAct) (id : Nat) (claimant : String) : Prop :=
  Started E start ∧ start.Queued id ∧ ∃ τ, (machine E).run start as = some τ ∧ τ.Finished ∧
    (τ.jobs id).status = .running ∧ (τ.jobs id).claimedBy = some claimant ∧ ¬ Placed E τ id

/-- **Two ways to lose a row.** The job has become another caller's since the session opened: the row is released under
    the session's name and stays with the pod. And the session leaves between the bind and the bookkeeping: the row is
    in flight on a session that is gone. -/
theorem claimed_row_left_behind :
    LeavesRow mailPass mailClaimed [.reject 0 [⟨"app.Mail", "billing"⟩]] 7 "dispatcher/server" ∧
    LeavesRow mailPass mailClaimed [.bind 0 none, .unregister 0, .record, .send] 7 "dispatcher/session" := by
  have hqueued : mailClaimed.Queued 7 := List.mem_cons_self
  constructor
  · refine ⟨mailClaimed_started, hqueued, _, rfl, ⟨rfl, rfl, fun _ => rfl⟩, rfl, rfl, ?_⟩
    exact Lost.not_placed ⟨rfl, List.not_mem_nil, fun _ => List.not_mem_nil, .inl ⟨rfl, fun _ => List.not_mem_nil⟩⟩
  · have hleaving : ∀ s, Function.update (fun _ => []) 0 [] s = ([] : List Nat) := fun s =>
      congrFun (Function.update_eq_self 0 fun _ => []) s
    refine ⟨mailClaimed_started, hqueued, _, rfl, ⟨rfl, rfl, hleaving⟩, rfl, rfl, ?_⟩
    refine Lost.not_placed ⟨rfl, List.not_mem_nil, fun s hs => ?_, .inr ⟨0, fun s => ?_, rfl, rfl⟩⟩
    · have hs : 7 ∈ Function.update (fun _ => []) 0 ([] : List Nat) s := hs
      rw [hleaving] at hs
      cases hs
    · show 7 ∈ Function.update (fun _ => []) 0 [7] s ↔ s = 0
      by_cases hs : s = 0
      · rw [hs, Function.update_self]
        exact iff_of_true List.mem_cons_self rfl
      · rw [Function.update_of_ne hs]
        exact iff_of_false List.not_mem_nil hs

/-- The session leaves after the bookkeeping: it sees the row and releases it. -/
theorem row_released_by_leaving_session : ∃ τ,
    (machine mailPass).run mailClaimed [.bind 0 none, .record, .unregister 0, .send, .release 0] = some τ ∧
    τ.Finished ∧ Placed mailPass τ 7 := by
  obtain ⟨τ, hrun, hfinished⟩ : ∃ τ,
      (machine mailPass).run mailClaimed [.bind 0 none, .record, .unregister 0, .send, .release 0] = some τ ∧ τ.Finished :=
    ⟨_, rfl, rfl, rfl, fun s => by simp [mailClaimed, write, Function.update_apply]⟩
  -- the row is sent after the session has left, but the session has seen it
  have halong : (machine mailPass).Along (Sound mailPass) mailClaimed
      [.bind 0 none, .record, .unregister 0, .send, .release 0] := by
    refine .cons trivial rfl <| .cons trivial rfl <| .cons trivial rfl <| .cons ?_ rfl <| .cons trivial rfl trivial
    rintro r ⟨⟩
    exact .inr (show 7 ∈ [7] from List.mem_cons_self)
  exact ⟨τ, hrun, hfinished, (placed_iff_sound mailClaimed_started hrun hfinished).mpr halong 7 List.mem_cons_self⟩

end Pass

end Atlantis.Jobs
