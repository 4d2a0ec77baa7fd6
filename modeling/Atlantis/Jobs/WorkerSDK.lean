import Atlantis.Lib.Machine

/-!
# `Jobs.WorkerSDK` — the worker at the other end of a session

`DispatchedWorker` (`clients/go/jobs/dispatched_worker.go`): what its handlers do while envelopes come in, and when its
loop around streams ends.

A handler is tracked under its job, with a generation, from the dispatch that starts it; a second dispatch of a tracked job
is ignored. A revoke takes the job off the map at once, whether or not the handler heeds the cancellation, so the next
dispatch starts a second handler beside the first. **Handlers exclude each other exactly as long as no job comes back
before its handler is gone** (`handlers_exclude_iff`).

`runRecv` returns `nil` for `EOF`, for `Canceled` and for a `Goodbye`, and to `Run` that means to stop. **`Run` outlives
its streams exactly if none ends so** (`run_outlives_iff`).
-/

namespace Atlantis.Jobs

open Lib

/-! ## Handlers -/

/-- A handler goroutine: its job and the generation it is tracked under. -/
structure Handler where
  jobID : Nat
  gen : Nat
  deriving DecidableEq, Repr

/-- The worker. `latest` is the generation of the handler that was last started for a job. -/
structure SDK where
  inflight : Nat → Option Nat := fun _ => none
  inflightGen : Nat := 0
  running : List Handler := []
  /-- Handlers that have reported and not yet untracked their job. -/
  reported : List Handler := []
  latest : Nat → Option Nat := fun _ => none

inductive SDKAct where
  /-- A dispatch, of a job name that is registered or not. -/
  | dispatch (jobID : Nat) (registered : Bool)
  | revoke (jobID : Nat)
  /-- The handler returns or panics, and `Complete` or `Fail` is sent. -/
  | report (h : Handler)
  | untrack (h : Handler)
  deriving DecidableEq, Repr

namespace SDK

/-- The part of `handleDispatch` that starts a handler. -/
def start (w : SDK) (jobID : Nat) : SDK :=
  let gen := w.inflightGen + 1
  { w with
    inflight := Function.update w.inflight jobID (some gen)
    inflightGen := gen
    running := ⟨jobID, gen⟩ :: w.running
    latest := Function.update w.latest jobID (some gen) }

/-- `handleDispatch`, `handleRevoke`, and the two ends of a handler goroutine. -/
def step (w : SDK) : SDKAct → Option SDK
  | .dispatch jobID registered =>
    -- without a handler a `Fail` is sent; a duplicate is only acknowledged
    if registered = true ∧ w.inflight jobID = none then some (w.start jobID) else some w
  | .revoke jobID => some { w with inflight := Function.update w.inflight jobID none }
  | .report h =>
    if h ∈ w.running then some { w with running := w.running.erase h, reported := h :: w.reported } else none
  | .untrack h =>
    if h ∈ w.reported then
      some { w with
        inflight := if w.inflight h.jobID = some h.gen then Function.update w.inflight h.jobID none else w.inflight
        reported := w.reported.erase h }
    else none

/-- **At most one handler runs for a job, and it is the one that was started last.** Only handlers that run report. -/
structure Exclusive (w : SDK) : Prop where
  single : (w.running.map Handler.jobID).Nodup
  latest : ∀ h ∈ w.running, w.latest h.jobID = some h.gen

/-- A dispatch that starts a handler finds none of its job. -/
def StartsAlone (w : SDK) : SDKAct → Prop
  | .dispatch jobID registered =>
    registered = true → w.inflight jobID = none → jobID ∉ w.running.map Handler.jobID
  | _ => True

end SDK

/-- The worker, from the moment it is made. -/
def sdkMachine : Machine SDK SDKAct := ⟨(· = {}), SDK.step⟩

theorem SDK.exclusive_step {w w' : SDK} {a : SDKAct} (hw : w.Exclusive) (h : w.step a = some w') :
    w'.Exclusive ↔ w.StartsAlone a := by
  cases a with
  | dispatch jobID registered =>
    simp only [step] at h
    split at h
    case isFalse hno =>
      cases h
      exact ⟨fun _ hreg hnone => absurd ⟨hreg, hnone⟩ hno, fun _ => hw⟩
    case isTrue hstart =>
      cases h
      constructor
      · intro hexcl _ _
        exact (List.nodup_cons.mp hexcl.single).1
      · intro halone
        have hnot := halone hstart.1 hstart.2
        refine ⟨List.nodup_cons.mpr ⟨hnot, hw.single⟩, fun h hh => ?_⟩
        rcases List.mem_cons.mp hh with rfl | hh
        · exact Function.update_self ..
        · have hne : h.jobID ≠ jobID := fun heq => hnot (heq ▸ List.mem_map_of_mem hh)
          exact (Function.update_of_ne hne ..).trans (hw.latest h hh)
  | revoke jobID =>
    cases h
    exact ⟨fun _ => trivial, fun _ => ⟨hw.single, hw.latest⟩⟩
  | report h₀ =>
    simp only [step] at h
    split at h
    case isFalse => cases h
    case isTrue hmem =>
      cases h
      refine ⟨fun _ => trivial, fun _ => ⟨?_, fun h hh => hw.latest h (List.mem_of_mem_erase hh)⟩⟩
      exact hw.single.sublist (List.erase_sublist.map _)
  | untrack h₀ =>
    simp only [step] at h
    split at h
    case isFalse => cases h
    case isTrue =>
      cases h
      exact ⟨fun _ => trivial, fun _ => ⟨hw.single, hw.latest⟩⟩

/-- **No job has two handlers, and none reports late, exactly if no job comes back before its handler is gone.** -/
theorem handlers_exclude_iff {as : List SDKAct} {w : SDK} (h : sdkMachine.run {} as = some w) :
    sdkMachine.Throughout SDK.Exclusive {} as ↔ sdkMachine.Along SDK.StartsAlone {} as :=
  Machine.throughout_iff_along (fun _ hs => hs) (fun _ _ _ hs _ hstep => iff_def.mp (SDK.exclusive_step hs hstep))
    ⟨List.nodup_nil, fun _ hh => by cases hh⟩ h (Machine.along_of_forall fun _ _ => trivial)

/-- A job that is dispatched twice, revoked, and dispatched again once its handler has reported. -/
theorem handlers_exclude_revoked : sdkMachine.Throughout SDK.Exclusive {} [.dispatch 7 true, .dispatch 8 true, .dispatch 7 true,
    .revoke 7, .report ⟨7, 1⟩, .dispatch 7 true, .untrack ⟨7, 1⟩, .dispatch 7 true, .report ⟨7, 3⟩, .untrack ⟨7, 3⟩] :=
  (handlers_exclude_iff rfl).mpr (by simp [Machine.Along, SDK.StartsAlone, sdkMachine, SDK.step, SDK.start])

/-- A handler that ignores the revoke meets its successor, and reports after it. -/
theorem handler_outlives_revoke :
    ∃ w, sdkMachine.run {} [.dispatch 7 true, .revoke 7, .dispatch 7 true] = some w ∧ w.running = [⟨7, 2⟩, ⟨7, 1⟩] ∧
      ¬ w.Exclusive := by
  refine ⟨_, rfl, rfl, fun h => ?_⟩
  cases h.latest ⟨7, 1⟩ (by decide)

/-! ## Streams -/

/-- How a call on the stream fails. -/
inductive StreamError where
  | eof
  /-- The status `Canceled`. -/
  | canceled
  /-- `context.Canceled`. -/
  | contextCanceled
  | other
  deriving DecidableEq, Repr

/-- Where `Run` stands. -/
inductive RunPhase where
  | top | receiving | waiting | returned
  deriving DecidableEq, Repr

structure RunState where
  cancelled : Bool := false
  phase : RunPhase := .top
  deriving DecidableEq, Repr

inductive RunAct where
  /-- The context is cancelled. -/
  | cancel
  /-- A pass of the loop up to `SessionAccepted`, which may fail on the way. -/
  | connect (failure : Option StreamError)
  /-- `runRecv` gets an envelope other than a `Goodbye`. -/
  | envelope
  | goodbye
  | recvFails (err : StreamError)
  /-- The backoff is over. -/
  | timer
  /-- The context is done before it. -/
  | ctxDone
  deriving DecidableEq, Repr

/-- `Run` after `runOnce` has returned the error: `context.Canceled` ends it too. -/
def RunState.failed (s : RunState) (err : StreamError) : RunState :=
  { s with phase := if err = .contextCanceled then .returned else .waiting }

/-- A step of `Run`, with `runOnce` and `runRecv`. -/
def RunState.step (s : RunState) : RunAct → Option RunState
  | .cancel => some { s with cancelled := true }
  | .connect failure =>
    if s.phase ≠ .top then none
    else if s.cancelled then some { s with phase := .returned }
    else
      match failure with
      | none => some { s with phase := .receiving }
      | some err => some (s.failed err)
  | .envelope =>
    if s.phase ≠ .receiving then none
    else some (if s.cancelled then s.failed .contextCanceled else s)
  | .goodbye => if s.phase ≠ .receiving then none else some { s with phase := .returned }
  | .recvFails err =>
    if s.phase ≠ .receiving then none
    else some (if err = .eof ∨ err = .canceled then { s with phase := .returned } else s.failed err)
  | .timer => if s.phase ≠ .waiting then none else some { s with phase := .top }
  | .ctxDone => if s.phase ≠ .waiting ∨ s.cancelled = false then none else some { s with phase := .returned }

/-- `Run` has returned only if it was told to. -/
def RunState.Told (s : RunState) : Prop := s.phase = .returned → s.cancelled = true

/-- While its context lives, no stream ends in one of the ways that are taken for the end of the worker. -/
def RunState.Reconnects (s : RunState) : RunAct → Prop
  | .connect (some err) => s.cancelled = false → err ≠ .contextCanceled
  | .goodbye => s.cancelled = true
  | .recvFails err => s.cancelled = false → err = .other
  | _ => True

/-- `Run`. -/
def runMachine : Machine RunState RunAct := ⟨(· = {}), RunState.step⟩

theorem RunState.told_step {s t : RunState} {a : RunAct} (hs : s.Told) (h : s.step a = some t) :
    t.Told ↔ s.Reconnects a := by
  obtain ⟨cancelled, phase⟩ := s
  cases a with
  | cancel =>
    cases h
    exact ⟨fun _ => trivial, fun _ _ => rfl⟩
  | connect failure =>
    cases phase <;> simp [step] at h
    cases cancelled with
    | true =>
      cases h
      cases failure <;> simp [Told, Reconnects]
    | false =>
      cases failure with
      | none =>
        cases h
        simp [Told, Reconnects]
      | some err =>
        cases h
        cases err <;> simp [Told, Reconnects, failed]
  | envelope =>
    cases phase <;> simp [step] at h
    cases cancelled <;> cases h <;> simp [Told, Reconnects, failed]
  | goodbye =>
    cases phase <;> simp [step] at h
    cases h
    simp [Told, Reconnects]
  | recvFails err =>
    cases phase <;> simp [step] at h
    cases err <;> cases h <;> simp [Told, Reconnects, failed]
  | timer =>
    cases phase <;> simp [step] at h
    cases h
    simp [Told, Reconnects]
  | ctxDone =>
    cases phase <;> simp [step] at h
    obtain ⟨rfl, rfl⟩ := h
    simp [Told, Reconnects]

/-- **`Run` returns only when told to exactly if, until then, every stream ends with an error of another kind.** -/
theorem run_outlives_iff {as : List RunAct} {s : RunState} (h : runMachine.run {} as = some s) :
    runMachine.Throughout RunState.Told {} as ↔ runMachine.Along RunState.Reconnects {} as :=
  Machine.throughout_iff_along (fun _ hs => hs) (fun _ _ _ hs _ hstep => iff_def.mp (RunState.told_step hs hstep))
    (fun h => by cases h) h (Machine.along_of_forall fun _ _ => trivial)

theorem run_outlives_error : runMachine.Throughout RunState.Told {} [.connect none, .recvFails .other, .timer, .connect none] :=
  (run_outlives_iff rfl).mpr ⟨trivial, fun _ _ => ⟨fun _ => rfl, fun _ _ => ⟨trivial, fun _ _ => ⟨trivial, fun _ _ => trivial⟩⟩⟩⟩

/-- The server's `Goodbye`, as it says before a deployment, ends the worker. -/
theorem run_ends_with_server :
    ∃ s, runMachine.run {} [.connect none, .goodbye] = some s ∧ s.phase = .returned ∧ s.cancelled = false :=
  ⟨_, rfl, rfl, rfl⟩

end Atlantis.Jobs
