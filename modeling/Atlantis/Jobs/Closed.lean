import Atlantis.Jobs.System

/-!
# `Jobs.Closed` — what still reaches a closed session

`session.close` (`internal/server/jobsdispatcher/session.go`) closes `closeCh`, and only the sender listens to it. The
drain loop goes by the registry and the `drained` flag, and the receive loop of `WorkerSession` (`grpc.go`) goes on
until the stream ends. So a session that was closed because its outbox was full is given rows by the next pass, and
a session that was evicted still completes the rows it was evicted with (`closed_session_works_on`).

`Jobs.System` follows one row; here the sessions of the dispatcher are added to it: whether they are in the registry,
drained, closed, and what each drain loop found when its pass began. **As long as sessions are closed only when they
are drained and have nothing in flight, a closed session gets no more work** (`closed_gets_no_work`). A session that
is out of the registry may be closed at any time: its receive loop is over.
-/

namespace Atlantis.Jobs

open Lib

/-- The dispatcher around one row. -/
structure Dispatcher where
  sys : Sys
  /-- In `sessionsByQueue`; the receive loop of the session runs until it leaves. -/
  registered : Nat → Bool := fun _ => false
  drained : Nat → Bool := fun _ => false
  /-- `closeCh` is closed. -/
  closed : Nat → Bool := fun _ => false
  /-- The sessions in `perSessSlot`, for the pass of each drain loop. A pass claims the row at most once, so what it
      takes from the slots on the way is for other rows. -/
  picked : Nat → Nat → Bool := fun _ _ => false
  /-- Which sessions were closed when the pass began. -/
  before : Nat → Nat → Bool := fun _ _ => false
  /-- The row is in `leasePendingCh`; true if the Heartbeat that put it there came after the close. -/
  bump : Nat → Option Bool := fun _ => none
  /-- The failure that is being written is that of a Fail envelope which came after the close. -/
  lateFail : Nat → Bool := fun _ => false

inductive DispatcherAct where
  /-- What happens to the row. -/
  | job (a : Act)
  /-- `register`, of a session with an id of its own. -/
  | register (s : Nat)
  /-- `drainOnce` begins: `free` are the sessions of its queue with less in flight than `maxInFlight`. -/
  | begin (p : Nat) (free : Nat → Bool)
  /-- `handleAck`: the flag is in the in-flight map. -/
  | ack (s : Nat)
  /-- `handleHeartbeat`, up to the queue of the lease processor. -/
  | heartbeat (s : Nat)
  /-- `markDrained`, by `DrainSession`, `EvictSession` or `Shutdown`. -/
  | drain (s : Nat)
  /-- `close`: a send failed, a drain ended or ran too long, `EvictSession` (which releases rows afterwards), the
      shutdown budget is over. -/
  | close (s : Nat)
  /-- `unregister`, when the receive loop has returned. -/
  | unregister (s : Nat)

namespace Dispatcher

/-- What the step on the row asks of the dispatcher. -/
def allows (σ : Dispatcher) : Act → Bool
  | .podBind p s | .podReject p s => σ.picked p s
  | .sessionComplete s | .sessionFail s _ _ => σ.registered s
  | .sessionExtend s _ => (σ.bump s).isSome
  | _ => true

/-- What the dispatcher does about it. -/
def after (σ : Dispatcher) : Act → Dispatcher
  | .podOutboxFull _ s => { σ with closed := Function.update σ.closed s true }
  | .sessionExtend s _ => { σ with bump := Function.update σ.bump s none }
  | .sessionFail s _ _ => { σ with lateFail := Function.update σ.lateFail s (σ.closed s) }
  | .sessionRevoke s _ _ => { σ with lateFail := Function.update σ.lateFail s false }
  | _ => σ

/-- One step. -/
def step (cfg : Config) (σ : Dispatcher) : DispatcherAct → Option Dispatcher
  | .job a => if σ.allows a then (σ.sys.step cfg a).map fun t => { σ.after a with sys := t } else none
  | .register s =>
    if σ.registered s || σ.closed s then none else some { σ with registered := Function.update σ.registered s true }
  | .begin p free =>
    if σ.sys.holds (.pod p) = none then
      some { σ with
        picked := Function.update σ.picked p fun s => σ.registered s && !σ.drained s && free s
        before := Function.update σ.before p σ.closed }
    else none
  | .ack s => if σ.registered s then some σ else none
  | .heartbeat s =>
    if σ.registered s && (σ.sys.holds (.session s)).isSome then
      some { σ with bump := Function.update σ.bump s (some ((σ.bump s).getD (σ.closed s))) }
    else none
  | .drain s => some { σ with drained := Function.update σ.drained s true }
  | .close s => some { σ with closed := Function.update σ.closed s true }
  | .unregister s =>
    some { σ with registered := Function.update σ.registered s false, closed := Function.update σ.closed s true }

/-- From an enqueued row and no session. -/
def machine (cfg : Config) : Machine Dispatcher DispatcherAct where
  initial σ := ∃ sys, sys.Enqueued ∧ σ = { sys }
  step := step cfg

/-- **A closed session gets no work by this step**: a pass that began after the close assigns it no row, and no
    envelope that came after the close changes the row. -/
def Spared (σ τ : Dispatcher) : DispatcherAct → Prop
  | .job (.podBind p s) => σ.before p s = false
  | .ack s | .heartbeat s | .job (.sessionComplete s) => σ.closed s = true → τ.sys.store = σ.sys.store
  | .job (.sessionExtend s _) => σ.bump s = some true → τ.sys.store = σ.sys.store
  | .job (.sessionFail s _ _) => σ.closed s = true → τ.sys.store = σ.sys.store
  | .job (.sessionReport s _) => σ.lateFail s = true → τ.sys.store = σ.sys.store
  | _ => True

end Dispatcher

/-! ## Who has the row -/

/-- The row is on session `s`, or a drain loop is about to put it there. -/
def Sys.On (σ : Sys) (s : Nat) : Prop := ∃ p x, σ.holds p = some x ∧ (p = .session s ∨ x.phase = .bound s)

namespace Sys

variable {cfg : Config} {σ τ : Sys} {s : Nat}

theorem On.of_put {p : Proc} {x : Option Hold} {store : Store} (h : (σ.put p x store).On s)
    (hx : ∀ y, x = some y → p = .session s ∨ y.phase = .bound s → σ.On s) : σ.On s := by
  obtain ⟨q, y, hy, hon⟩ := h
  rcases update_eq_some hy with ⟨rfl, hv⟩ | hy
  · exact hx y hv hon
  · exact ⟨q, y, hy, hon⟩

/-- A process that had the row keeps it or puts it down, without binding it. -/
theorem On.of_held {p : Proc} {x : Hold} {y : Option Hold} {store : Store} (h : (σ.put p y store).On s)
    (hx : σ.holds p = some x) (hy : ∀ z, y = some z → ∀ s, z.phase = .bound s → x.phase = .bound s) : σ.On s :=
  h.of_put fun z hz hon => ⟨p, x, hx, hon.imp_right (hy z hz s)⟩

/-- Another process than the session takes the row, without binding it to the session. -/
theorem On.of_taken {p : Proc} {x : Hold} {store : Store} (h : (σ.put p (some x) store).On s) (hp : p ≠ .session s)
    (hx : x.phase ≠ .bound s) : σ.On s := by
  refine h.of_put fun y hy hon => ?_
  cases hy
  exact absurd hon (not_or.mpr ⟨hp, hx⟩)

/-- **A session comes to the row by being bound to it.** -/
theorem on_step {a : Act} (h : σ.step cfg a = some τ) (hon : τ.On s) : σ.On s ∨ ∃ p, a = .podBind p s := by
  cases a with
  | tick d =>
    cases h
    exact .inl hon
  | workerClaim w budget | podClaim p jobNames budget =>
    obtain ⟨r, -, -, -, rfl⟩ := claimBy_eq_some h
    exact .inl (hon.of_taken nofun nofun)
  | podBind p s' =>
    by_cases hs : s' = s
    · exact .inr ⟨p, by rw [hs]⟩
    · obtain ⟨x, hx, -, rfl⟩ := bind_phase h
      exact .inl (hon.of_taken nofun fun heq => hs (Phase.bound.inj heq))
  | podDispatch p s' =>
    obtain ⟨x, hx, hphase, rfl⟩ := bind_phase h
    by_cases hs : s' = s
    · exact .inl ⟨.pod p, x, hx, .inr (hs ▸ hphase)⟩
    · have hput : ((σ.put (.pod p) none σ.store).put (.session s') (some { x with phase := .inflight }) σ.store).On s :=
        hon
      exact .inl ((hput.of_taken (fun heq => hs (Proc.session.inj heq)) nofun).of_held hx nofun)
  | workerExtend w | workerComplete w | workerFail w | workerMissing w | crash p =>
    obtain ⟨x, hx, rfl⟩ := map_hold h
    exact .inl (hon.of_held hx (by rintro _ ⟨⟩ s <;> exact id))
  | podRelease p | podReject p | podExtend p | podOutboxFull p | sessionExtend s' | sessionComplete s'
  | sessionAckTimeout s' | sessionRelease s' =>
    obtain ⟨x, hx, -, rfl⟩ := bind_phase h
    exact .inl (hon.of_held hx (by rintro _ ⟨⟩ s <;> exact id))
  | sessionFail s' =>
    obtain ⟨x, hx, -, rfl⟩ := bind_phase h
    exact .inl (hon.of_held hx (by rintro _ ⟨⟩ s ⟨⟩))
  | sessionRevoke s' =>
    obtain ⟨x, hx, -, ⟨found, -, rfl⟩ | ⟨-, rfl⟩⟩ := step_sessionRevoke h
    · exact .inl (hon.of_held hx (by rintro _ ⟨⟩ s ⟨⟩))
    · exact .inl (hon.of_held hx nofun)
  | sessionReport s' =>
    obtain ⟨x, _, _, _, hx, -, rfl⟩ := step_sessionReport h
    exact .inl (hon.of_held hx nofun)
  | sweep =>
    obtain ⟨r, -, rfl⟩ := Option.map_eq_some_iff.mp h
    exact .inl hon

end Sys

/-! ## Closing idle sessions -/

/-- The session a step closes while its receive loop may still run. -/
def DispatcherAct.closes : DispatcherAct → Option Nat
  | .close s | .job (.podOutboxFull _ s) => some s
  | _ => none

namespace Dispatcher

variable {cfg : Config} {σ τ : Dispatcher} {a : DispatcherAct} {s : Nat}

/-- The session has nothing to do with the row, and no pass under way may pick it. -/
def Idle (σ : Dispatcher) (s : Nat) : Prop := (∀ p, σ.picked p s = false) ∧ ¬ σ.sys.On s

/-- **Sessions in the registry are closed only when they are drained and idle.** -/
def ClosesIdle (σ : Dispatcher) (a : DispatcherAct) : Prop :=
  ∀ s, a.closes = some s → σ.registered s = true → σ.drained s = true ∧ σ.Idle s

/-- What holds as long as they are. -/
structure Settled (σ : Dispatcher) : Prop where
  idle : ∀ s, σ.closed s = true → σ.registered s = true → σ.drained s = true ∧ σ.Idle s
  before : ∀ p s, σ.before p s = true → σ.picked p s = false
  bump : ∀ s, σ.bump s ≠ some true
  lateFail : ∀ s, σ.lateFail s = false

theorem step_job {a : Act} (h : σ.step cfg (.job a) = some τ) :
    σ.allows a = true ∧ ∃ t, σ.sys.step cfg a = some t ∧ τ = { σ.after a with sys := t } := by
  simp only [step, Option.ite_none_right_eq_some, Option.map_eq_some_iff] at h
  obtain ⟨hallows, t, ht, rfl⟩ := h
  exact ⟨hallows, t, ht, rfl⟩

theorem after_keeps (a : Act) : (σ.after a).registered = σ.registered ∧ (σ.after a).drained = σ.drained ∧
    (σ.after a).before = σ.before ∧ (σ.after a).picked = σ.picked := by
  cases a <;> exact ⟨rfl, rfl, rfl, rfl⟩

/-- A session with the row in hand whose receive loop runs is not closed. -/
theorem Settled.not_closed (hset : σ.Settled) (hreg : σ.registered s = true) {x : Hold}
    (hx : σ.sys.holds (.session s) = some x) : σ.closed s = false := by
  rw [Bool.eq_false_iff]
  intro hclosed
  exact (hset.idle s hclosed hreg).2.2 ⟨_, x, hx, .inl rfl⟩

theorem Settled.job {a : Act} (hset : σ.Settled) (hok : σ.ClosesIdle (.job a)) (h : σ.step cfg (.job a) = some τ) :
    τ.Settled := by
  obtain ⟨hallows, t, ht, rfl⟩ := step_job h
  obtain ⟨hreg, hdrained, hbefore, hpicked⟩ := @after_keeps σ a
  have hidle : ∀ s, (σ.after a).closed s = true → σ.registered s = true → σ.drained s = true ∧ σ.Idle s := by
    intro s hclosed hin
    cases a with
    | podOutboxFull p s' =>
      by_cases hs : s = s'
      · exact hok s (congrArg some hs.symm) hin
      · exact hset.idle s (by simpa [after, hs] using hclosed) hin
    | _ => exact hset.idle s hclosed hin
  refine ⟨fun s hclosed hin => ?_, ?_, fun s => ?_, fun s => ?_⟩
  · obtain ⟨hdr, hpick, hon⟩ := hidle s hclosed (hreg ▸ hin)
    refine ⟨hdrained ▸ hdr, hpicked ▸ hpick, fun hon' => ?_⟩
    -- a session that is not picked is not bound
    rcases Sys.on_step ht hon' with hbefore | ⟨p, rfl⟩
    · exact hon hbefore
    · cases (hpick p).symm.trans hallows
  · show ∀ p s, (σ.after a).before p s = true → (σ.after a).picked p s = false
    rw [hbefore, hpicked]
    exact hset.before
  · cases a with
    | sessionExtend s' =>
      simp only [after, Function.update_apply]
      split_ifs
      · nofun
      · exact hset.bump s
    | _ => exact hset.bump s
  · cases a with
    | sessionFail s' =>
      obtain ⟨x, hx, -, -⟩ := Sys.bind_phase ht
      simp only [after, Function.update_apply]
      split_ifs
      · exact hset.not_closed hallows hx
      · exact hset.lateFail s
    | sessionRevoke s' =>
      simp only [after, Function.update_apply]
      split_ifs
      · rfl
      · exact hset.lateFail s
    | _ => exact hset.lateFail s

/-- **Closing only idle sessions keeps every closed session out of the way.** -/
theorem Settled.step (hset : σ.Settled) (hok : σ.ClosesIdle a) (h : σ.step cfg a = some τ) : τ.Settled := by
  cases a with
  | job a => exact hset.job hok h
  | register s' =>
    simp only [Dispatcher.step, Option.ite_none_left_eq_some, Bool.or_eq_true, not_or, Option.some.injEq] at h
    obtain ⟨⟨-, hopen⟩, rfl⟩ := h
    refine { hset with idle := fun s hclosed hreg => ?_ }
    have hs : s ≠ s' := fun heq => hopen (heq ▸ hclosed)
    exact hset.idle s hclosed (by simpa [hs] using hreg)
  | begin p free =>
    simp only [Dispatcher.step, Option.ite_none_right_eq_some, Option.some.injEq] at h
    obtain ⟨-, rfl⟩ := h
    have hnone : ∀ s, σ.closed s = true → (σ.registered s && !σ.drained s && free s) = false := by
      intro s hclosed
      by_cases hreg : σ.registered s = true
      · simp [(hset.idle s hclosed hreg).1]
      · simp [hreg]
    refine { hset with idle := fun s hclosed hreg => ?_, before := fun q s hq => ?_ }
    · obtain ⟨hdrained, hpicked, hon⟩ := hset.idle s hclosed hreg
      refine ⟨hdrained, fun q => ?_, hon⟩
      simp only [Function.update_apply]
      split_ifs
      · exact hnone s hclosed
      · exact hpicked q
    · simp only [Function.update_apply] at hq ⊢
      split_ifs at hq ⊢
      · exact hnone s hq
      · exact hset.before q s hq
  | ack s' =>
    simp only [Dispatcher.step, Option.ite_none_right_eq_some, Option.some.injEq] at h
    exact h.2 ▸ hset
  | heartbeat s' =>
    simp only [Dispatcher.step, Option.ite_none_right_eq_some, Option.some.injEq, Bool.and_eq_true] at h
    obtain ⟨⟨hreg, hx⟩, rfl⟩ := h
    obtain ⟨x, hx⟩ := Option.isSome_iff_exists.mp hx
    refine { hset with bump := fun s => ?_ }
    simp only [Function.update_apply, hset.not_closed hreg hx]
    split_ifs
    · have hbump := hset.bump s'
      cases hb : σ.bump s' <;> simp_all
    · exact hset.bump s
  | drain s' =>
    cases h
    refine { hset with idle := fun s hclosed hreg => ⟨?_, (hset.idle s hclosed hreg).2⟩ }
    simp [Function.update_apply, (hset.idle s hclosed hreg).1]
  | close s' =>
    cases h
    refine { hset with idle := fun s hclosed hreg => ?_ }
    by_cases hs : s = s'
    · exact hok s (congrArg some hs.symm) hreg
    · exact hset.idle s (by simpa [hs] using hclosed) hreg
  | unregister s' =>
    cases h
    refine { hset with idle := fun s hclosed hreg => ?_ }
    have hs : s ≠ s' := by
      rintro rfl
      simp at hreg
    exact hset.idle s (by simpa [hs] using hclosed) (by simpa [hs] using hreg)

/-- **A closed session gets no more work**, in every run that has closed sessions only when they were drained and had
    nothing in flight. -/
theorem closed_gets_no_work (hreach : (machine cfg).Reach ClosesIdle σ) (h : (machine cfg).step σ a = some τ) :
    Spared σ τ a := by
  have hset : σ.Settled := by
    refine hreach.invariant ?_ fun σ a τ hset hok h => hset.step hok h
    rintro σ ⟨sys, -, rfl⟩
    exact ⟨nofun, nofun, nofun, fun _ => rfl⟩
  cases a with
  | job a =>
    obtain ⟨hallows, t, ht, rfl⟩ := step_job h
    cases a with
    | podBind p s =>
      show σ.before p s = false
      rw [Bool.eq_false_iff]
      intro hbefore
      cases (hset.before p s hbefore).symm.trans hallows
    | sessionComplete s =>
      obtain ⟨x, hx, -, -⟩ := Sys.bind_phase ht
      exact fun hclosed => absurd hclosed (by simp [hset.not_closed hallows hx])
    | sessionExtend s => exact fun hbump => absurd hbump (hset.bump s)
    | sessionReport s => exact fun hlate => absurd hlate (by simp [hset.lateFail s])
    | sessionFail s =>
      obtain ⟨x, -, -, rfl⟩ := Sys.bind_phase ht
      exact fun _ => rfl
    | _ => trivial
  | ack s | heartbeat s =>
    simp only [machine, step, Option.ite_none_right_eq_some, Option.some.injEq] at h
    exact fun _ => h.2 ▸ rfl
  | _ => trivial

/-! ## Closing busy sessions -/

private def mailPods : Config := ⟨fun _ => "worker", fun _ => "server", fun s => if s = 0 then "first" else "second"⟩

private def mailQueued : Dispatcher where
  sys := { now := 0, store := { live := some { queue := "default", jobName := "app.Mail", maxRetries := 3, scheduledFor := 0 } } }

/-- A pass that sends the row to session 0. -/
private def assignMail : List DispatcherAct :=
  [.begin 0 fun _ => true, .job (.podClaim 0 ["app.Mail"] 1000), .job (.podBind 0 0)]

/-- Session 0 does not take the row and is closed; the next pass claims the row again. -/
private def afterOverflow : List DispatcherAct :=
  .register 0 :: assignMail ++ [.job (.podOutboxFull 0 0), .begin 0 fun _ => true, .job (.podClaim 0 ["app.Mail"] 1000)]

/-- Session 0 takes the row and is evicted, and the row is given back. -/
private def afterEviction : List DispatcherAct :=
  .register 0 :: assignMail ++ [.job (.podDispatch 0 0), .drain 0, .close 0, .job (.sessionRelease 0 "evicted")]

/-- A run from the queued mail leads to where the step takes the mail to a closed session. -/
private def Unspared (as : List DispatcherAct) (a : DispatcherAct) : Prop :=
  ∃ σ τ, (machine mailPods).run mailQueued as = some σ ∧ σ.closed 0 = true ∧ (machine mailPods).step σ a = some τ ∧
    ¬ Spared σ τ a

/-- **A closed session works on.** After its outbox was full it is assigned the same row by the next pass, and after
    its eviction it completes the row that was given back. -/
theorem closed_session_works_on : (machine mailPods).initial mailQueued ∧
    Unspared afterOverflow (.job (.podBind 0 0)) ∧ Unspared afterEviction (.job (.sessionComplete 0)) := by
  refine ⟨⟨_, ⟨⟨_, rfl, rfl, rfl, rfl, rfl⟩, fun _ => rfl, rfl⟩, rfl⟩, ⟨_, _, rfl, rfl, rfl, ?_⟩, ⟨_, _, rfl, rfl, rfl, ?_⟩⟩
  · exact Bool.noConfusion
  · intro h
    have hstatus := congrArg (fun s => s.live.map Row.status) (h rfl)
    cases hstatus

/-- Session 0 is drained and closed while it has nothing to do; the next pass sends the row to the other session. -/
theorem closed_gets_no_work_drained : ∃ σ τ, (machine mailPods).Reach ClosesIdle σ ∧ σ.closed 0 = true ∧
    (machine mailPods).step σ (.job (.podBind 0 1)) = some τ ∧ Spared σ τ (.job (.podBind 0 1)) := by
  have hopen := ((((Machine.Reach.initial ⟨_, ⟨⟨_, rfl, rfl, rfl, rfl, rfl⟩, fun _ => rfl, rfl⟩, rfl⟩ :
    (machine mailPods).Reach ClosesIdle mailQueued).next (.register 0) nofun rfl).next (.register 1) nofun rfl).next
    (.drain 0) nofun rfl)
  have hclosed := hopen.next (.close 0) (by
    rintro s ⟨⟩ -
    refine ⟨rfl, fun _ => rfl, ?_⟩
    rintro ⟨p, x, ⟨⟩, -⟩) rfl
  have hclaimed := (hclosed.next (.begin 0 fun _ => true) nofun rfl).next (.job (.podClaim 0 ["app.Mail"] 1000)) nofun rfl
  exact ⟨_, _, hclaimed, rfl, rfl, closed_gets_no_work hclaimed rfl⟩

end Dispatcher

end Atlantis.Jobs
