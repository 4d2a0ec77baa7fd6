import Atlantis.Jobs.Pass

/-!
# `Jobs.Revoked` — sessions that lose a permission

A session is let in when the checkpoint of the moment permits it all the jobs it names (`CheckWorkerAuthz`); later
schemas may take a permission back. `drainOnce` checks again before it binds a row, with the checkpoint it loads for
that row. Between the claim and this check a schema may be applied, and the load may fail: `WorkerSession` refuses the
session then, `drainOnce` goes on without the check.

So a row may be sent on the strength of a permission that is gone. `permitted_of_checked`: **where every row is checked,
against the checkpoint of its claim, only permitted rows are sent.**
-/

namespace Atlantis.Jobs

open Lib

/-- A dispatcher that drains a queue, pass after pass, while sessions open and schemas are applied. -/
structure Gate where
  opened : List Nat := []
  /-- The jobs of the checkpoint. -/
  checkpoint : List JobDecl := []
  /-- … and of the checkpoint at the claim of the pass. -/
  atClaim : List JobDecl := []
  targets : List Nat := []
  pass : Pass
  /-- The job of the row the loop body is at, and whether the IR could be loaded for it. -/
  job : String := ""
  loaded : Bool := true

inductive GateAct where
  | apply (jobs : List JobDecl)
  | open_ (s : Nat)
  /-- The next pass, as it finds the database and the sessions. -/
  | claim (targets : List Nat) (pass : Pass)
  | act (a : PassAct)

/-- The IR that a step has loaded. -/
def PassAct.ir : PassAct → Option (List JobDecl)
  | .reject _ ir => some ir
  | .bind _ ir => ir
  | _ => none

namespace Gate

variable (E : PassEnv)

/-- The caller of a session may handle a job. -/
def permits (s : Nat) (jobName : String) (jobs : List JobDecl) : Bool :=
  checkSingleAuthz (E.caller s) (E.aliases s) jobName jobs

/-- What the loop body keeps of the row it takes. -/
def note (g : Gate) : PassAct → Gate
  | .bind _ ir => { g with job := (g.pass.todo.head?.map Prod.snd).getD "", loaded := ir.isSome }
  | _ => g

def step (g : Gate) : GateAct → Option Gate
  | .apply jobs => some { g with checkpoint := jobs }
  | .open_ s =>
    if (E.jobNames s).all fun name => permits E s name g.checkpoint then some { g with opened := s :: g.opened } else none
  | .claim targets pass =>
    if g.pass.cur = none ∧ g.pass.todo = [] ∧ pass.cur = none ∧ targets ⊆ g.opened then
      some { g with targets, pass, atClaim := g.checkpoint }
    else none
  | .act a =>
    if ∀ ir ∈ a.ir, ir = g.checkpoint then
      (g.pass.step { E with targets := g.targets } a).map fun pass => { g.note a with pass }
    else none

def machine : Machine Gate GateAct where
  initial g := g.pass.cur = none
  step := step E

/-- The row the loop body is at has been checked, and the checkpoint of its claim permits it to its session. -/
def Sound (g : Gate) : Prop := ∀ r, g.pass.cur = some r → g.loaded = true ∧ permits E r.session g.job g.atClaim = true

/-- **Only such rows are sent.** -/
def Permitted (g : Gate) (a : GateAct) : Prop := a = .act .send → g.Sound E

/-- The IR is loaded for the row, and it is the one of the claim. -/
def Checked (g : Gate) : GateAct → Prop
  | .act (.bind _ ir) => ir.isSome ∧ g.checkpoint = g.atClaim
  | _ => True

variable {E} {g g' : Gate} {a : GateAct}

theorem Sound.step (hg : g.Sound E) (hok : g.Checked a) (h : g.step E a = some g') : g'.Sound E := by
  cases a with
  | apply jobs =>
    cases h
    exact hg
  | open_ s =>
    obtain ⟨_, h⟩ := Option.ite_none_right_eq_some.mp h
    cases h
    exact hg
  | claim targets pass =>
    obtain ⟨⟨_, _, hcur, _⟩, h⟩ := Option.ite_none_right_eq_some.mp h
    cases h
    intro r hr
    cases hcur.symm.trans hr
  | act a =>
    obtain ⟨hir, h⟩ := Option.ite_none_right_eq_some.mp h
    obtain ⟨τ, hstep, rfl⟩ := Option.map_eq_some_iff.mp h
    obtain ⟨_, hstep⟩ := Pass.stepped hstep
    cases hstep with
    | tick | extend | unregister | release | noSession | reject => exact hg
    | bind s ir i jobName rest _ htodo hchecked =>
      -- the row that is taken is checked against the checkpoint of its claim
      obtain ⟨hsome, hsame⟩ := hok
      obtain ⟨jobs, rfl⟩ := Option.isSome_iff_exists.mp hsome
      intro r hr
      cases hr
      refine ⟨rfl, ?_⟩
      show permits E s ((g.pass.todo.head?.map Prod.snd).getD "") g.atClaim = true
      rw [htodo, ← hsame, ← hir jobs rfl]
      exact hchecked jobs rfl
    | record i s hcur | outboxFull i s dup hcur =>
      intro r hr
      cases hr
      have hsound := hg _ hcur
      exact hsound
    | send | giveBack =>
      intro r hr
      cases hr

/-- **Only permitted rows are sent** in runs in which the IR can be loaded for every row that is bound, and is the one of
    the claim. -/
theorem permitted_of_checked (h : (machine E).Reach Checked g) : g.Permitted E a := by
  intro _
  refine h.invariant (I := Sound E) (fun g hinit r hr => ?_) fun g a g' hg hok hstep => hg.step hok hstep
  cases hinit.symm.trans hr

/-- **A revoked permission**: a session of `shop` is let in while everybody may handle mail. Mail is for `billing` now,
    but the IR cannot be loaded, and the row goes to `shop`. -/
theorem revoked_row_sent : ∃ g, (machine Pass.mailPass).run { pass := { Pass.mailClaimed with todo := [] } }
      [.apply [⟨"app.Mail", "*"⟩], .open_ 0, .apply [⟨"app.Mail", "billing"⟩], .claim [0] Pass.mailClaimed,
        .act (.bind 0 none), .act .record] = some g ∧
    (g.step Pass.mailPass (.act .send)).isSome ∧ ¬ g.Permitted Pass.mailPass (.act .send) :=
  ⟨_, rfl, rfl, fun h => absurd (h rfl _ rfl).2 (by decide)⟩

/-- The permission is still there, and the IR is loaded. -/
theorem permitted_of_checked_mail : ∃ g, (machine Pass.mailPass).Reach Checked g ∧
    (g.step Pass.mailPass (.act .send)).isSome ∧ g.Permitted Pass.mailPass (.act .send) := by
  have halong : (machine Pass.mailPass).Along Checked { pass := { Pass.mailClaimed with todo := [] } }
      [.apply [⟨"app.Mail", "*"⟩], .open_ 0, .claim [0] Pass.mailClaimed, .act (.bind 0 (some [⟨"app.Mail", "*"⟩])),
        .act .record] :=
    .cons trivial rfl <| .cons trivial rfl <| .cons trivial rfl <| .cons ⟨rfl, rfl⟩ rfl <| .cons trivial rfl trivial
  have hreach := Machine.reach_of_run (.initial rfl) halong rfl
  exact ⟨_, hreach, rfl, permitted_of_checked hreach⟩

end Gate

end Atlantis.Jobs
