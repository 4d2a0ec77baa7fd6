import Atlantis.Lib.Machine

/-!
# `Server.SchemaListener` — hot reload of the served schema

`internal/server/entity/listen.go` and the part of `register.go` it drives. The server builds a snapshot of the
checkpoint when it starts; from then on a trigger on `ir_checkpoint` notifies the listener of every write, and the
listener reloads. Applies, the session and the reload interleave freely here, and a notification that is sent while no
session listens is lost.

While a session lasts nothing is missed (`Covered.step`): the last notification in the queue is the one of the current
checkpoint, and a reload that has read an older one finds a later notification behind it. The hash that a reload is
skipped on is never the empty one a server starts with. What is missing is a look at the checkpoint when a session
begins. The outbox worker, whose pattern this is, drains before it listens and polls on a timer; `listenSession` waits
for the first notification. So the server catches up in exactly the runs in which no session begins behind
(`catchesUp_iff`).
-/

namespace Atlantis.Server

open Lib

/-- What the listener takes from the rest of the system: the IR of a fresh database, the digest in `content_hash`, and
    `buildSnapshot`. The digest is that of the IR's canonical JSON, in hex. -/
structure Schemas (ρ β : Type) where
  empty : ρ
  contentHash : ρ → String
  buildSnapshot : ρ → Except String β
  contentHash_inj : ∀ ir ir', contentHash ir = contentHash ir' → ir = ir'
  contentHash_ne : ∀ ir, contentHash ir ≠ ""

/-- How a read of the checkpoint goes. -/
inductive ReadOutcome where
  | read | queryFailed | decodeFailed
  deriving DecidableEq, Repr

/-- `entitySnapshot`: what was built, and the hash it was built under. -/
structure Snapshot (β : Type) where
  built : β
  contentHash : String
  deriving DecidableEq, Repr

/-- Where the listener's goroutine is. -/
inductive ListenerPhase (ρ : Type) where
  | waiting
  | loading
  | rebuilding (ir : ρ) (contentHash : String)
  deriving DecidableEq, Repr

/-- The checkpoint row, the served snapshot, the session with its notifications, and the goroutine. -/
structure ServedSchema (ρ β : Type) where
  checkpoint : Option ρ
  served : Snapshot β
  listening : Bool
  pending : List String
  phase : ListenerPhase ρ
  deriving DecidableEq, Repr

inductive SchemaAction (ρ : Type) where
  /-- An apply commits a checkpoint, and the trigger's notification with it. -/
  | commit (ir : ρ)
  | listen
  /-- The session is lost, whatever the goroutine is doing. -/
  | drop
  | receive
  | load (outcome : ReadOutcome)
  | rebuild
  deriving DecidableEq, Repr

section Session

variable {ρ β : Type} (cs : Schemas ρ β)

/-- The IR of the checkpoint, or of a database that has none. -/
def Schemas.current (checkpoint : Option ρ) : ρ := checkpoint.getD cs.empty

/-- `loadIRCheckpoint`. A query that fails reads like a database without a checkpoint. -/
def Schemas.loadIRCheckpoint (checkpoint : Option ρ) : ReadOutcome → Except String (ρ × String)
  | .read => .ok (cs.current checkpoint, (checkpoint.map cs.contentHash).getD "")
  | .queryFailed => .ok (cs.empty, "")
  | .decodeFailed => .error "decode"

/-- `Register`: the first snapshot is built without a hash. -/
def Schemas.Register (checkpoint : Option ρ) : Except String (ServedSchema ρ β) := do
  let built ← cs.buildSnapshot (cs.current checkpoint)
  pure ⟨checkpoint, ⟨built, ""⟩, false, [], .waiting⟩

/-- `Reload`. -/
def Schemas.Reload (served : Snapshot β) (ir : ρ) (contentHash : String) : Snapshot β :=
  match cs.buildSnapshot ir with
  | .ok built => ⟨built, contentHash⟩
  | .error _ => served

def Schemas.step (s : ServedSchema ρ β) : SchemaAction ρ → Option (ServedSchema ρ β)
  | .commit ir =>
    some { s with
      checkpoint := some ir
      pending := if s.listening then s.pending ++ [cs.contentHash ir] else s.pending }
  | .listen =>
    match s.listening, s.phase with
    | false, .waiting => some { s with listening := true, pending := [] }
    | _, _ => none
  | .drop => some { s with listening := false, pending := [] }
  | .receive =>
    match s.listening, s.phase, s.pending with
    | true, .waiting, newHash :: pending =>
      some { s with
        pending := pending
        phase := if newHash = s.served.contentHash then .waiting else .loading }
    | _, _, _ => none
  | .load outcome =>
    match s.phase with
    | .loading =>
      match cs.loadIRCheckpoint s.checkpoint outcome with
      | .ok (ir, contentHash) =>
        some { s with
          phase := if contentHash = s.served.contentHash then .waiting else .rebuilding ir contentHash }
      | .error _ => some { s with phase := .waiting }
    | _ => none
  | .rebuild =>
    match s.phase with
    | .rebuilding ir contentHash =>
      some { s with served := cs.Reload s.served ir contentHash, phase := .waiting }
    | _ => none

/-- The server with its listener. -/
def Schemas.machine : Machine (ServedSchema ρ β) (SchemaAction ρ) where
  initial s := ∃ checkpoint, cs.Register checkpoint = .ok s
  step := cs.step

/-- The served snapshot is the one built from the current checkpoint. -/
def Schemas.Fresh (s : ServedSchema ρ β) : Prop := cs.buildSnapshot (cs.current s.checkpoint) = .ok s.served.built

/-- **The served schema has caught up** when nothing is on its way. -/
def Schemas.CaughtUp (s : ServedSchema ρ β) : Prop :=
  s.listening = true → s.pending = [] → s.phase = .waiting → cs.Fresh s

/-- Every load reads the row, and every rebuild succeeds. -/
def Schemas.Succeeds (s : ServedSchema ρ β) : SchemaAction ρ → Prop
  | .load outcome => outcome = .read
  | .rebuild => ∀ ir contentHash, s.phase = .rebuilding ir contentHash → ∃ built, cs.buildSnapshot ir = .ok built
  | _ => True

/-- A session begins only while the served snapshot is that of the current checkpoint. -/
def Schemas.ListensFresh (s : ServedSchema ρ β) : SchemaAction ρ → Prop
  | .listen => cs.Fresh s
  | _ => True

/-! ## While a session lasts -/

variable {cs} {s t : ServedSchema ρ β} {a : SchemaAction ρ}

/-- **Nothing is missed while a session lasts.** What was served was built from the IR its hash stands for; a reload is
    only under way once there is a row; and as long as a session listens, the last notification in the queue is that of
    the current checkpoint, or the queue is empty and the goroutine is about to serve the current checkpoint. -/
structure Covered (cs : Schemas ρ β) (s : ServedSchema ρ β) : Prop where
  built : s.served.contentHash ≠ "" → ∃ ir, cs.contentHash ir = s.served.contentHash ∧
    cs.buildSnapshot ir = .ok s.served.built
  loading : s.phase = .loading → s.checkpoint.isSome
  rebuilding : ∀ ir contentHash, s.phase = .rebuilding ir contentHash → contentHash = cs.contentHash ir
  queued : s.listening = true → ∀ h : s.pending ≠ [], s.checkpoint.map cs.contentHash = some (s.pending.getLast h)
  waiting : s.listening = true → s.pending = [] → s.phase = .waiting → cs.Fresh s
  newest : s.listening = true → s.pending = [] → ∀ ir contentHash, s.phase = .rebuilding ir contentHash →
    s.checkpoint = some ir

/-- A served hash that is the checkpoint's own. -/
theorem Covered.fresh (h : Covered cs s) {ir : ρ} (hrow : s.checkpoint = some ir)
    (hhash : cs.contentHash ir = s.served.contentHash) : cs.Fresh s := by
  obtain ⟨ir', heq, hbuild⟩ := h.built (hhash ▸ cs.contentHash_ne ir)
  obtain rfl := cs.contentHash_inj _ _ (heq.trans hhash.symm)
  unfold Schemas.Fresh Schemas.current
  rw [hrow]
  exact hbuild

theorem covered_register {checkpoint : Option ρ} (h : cs.Register checkpoint = .ok s) : Covered cs s := by
  unfold Schemas.Register at h
  cases hb : cs.buildSnapshot (cs.current checkpoint) with
  | error e =>
    rw [hb] at h
    cases h
  | ok built =>
    rw [hb] at h
    cases h
    exact ⟨fun hne => absurd rfl hne, nofun, nofun, nofun, nofun, nofun⟩

section Actions

variable (hs : Covered cs s)

include hs

theorem Covered.commit (ir : ρ) : Covered cs { s with
    checkpoint := some ir
    pending := if s.listening then s.pending ++ [cs.contentHash ir] else s.pending } := by
  by_cases hl : s.listening = true
  · rw [if_pos hl]
    have hsome : s.pending ++ [cs.contentHash ir] ≠ [] := List.append_ne_nil_of_right_ne_nil _ (List.cons_ne_nil _ _)
    refine ⟨hs.built, fun _ => rfl, hs.rebuilding, fun _ hne => ?_, fun _ hnil => absurd hnil hsome,
      fun _ hnil => absurd hnil hsome⟩
    show some (cs.contentHash ir) = some ((s.pending ++ [cs.contentHash ir]).getLast hne)
    rw [List.getLast_append_singleton]
  · exact ⟨hs.built, fun _ => rfl, hs.rebuilding, fun h => absurd h hl, fun h => absurd h hl, fun h => absurd h hl⟩

theorem Covered.receive {newHash : String} {pending : List String} (hl : s.listening = true)
    (hq : s.pending = newHash :: pending) : Covered cs { s with
      pending := pending
      phase := if newHash = s.served.contentHash then .waiting else .loading } := by
  have hlast := hs.queued hl (hq ▸ List.cons_ne_nil _ _)
  have hqueued : ∀ hne : pending ≠ [], s.checkpoint.map cs.contentHash = some (pending.getLast hne) := by
    intro hne
    rw [hlast]
    simp only [hq, List.getLast_cons hne]
  split
  · rename_i hsame
    refine ⟨hs.built, nofun, nofun, fun _ => hqueued, fun _ hnil _ => ?_, nofun⟩
    -- the notification that is skipped was the last one
    obtain rfl : pending = [] := hnil
    simp only [hq, List.getLast_singleton] at hlast
    obtain ⟨ir, hrow, hhash⟩ := Option.map_eq_some_iff.mp hlast
    exact hs.fresh hrow (hhash.trans hsame)
  · obtain ⟨ir, hrow, _⟩ := Option.map_eq_some_iff.mp hlast
    exact ⟨hs.built, fun _ => by rw [hrow]; rfl, nofun, fun _ => hqueued, nofun, nofun⟩

theorem Covered.load (hp : s.phase = .loading) : Covered cs { s with
    phase := if (s.checkpoint.map cs.contentHash).getD "" = s.served.contentHash then .waiting
      else .rebuilding (cs.current s.checkpoint) ((s.checkpoint.map cs.contentHash).getD "") } := by
  obtain ⟨ir, hrow⟩ := Option.isSome_iff_exists.mp (hs.loading hp)
  split
  · rename_i hhash
    refine ⟨hs.built, nofun, nofun, hs.queued, fun _ _ _ => ?_, nofun⟩
    rw [hrow] at hhash
    exact hs.fresh hrow hhash
  · refine ⟨hs.built, nofun, fun ir' contentHash hr => ?_, hs.queued, nofun, fun _ _ ir' contentHash hr => ?_⟩
    all_goals
      obtain ⟨rfl, rfl⟩ := ListenerPhase.rebuilding.inj hr
      rw [hrow]
      rfl

theorem Covered.rebuild {ir : ρ} {contentHash : String} {built : β} (hp : s.phase = .rebuilding ir contentHash)
    (hbuild : cs.buildSnapshot ir = .ok built) :
    Covered cs { s with served := cs.Reload s.served ir contentHash, phase := .waiting } := by
  have hreload : cs.Reload s.served ir contentHash = ⟨built, contentHash⟩ := by
    unfold Schemas.Reload
    rw [hbuild]
  rw [hreload]
  refine ⟨fun _ => ⟨ir, (hs.rebuilding ir contentHash hp).symm, hbuild⟩, nofun, nofun, hs.queued, fun hl hnil _ => ?_, nofun⟩
  show cs.buildSnapshot (cs.current s.checkpoint) = .ok built
  rw [hs.newest hl hnil ir contentHash hp]
  exact hbuild

/-- One step keeps the cover, if a session that begins is not behind. -/
theorem Covered.step (hok : cs.Succeeds s a) (hfresh : cs.ListensFresh s a) (hstep : cs.step s a = some t) :
    Covered cs t := by
  cases a with
  | commit ir =>
    cases hstep
    exact hs.commit ir
  | listen =>
    simp only [Schemas.step] at hstep
    split at hstep
    · rename_i hp
      cases hstep
      refine ⟨hs.built, hs.loading, hs.rebuilding, fun _ hne => absurd rfl hne, fun _ _ _ => hfresh,
        fun _ _ ir contentHash hr => ?_⟩
      cases hp.symm.trans hr
    · cases hstep
  | drop =>
    cases hstep
    exact ⟨hs.built, hs.loading, hs.rebuilding, nofun, nofun, nofun⟩
  | receive =>
    simp only [Schemas.step] at hstep
    split at hstep
    · rename_i hl _ hq
      cases hstep
      exact hs.receive hl hq
    · cases hstep
  | load outcome =>
    obtain rfl : outcome = .read := hok
    simp only [Schemas.step] at hstep
    split at hstep
    · rename_i hp
      cases hstep
      exact hs.load hp
    · cases hstep
  | rebuild =>
    simp only [Schemas.step] at hstep
    split at hstep
    · rename_i ir contentHash hp
      cases hstep
      obtain ⟨built, hbuild⟩ := hok ir contentHash hp
      exact hs.rebuild hp hbuild
    · cases hstep

end Actions

/-- **The served schema catches up exactly if no session begins behind**, where loads and rebuilds succeed. -/
theorem catchesUp_iff {as : List (SchemaAction ρ)} (hinit : cs.machine.initial s) (hrun : cs.machine.run s as = some t)
    (hok : cs.machine.Along cs.Succeeds s as) :
    cs.machine.Throughout cs.CaughtUp s as ↔ cs.machine.Along cs.ListensFresh s as := by
  obtain ⟨checkpoint, hreg⟩ := hinit
  refine Machine.throughout_iff_along (I := Covered cs) (fun s hs => hs.waiting) (fun s a t hs hok hstep => ⟨fun hcaught => ?_,
    fun hfresh => hs.step hok hfresh hstep⟩) (covered_register hreg) hrun hok
  -- a session that begins behind shows it at once
  cases a with
  | listen =>
    simp only [Schemas.machine, Schemas.step] at hstep
    split at hstep <;> cases hstep
    exact hcaught rfl rfl ‹_›
  | _ => trivial

end Session

/-! ## A session that begins behind -/

/-- Two schemas, told apart by their hash, each its own snapshot. -/
def twoSchemas : Schemas Bool Bool where
  empty := false
  contentHash ir := if ir then "b" else "a"
  buildSnapshot := .ok
  contentHash_inj := by decide
  contentHash_ne := by decide

/-- The server starts on the first schema and is up to date. -/
def upToDate : ServedSchema Bool Bool := ⟨some false, ⟨false, ""⟩, false, [], .waiting⟩

/-- **Two gaps**: an apply between the start and the first session, and one between two sessions. -/
theorem listener_stays_behind :
    (∃ t, twoSchemas.machine.initial upToDate ∧ twoSchemas.machine.run upToDate [.commit true, .listen] = some t ∧
      twoSchemas.machine.Along twoSchemas.Succeeds upToDate [.commit true, .listen] ∧ ¬ twoSchemas.CaughtUp t) ∧
    ∃ t, twoSchemas.machine.run upToDate [.listen, .drop, .commit true, .listen] = some t ∧
      twoSchemas.machine.Along twoSchemas.Succeeds upToDate [.listen, .drop, .commit true, .listen] ∧
      ¬ twoSchemas.CaughtUp t := by
  have hbehind : ¬ twoSchemas.CaughtUp ⟨some true, ⟨false, ""⟩, true, [], .waiting⟩ := by
    intro hcaught
    have hfresh := hcaught rfl rfl rfl
    cases hfresh
  refine ⟨⟨_, ⟨some false, rfl⟩, rfl, ?_, hbehind⟩, ⟨_, rfl, ?_, hbehind⟩⟩
  · exact ⟨trivial, fun _ _ => ⟨trivial, fun _ _ => trivial⟩⟩
  · exact ⟨trivial, fun _ _ => ⟨trivial, fun _ _ => ⟨trivial, fun _ _ => ⟨trivial, fun _ _ => trivial⟩⟩⟩⟩

/-- An apply that a session hears is served in the end. -/
theorem catchesUp_iff_heard : twoSchemas.machine.Throughout twoSchemas.CaughtUp upToDate
    [.listen, .commit true, .receive, .load .read, .rebuild] := by
  refine (catchesUp_iff ⟨some false, rfl⟩ rfl ?_).mpr ?_
  · exact ⟨trivial, fun _ _ => ⟨trivial, fun _ _ => ⟨trivial, fun _ _ => ⟨rfl, fun _ _ =>
      ⟨fun ir _ _ => ⟨ir, rfl⟩, fun _ _ => trivial⟩⟩⟩⟩⟩
  · exact ⟨rfl, fun _ _ => ⟨trivial, fun _ _ => ⟨trivial, fun _ _ => ⟨trivial, fun _ _ =>
      ⟨trivial, fun _ _ => trivial⟩⟩⟩⟩⟩

end Atlantis.Server
