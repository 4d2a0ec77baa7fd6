import Atlantis.Lib.Machine

/-!
# `Jobs.Slots` — the in-flight map of a session and its counter

`session.go` and the slots of `Dispatcher.drainOnce`, on one session. The map changes under a lock, the counter is an atomic
next to it: `recordDispatch` and `removeInflight` first change the one and then the other, and `recordDispatch` takes back
both when the outbox is full. A queue has one drain loop, so one `recordDispatch` is under way at a time; removals (for a
`Complete`, a `Fail`, or by a sweeper) fall anywhere between its steps. `unregister` only copies the map.

If the entry is removed while its dispatch is still on its way to a full outbox, the counter is set back twice. It then
stays behind the map for good, and the drain loop hands out that many slots too many. Nothing else goes wrong
(`counter_exact_iff`).
-/

namespace Atlantis.Jobs

open Lib

/-- How far the `recordDispatch` under way has come. -/
inductive Recording where
  /-- In the map, not counted. -/
  | inserted (id : Nat)
  /-- Counted unless it was there before; next is the outbox. -/
  | sending (id : Nat) (dup : Bool)
  /-- The outbox was full. -/
  | full (id : Nat)
  /-- Deleted, still counted. -/
  | deleted
  deriving DecidableEq, Repr

structure Slots where
  inflight : List Nat := []
  inflightCounter : Int := 0
  recording : Option Recording := none
  /-- Removals that have not been counted. -/
  removing : Nat := 0
  /-- `perSessSlot` of the pass. -/
  slots : Nat := 0
  deriving DecidableEq, Repr

inductive SlotAct where
  /-- A pass begins, and finds the session drained or not. -/
  | pass (drained : Bool)
  | insert (id : Nat)
  | count
  | send
  | outboxFull
  | delete
  | uncount
  /-- `removeInflight`, under the lock. -/
  | remove (id : Nat)
  /-- And after it. -/
  | discount
  | unregister
  deriving DecidableEq, Repr

namespace Slots

/-- `availableSlots`. -/
def available (maxInFlight : Nat) (s : Slots) (drained : Bool) : Nat :=
  if drained then 0 else (maxInFlight - s.inflightCounter).toNat

/-- One step. -/
def step (maxInFlight : Nat) (s : Slots) : SlotAct → Option Slots
  | .pass drained => if s.recording = none then some { s with slots := s.available maxInFlight drained } else none
  | .insert id =>
    if s.recording = none ∧ 0 < s.slots then
      if id ∈ s.inflight then some { s with recording := some (.sending id true) }
      else some { s with inflight := id :: s.inflight, recording := some (.inserted id) }
    else none
  | .count =>
    match s.recording with
    | some (.inserted id) =>
      some { s with inflightCounter := s.inflightCounter + 1, recording := some (.sending id false) }
    | _ => none
  | .send =>
    match s.recording with
    | some (.sending _ _) => some { s with recording := none, slots := s.slots - 1 }
    | _ => none
  | .outboxFull =>
    match s.recording with
    | some (.sending id dup) => some { s with recording := if dup then none else some (.full id) }
    | _ => none
  | .delete =>
    match s.recording with
    | some (.full id) => some { s with inflight := s.inflight.erase id, recording := some .deleted }
    | _ => none
  | .uncount =>
    match s.recording with
    | some .deleted => some { s with inflightCounter := s.inflightCounter - 1, recording := none }
    | _ => none
  | .remove id =>
    if id ∈ s.inflight then some { s with inflight := s.inflight.erase id, removing := s.removing + 1 } else none
  | .discount =>
    if 0 < s.removing then
      some { s with inflightCounter := s.inflightCounter - 1, removing := s.removing - 1 }
    else none
  | .unregister => some s

/-- No call is under way. -/
def Quiet (s : Slots) : Prop := s.recording = none ∧ s.removing = 0

/-- **The counter is the number of entries, and there are not too many.** -/
def Exact (maxInFlight : Nat) (s : Slots) : Prop :=
  s.inflightCounter = s.inflight.length ∧ 0 ≤ s.inflightCounter ∧ s.inflight.length ≤ maxInFlight

/-- What is taken back is still there. -/
def Finds (s : Slots) : SlotAct → Prop
  | .delete => ∀ id, s.recording = some (.full id) → id ∈ s.inflight
  | _ => True

/-- What the counter lacks, or has too much, because of calls under way. -/
def owed (s : Slots) : Int :=
  (match s.recording with
    | some (.inserted _) => 1
    | some .deleted => -1
    | _ => 0) - s.removing

/-- The entry that a dispatch has added and not yet paid for with a slot. -/
def unpaid (s : Slots) : Nat :=
  match s.recording with
  | some (.inserted _) | some (.sending _ false) | some (.full _) => 1
  | _ => 0

/-- How far the counter is off, apart from calls under way. -/
def balance (s : Slots) : Int := s.inflightCounter + s.owed - s.inflight.length

/-- There are not too many entries, with what the pass may still add. -/
def Within (maxInFlight : Nat) (s : Slots) : Prop :=
  s.inflight.length + s.slots ≤ maxInFlight + s.unpaid ∧ s.unpaid ≤ s.slots

end Slots

/-- The session, from its registration on. -/
def slotMachine (maxInFlight : Nat) : Machine Slots SlotAct := ⟨(· = {}), Slots.step maxInFlight⟩

variable {maxInFlight : Nat} {s t : Slots} {a : SlotAct}

/-- **Only taking back what is gone moves the balance**; and while there is none to settle, the pass keeps within bounds. -/
theorem Slots.balance_step (h : s.step maxInFlight a = some t) :
    s.Finds a ∧ t.balance = s.balance ∧ (s.balance = 0 → s.Within maxInFlight → t.Within maxInFlight) ∨
      ¬ s.Finds a ∧ t.balance = s.balance - 1 := by
  obtain ⟨inflight, counter, recording, removing, slots⟩ := s
  cases a with
  | pass drained =>
    simp only [Slots.step] at h
    split at h
    case isFalse => cases h
    case isTrue hfree =>
      cases h
      cases hfree
      refine .inl ⟨trivial, rfl, ?_⟩
      cases drained <;> simp [balance, owed, Within, unpaid, available] <;> omega
  | insert id =>
    simp only [Slots.step] at h
    split at h
    case isFalse => cases h
    case isTrue hfree =>
      obtain rfl : recording = none := hfree.1
      split at h <;> cases h <;> refine .inl ⟨trivial, ?_, ?_⟩ <;> simp [balance, owed, Within, unpaid] <;> omega
  | count | send | uncount =>
    rcases recording with _ | ⟨id⟩ | ⟨id, _ | _⟩ | ⟨id⟩ | _ <;> cases h <;> refine .inl ⟨trivial, ?_, ?_⟩ <;>
      simp [balance, owed, Within, unpaid] <;> omega
  | outboxFull =>
    rcases recording with _ | ⟨id⟩ | ⟨id, _ | _⟩ | ⟨id⟩ | _ <;> cases h
    · exact .inl ⟨trivial, rfl, fun _ h => h⟩
    · exact .inl ⟨trivial, rfl, fun _ h => h⟩
  | delete =>
    rcases recording with _ | ⟨id⟩ | ⟨id, dup⟩ | ⟨id⟩ | _ <;> cases h
    by_cases hid : id ∈ inflight
    · have hlength := List.length_erase_add_one hid
      refine .inl ⟨fun i hi => ?_, ?_, ?_⟩
      · cases hi
        exact hid
      · simp only [balance, owed]
        omega
      · simp only [Within, unpaid]
        omega
    · refine .inr ⟨fun hfinds => hid (hfinds id rfl), ?_⟩
      rw [List.erase_of_not_mem hid]
      simp only [balance, owed]
      omega
  | remove id =>
    simp only [Slots.step] at h
    split at h
    case isFalse => cases h
    case isTrue hid =>
      cases h
      have hlength := List.length_erase_add_one hid
      refine .inl ⟨trivial, ?_, ?_⟩
      · simp only [balance, owed]
        omega
      · simp only [Within, unpaid]
        omega
  | discount =>
    simp only [Slots.step] at h
    split at h
    case isFalse => cases h
    case isTrue hpos =>
      cases h
      refine .inl ⟨trivial, ?_, fun _ h => h⟩
      simp only [balance, owed]
      omega
  | unregister =>
    cases h
    exact .inl ⟨trivial, rfl, fun _ h => h⟩

/-- **When no call is under way the counter is exact, exactly if every dispatch that met a full outbox found its entry where
    it had put it.** -/
theorem counter_exact_iff {as : List SlotAct} (h : (slotMachine maxInFlight).run {} as = some t) (hquiet : t.Quiet) :
    t.Exact maxInFlight ↔ (slotMachine maxInFlight).Along Slots.Finds {} as := by
  have howed : t.owed = 0 := by simp [Slots.owed, hquiet.1, hquiet.2]
  have hunpaid : t.unpaid = 0 := by simp [Slots.unpaid, hquiet.1]
  have hgood : ∀ (s : Slots) a t, s.balance = 0 ∧ s.Within maxInFlight → s.Finds a →
      s.step maxInFlight a = some t → t.balance = 0 ∧ t.Within maxInFlight := by
    intro s a t hs hok hstep
    rcases Slots.balance_step hstep with ⟨_, heq, hwithin⟩ | ⟨hno, _⟩
    · exact ⟨heq.trans hs.1, hwithin hs.1 hs.2⟩
    · exact absurd hok hno
  have hfall : ∀ (s : Slots) a t, s.balance = 0 ∧ s.Within maxInFlight → ¬ s.Finds a →
      s.step maxInFlight a = some t → t.balance < 0 := by
    intro s a t hs hno hstep
    rcases Slots.balance_step hstep with ⟨hok, _⟩ | ⟨_, heq⟩
    · exact absurd hok hno
    · omega
  have hstay : ∀ (s : Slots) a t, s.balance < 0 → s.step maxInFlight a = some t → t.balance < 0 := by
    intro s a t hs hstep
    rcases Slots.balance_step hstep with ⟨_, heq, _⟩ | ⟨_, heq⟩ <;> omega
  rcases Machine.along_or_trapped hgood hfall hstay ⟨rfl, Nat.zero_le _, Nat.le_refl _⟩ h with
    ⟨halong, hbalance, hle, _⟩ | ⟨halong, hbehind⟩
  · refine ⟨fun _ => halong, fun _ => ?_⟩
    simp only [Slots.balance, howed] at hbalance
    exact ⟨by omega, by omega, by omega⟩
  · refine ⟨fun hexact => ?_, fun hall => absurd hall halong⟩
    simp only [Slots.balance, howed, hexact.1] at hbehind
    omega

/-- A dispatch meets a full outbox while an earlier one is completed; then one more goes out. -/
def refusedOnce : List SlotAct := [.pass false, .insert 7, .count, .send, .insert 8, .count, .outboxFull, .remove 7, .delete,
  .discount, .uncount, .pass false, .insert 9, .count, .send]

theorem counter_exact_refusedOnce : ∃ t, (slotMachine 2).run {} refusedOnce = some t ∧ t.inflight = [9] ∧ t.Exact 2 :=
  ⟨_, rfl, rfl, (@counter_exact_iff 2 _ refusedOnce rfl ⟨rfl, rfl⟩).mpr
    (by simp [refusedOnce, Machine.Along, Slots.Finds, slotMachine, Slots.step, Slots.available])⟩

/-- The worker's late `Complete` for an earlier run of the job, between the entry and a full outbox: the counter is `-1`,
    and of one slot there are two. -/
theorem counted_back_twice : ∃ t, (slotMachine 1).run {} [.pass false, .insert 7, .count, .remove 7, .outboxFull, .delete, .uncount,
    .discount] = some t ∧ t.Quiet ∧ t.inflightCounter = -1 ∧ t.available 1 false = 2 :=
  ⟨_, rfl, ⟨rfl, rfl⟩, rfl, rfl⟩

end Atlantis.Jobs
