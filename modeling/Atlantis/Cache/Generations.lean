import Atlantis.Cache.QueryResult
import Atlantis.Lib.Machine

/-!
# `Cache.Generations` — the counter that retires query results

`queryresult.Cache` keys every entry by a hash with the entity's generation in it, and a bump retires all entries at
once because it moves the generation on. Readers, writers, bumps and memcached's evictions interleave here, for one
entity. A result stands for the number of writes it has seen; `covered` is the number of writes that some successful bump
started after, and a reader notes it when it reads the generation.

While the counter lives the scheme is sound. Every generation has a floor, the writes covered when the counter reached
it, and no result under a generation is older than its floor (`Floors`): a bump opens a generation under which there is
nothing yet. But a missing counter reads as 0 and is seeded with 1 again, so an eviction takes the counter back to
generations that have entries; and a read that fails is answered with 0, too (`evicted_counter_revives`). The reads are
fresh in every run that evicts the counter only when no result is left, where a reader that was told another generation
than the counter's finds nothing under it (`freshReads_of_counterKept`).
-/

namespace Atlantis.Cache

open Lib

/-- `1 << 62`, past which a counter is implausible. -/
def maxCounter : Nat := 1 <<< 62

/-- `Cache.Generation` over `Client.CounterValue`: no counter reads as 0, and so does one that is implausible or cannot be
    read. -/
def Generation (readable : Bool) : Option Nat → Int64
  | none => 0
  | some n => if !readable || n > maxCounter then 0 else Int64.ofNat n

/-- A request of a generated `QueryX` handler, as far as the cache is concerned. -/
structure CachedRequest where
  input : HashInput
  cacheSkip : Bool
  deriving DecidableEq

/-- The key of a request under a generation. -/
def CachedRequest.key (digest : Bytes → String) (req : CachedRequest) (generation : Int64) : String :=
  Hash digest { req.input with generation := generation }

def CachedRequest.cacheable (req : CachedRequest) : Bool := req.input.includes.isEmpty

/-- Where a reader is. It started when `since` writes were covered; its result has seen `asOf` writes. The generation it
    was told is `current` if it was the counter's. -/
inductive QueryPhase where
  | idle
  | hashed (since : Nat) (generation : Int64) (req : CachedRequest) (current : Bool)
  | missed (since : Nat) (generation : Int64) (req : CachedRequest)
  | computed (since : Nat) (generation : Int64) (req : CachedRequest) (asOf : Nat)
  | answered (since asOf : Nat)
  deriving DecidableEq

/-- Where a call of `BumpGeneration` is, with the writes that were committed when it started. -/
inductive BumpPhase where
  | idle
  | started (writes : Nat)
  /-- The counter was missing; `Add` is next. -/
  | missing (writes : Nat)
  /-- Another call has seeded the counter; `Increment` is tried once more. -/
  | raced (writes : Nat)
  deriving DecidableEq, Repr

structure GenState where
  /-- The writes committed so far. -/
  writes : Nat
  /-- The writes that some successful bump started after. -/
  covered : Nat
  counter : Option Nat
  /-- The writes each stored result has seen. -/
  entries : String → Option Nat
  readers : Nat → QueryPhase
  bumps : Nat → BumpPhase

inductive GenAction where
  | write
  /-- The read of the counter may fail. -/
  | readGeneration (r : Nat) (req : CachedRequest) (readable : Bool)
  | lookup (r : Nat)
  | query (r : Nat)
  | store (r : Nat) (stored : Bool)
  | evict (key : String)
  | evictCounter
  | startBump (b : Nat)
  /-- The reply may be lost after the counter has moved. -/
  | increment (b : Nat) (replied : Bool)
  | add (b : Nat)
  | failBump (b : Nat)

def GenState.setReader (s : GenState) (r : Nat) (phase : QueryPhase) : GenState :=
  { s with readers := Function.update s.readers r phase }

def GenState.setBump (s : GenState) (b : Nat) (phase : BumpPhase) : GenState :=
  { s with bumps := Function.update s.bumps b phase }

/-- `inner.Increment` for a bump that started after `writes`: the counter is a `uint64`. -/
def GenState.incremented (s : GenState) (b n writes : Nat) (replied : Bool) : GenState :=
  let n := (n + 1) % (1 <<< 64)
  { s.setBump b .idle with
    counter := some n
    covered := if replied && decide (n ≤ maxCounter) then max s.covered writes else s.covered }

/-- What `Lookup` finds for a request under a generation. -/
def GenState.found (digest : Bytes → String) (s : GenState) (generation : Int64) (req : CachedRequest) : Option Nat :=
  if req.cacheable && !req.cacheSkip then s.entries (req.key digest generation) else none

def genStep (digest : Bytes → String) (s : GenState) : GenAction → Option GenState
  | .write => some { s with writes := s.writes + 1 }
  | .readGeneration r req readable =>
    let generation := Generation readable s.counter
    match s.readers r with
    | .idle | .answered _ _ =>
      some (s.setReader r (.hashed s.covered generation req (generation == Generation true s.counter)))
    | _ => none
  | .lookup r =>
    match s.readers r with
    | .hashed since generation req _ =>
      match s.found digest generation req with
      | some asOf => some (s.setReader r (.answered since asOf))
      | none => some (s.setReader r (.missed since generation req))
    | _ => none
  | .query r =>
    match s.readers r with
    | .missed since generation req => some (s.setReader r (.computed since generation req s.writes))
    | _ => none
  | .store r stored =>
    match s.readers r with
    | .computed since generation req asOf =>
      some { s.setReader r (.answered since asOf) with
        entries :=
          if req.cacheable && stored then Function.update s.entries (req.key digest generation) (some asOf)
          else s.entries }
    | _ => none
  | .evict key => some { s with entries := Function.update s.entries key none }
  | .evictCounter => some { s with counter := none }
  | .startBump b =>
    match s.bumps b with
    | .idle => some (s.setBump b (.started s.writes))
    | _ => none
  | .increment b replied =>
    match s.bumps b, s.counter with
    | .started writes, none => some (s.setBump b (.missing writes))
    | .started writes, some n => some (s.incremented b n writes replied)
    | .raced _, none => some (s.setBump b .idle)
    | .raced writes, some n => some (s.incremented b n writes replied)
    | _, _ => none
  | .add b =>
    match s.bumps b, s.counter with
    | .missing writes, none =>
      some { s.setBump b .idle with counter := some 1, covered := max s.covered writes }
    | .missing writes, some _ => some (s.setBump b (.raced writes))
    | _, _ => none
  | .failBump b => some (s.setBump b .idle)

/-- A cold cache, before any write. -/
def coldCache : GenState where
  writes := 0
  covered := 0
  counter := none
  entries _ := none
  readers _ := .idle
  bumps _ := .idle

def genMachine (digest : Bytes → String) : Machine GenState GenAction where
  initial s := s = coldCache
  step := genStep digest

/-- **Every reader gets a result computed after the writes that were covered when it started.** -/
def FreshReads (s : GenState) : Prop := ∀ r since asOf, s.readers r = .answered since asOf → since ≤ asOf

/-! ## A lost counter brings results back -/

/-- A query without filter, order or page token. -/
def plainRequest : CachedRequest := ⟨⟨[], [], [], 0, [], [], [], 0⟩, false⟩

/-- A result is stored under generation 0, and a write is committed and covered by a bump. -/
def coveredRun : List GenAction :=
  [.readGeneration 0 plainRequest true, .lookup 0, .query 0, .store 0 true, .write, .startBump 0, .increment 0 true, .add 0]

/-- A run after which a reader has the result from before the write. -/
def Stale (run : List GenAction) : Prop :=
  ∃ s, (genMachine plainDigest).run coldCache run = some s ∧ s.readers 1 = .answered 1 0 ∧ ¬ FreshReads s

theorem stale_of_answered {run : List GenAction}
    (h : ((genMachine plainDigest).run coldCache run).map (·.readers 1) = some (.answered 1 0)) : Stale run := by
  obtain ⟨s, hrun, hanswer⟩ := Option.map_eq_some_iff.mp h
  exact ⟨s, hrun, hanswer, fun hfresh => absurd (hfresh 1 1 0 hanswer) (by decide)⟩

/-- Then the counter is evicted, or it cannot be read: the next reader is at generation 0 again. -/
theorem evicted_counter_revives :
    Stale (coveredRun ++ [.evictCounter, .readGeneration 1 plainRequest true, .lookup 1]) ∧
      Stale (coveredRun ++ [.readGeneration 1 plainRequest false, .lookup 1]) :=
  ⟨stale_of_answered (by decide +kernel), stale_of_answered (by decide +kernel)⟩

/-! ## While the counter lives -/

/-- The reader has read a generation that it may still store under. -/
def QueryPhase.inFlight : QueryPhase → Bool
  | .hashed _ _ _ _ | .missed _ _ _ | .computed _ _ _ _ => true
  | .idle | .answered _ _ => false

/-- **The counter is kept**: it is evicted only when no result is stored or about to be, it is not incremented past what
    readers take for plausible, and a reader that was told another generation finds nothing under it. -/
def CounterKept (digest : Bytes → String) (s : GenState) : GenAction → Prop
  | .lookup r => ∀ since generation req, s.readers r = .hashed since generation req false →
    s.found digest generation req = none
  | .evictCounter => s.counter = none ∨ (∀ key, s.entries key = none) ∧ ∀ r, (s.readers r).inFlight = false
  | .increment _ _ => ∀ n, s.counter = some n → n < maxCounter
  | _ => True

/-- Under a generation that has been reached, no result is older than the generation's floor. -/
def QueryPhase.Within (gen writes : Nat) (floor : Nat → Nat) : QueryPhase → Prop
  | .idle => True
  | .hashed since generation _ current =>
    since ≤ writes ∧ ∃ n ≤ gen, generation = Int64.ofNat n ∧ (current = true → since ≤ floor n)
  | .missed since generation _ => since ≤ writes ∧ ∃ n ≤ gen, generation = Int64.ofNat n
  | .computed since generation _ asOf => since ≤ asOf ∧ ∃ n ≤ gen, generation = Int64.ofNat n ∧ floor n ≤ asOf
  | .answered since asOf => since ≤ asOf

/-- The writes a call of `BumpGeneration` started after. -/
def BumpPhase.writes : BumpPhase → Nat
  | .idle => 0
  | .started writes | .missing writes | .raced writes => writes

/-- **The invariant**, with the floor of every generation up to the current one. -/
structure Floors (digest : Bytes → String) (s : GenState) (floor : Nat → Nat) : Prop where
  bounded : s.counter.getD 0 ≤ maxCounter
  covered : s.covered ≤ floor (s.counter.getD 0)
  seen : ∀ n ≤ s.counter.getD 0, floor n ≤ s.writes
  bumps : ∀ b, (s.bumps b).writes ≤ s.writes
  entries : ∀ key asOf, s.entries key = some asOf →
    ∃ n ≤ s.counter.getD 0, ∃ req : CachedRequest, key = req.key digest (Int64.ofNat n) ∧ floor n ≤ asOf
  readers : ∀ r, (s.readers r).Within (s.counter.getD 0) s.writes floor

theorem generation_of_bounded {counter : Option Nat} (h : counter.getD 0 ≤ maxCounter) :
    Generation true counter = Int64.ofNat (counter.getD 0) := by
  cases counter with
  | none => rfl
  | some n =>
    have hle : ¬ n > maxCounter := Nat.not_lt.mpr h
    simp [Generation, hle]

/-- What a reader is told is the counter's generation, or 0. -/
theorem generation_eq (readable : Bool) (counter : Option Nat) :
    Generation readable counter = Generation true counter ∨ Generation readable counter = 0 := by
  cases readable with
  | true => exact .inl rfl
  | false => cases counter <;> exact .inr rfl

/-- Generations up to the bound are told apart. -/
theorem ofNat_inj {n m : Nat} (hn : n ≤ maxCounter) (hm : m ≤ maxCounter) (h : Int64.ofNat n = Int64.ofNat m) :
    n = m := by
  have hn' : n < 2 ^ 63 := Nat.lt_of_le_of_lt hn (by decide)
  have hm' : m < 2 ^ 63 := Nat.lt_of_le_of_lt hm (by decide)
  have heq := congrArg Int64.toInt h
  rw [Int64.toInt_ofNat_of_lt hn', Int64.toInt_ofNat_of_lt hm'] at heq
  exact Int.ofNat.inj heq

section Steps

variable {digest : Bytes → String} {s t : GenState} {floor floor' : Nat → Nat}

theorem QueryPhase.Within.mono {gen gen' writes writes' : Nat} {phase : QueryPhase} (h : phase.Within gen writes floor)
    (hle : gen ≤ gen') (hwrites : writes ≤ writes') (hfloor : ∀ n ≤ gen, floor' n = floor n) :
    phase.Within gen' writes' floor' := by
  cases phase with
  | idle => trivial
  | hashed since generation req current =>
    obtain ⟨hsince, n, hn, hgen, hcurrent⟩ := h
    exact ⟨Nat.le_trans hsince hwrites, n, Nat.le_trans hn hle, hgen, by rw [hfloor n hn]; exact hcurrent⟩
  | missed since generation req =>
    obtain ⟨hsince, n, hn, hgen⟩ := h
    exact ⟨Nat.le_trans hsince hwrites, n, Nat.le_trans hn hle, hgen⟩
  | computed since generation req asOf =>
    obtain ⟨hsince, n, hn, hgen, hasOf⟩ := h
    exact ⟨hsince, n, Nat.le_trans hn hle, hgen, by rw [hfloor n hn]; exact hasOf⟩
  | answered since asOf => exact h

variable (h : Floors digest s floor)

include h

/-- A reader goes on, and the others stay where they are. -/
theorem Floors.setReader {r : Nat} {phase : QueryPhase}
    (hphase : phase.Within (s.counter.getD 0) s.writes floor) : Floors digest (s.setReader r phase) floor :=
  { h with
    readers := (Function.forall_update_iff s.readers fun _ phase => phase.Within _ _ floor).mpr
      ⟨hphase, fun q _ => h.readers q⟩ }

theorem Floors.setBump {b : Nat} {phase : BumpPhase} (hphase : phase.writes ≤ s.writes) :
    Floors digest (s.setBump b phase) floor :=
  { h with
    bumps := (Function.forall_update_iff s.bumps fun _ phase => phase.writes ≤ s.writes).mpr
      ⟨hphase, fun q _ => h.bumps q⟩ }

/-- **A bump opens a generation under which there is nothing yet**; its floor is what is covered from now on. -/
theorem Floors.bump {n covered : Nat} (hn : n = s.counter.getD 0 + 1)
    (hbounded : n ≤ maxCounter) (hcovered : covered ≤ s.writes) :
    Floors digest { s with counter := some n, covered := covered } (Function.update floor n covered) := by
  have hkept : ∀ m ≤ s.counter.getD 0, Function.update floor n covered m = floor m :=
    fun m hm => Function.update_of_ne (by omega) ..
  refine ⟨hbounded, ?_, ?_, h.bumps, ?_, ?_⟩
  · show covered ≤ Function.update floor n covered n
    rw [Function.update_self]
  · intro m hm
    replace hm : m ≤ n := hm
    show Function.update floor n covered m ≤ s.writes
    by_cases heq : m = n
    · rw [heq, Function.update_self]
      exact hcovered
    · rw [hkept m (by omega)]
      exact h.seen m (by omega)
  · intro key asOf hentry
    obtain ⟨m, hm, req, hkey, hasOf⟩ := h.entries key asOf hentry
    refine ⟨m, ?_, req, hkey, ?_⟩
    · show m ≤ n
      omega
    · rw [hkept m hm]
      exact hasOf
  · intro r
    exact (h.readers r).mono (by show s.counter.getD 0 ≤ n; omega) (Nat.le_refl _) hkept

/-- What is covered never runs ahead of what is written. -/
theorem Floors.covered_le : s.covered ≤ s.writes :=
  Nat.le_trans h.covered (h.seen _ (Nat.le_refl _))

theorem Floors.incremented {b n writes : Nat} {replied : Bool} (hn : s.counter = some n)
    (hlt : n < maxCounter) (hwrites : writes ≤ s.writes) :
    ∃ floor', Floors digest (s.incremented b n writes replied) floor' := by
  have hmod : (n + 1) % (1 <<< 64) = n + 1 := Nat.mod_eq_of_lt (Nat.lt_of_le_of_lt hlt (by decide))
  have hidle : Floors digest (s.setBump b .idle) floor := h.setBump (Nat.zero_le _)
  unfold GenState.incremented
  simp only [hmod]
  refine ⟨_, hidle.bump ?_ hlt ?_⟩
  · show n + 1 = s.counter.getD 0 + 1
    rw [hn]
    rfl
  · split
    · exact Nat.max_le.mpr ⟨h.covered_le, hwrites⟩
    · exact h.covered_le

/-- `Get`: the entry was stored under the generation of its key, which is the reader's. -/
theorem Floors.lookup (hdigest : ∀ x y, digest x = digest y → x = y) {r : Nat} (hok : CounterKept digest s (.lookup r))
    (hstep : genStep digest s (.lookup r) = some t) : Floors digest t floor := by
  have hr := h.readers r
  simp only [genStep] at hstep
  split at hstep
  swap
  · cases hstep
  rename_i since generation req current hread
  rw [hread] at hr
  obtain ⟨hwrites, n, hn, rfl, hsince⟩ := hr
  split at hstep
  · rename_i asOf hhit
    cases hstep
    cases current with
    | false => cases (hok _ _ _ hread).symm.trans hhit
    | true =>
      refine h.setReader ?_
      unfold GenState.found at hhit
      split at hhit
      · obtain ⟨m, hm, req', hkey, hasOf⟩ := h.entries _ _ hhit
        obtain rfl := ofNat_inj (Nat.le_trans hn h.bounded) (Nat.le_trans hm h.bounded)
          (canonical_inj (hdigest _ _ hkey)).2.2.2.2.2.2.2
        exact Nat.le_trans (hsince rfl) hasOf
      · cases hhit
  · cases hstep
    exact h.setReader ⟨hwrites, n, hn, rfl⟩

/-- `Set`, under the generation that was read. -/
theorem Floors.store {r : Nat} {stored : Bool}
    (hstep : genStep digest s (.store r stored) = some t) : Floors digest t floor := by
  have hr := h.readers r
  simp only [genStep] at hstep
  split at hstep
  swap
  · cases hstep
  rename_i since generation req asOf hread
  rw [hread] at hr
  obtain ⟨hsince, n, hn, rfl, hasOf⟩ := hr
  cases hstep
  have hset : Floors digest (s.setReader r (.answered since asOf)) floor := h.setReader hsince
  refine { hset with entries := fun key x hentry => ?_ }
  replace hentry : (if req.cacheable && stored then
    Function.update s.entries (req.key digest (Int64.ofNat n)) (some asOf) else s.entries) key = some x := hentry
  split at hentry
  · rcases update_eq_some hentry with ⟨hkey, ⟨⟩⟩ | hentry
    · exact ⟨n, hn, req, hkey, hasOf⟩
    · exact h.entries key x hentry
  · exact h.entries key x hentry

/-- Without its counter the entity is back at generation 0, under which nothing is left. -/
theorem Floors.evictCounter (hok : CounterKept digest s .evictCounter) :
    ∃ floor', Floors digest { s with counter := none } floor' := by
  rcases hok with hnone | ⟨hentries, hreaders⟩
  · refine ⟨floor, ?_⟩
    rw [← hnone]
    exact h
  · refine ⟨fun _ => s.covered, Nat.zero_le _, Nat.le_refl _, fun _ _ => h.covered_le, h.bumps, ?_, fun r => ?_⟩
    · intro key asOf hentry
      have hnone := hentries key
      rw [show s.entries key = some asOf from hentry] at hnone
      cases hnone
    · show (s.readers r).Within 0 _ _
      have hr := h.readers r
      have hidle := hreaders r
      cases hphase : s.readers r with
      | idle => trivial
      | answered since asOf =>
        rw [hphase] at hr
        exact hr
      | hashed | missed | computed =>
        rw [hphase] at hidle
        cases hidle

/-- A reader takes the current generation, or 0 where it cannot read it. -/
theorem Floors.hashed (readable : Bool) (req : CachedRequest) : QueryPhase.Within (s.counter.getD 0) s.writes floor
    (.hashed s.covered (Generation readable s.counter) req (Generation readable s.counter == Generation true s.counter)) := by
  refine ⟨h.covered_le, ?_⟩
  by_cases hcurrent : Generation readable s.counter = Generation true s.counter
  · exact ⟨_, Nat.le_refl _, hcurrent.trans (generation_of_bounded h.bounded), fun _ => h.covered⟩
  · refine ⟨0, Nat.zero_le _, (generation_eq readable s.counter).resolve_left hcurrent, fun heq => ?_⟩
    exact absurd (eq_of_beq heq) hcurrent

/-- A bump that found no counter puts 1 there, unless another was first. -/
theorem Floors.add {b : Nat} (hstep : genStep digest s (.add b) = some t) : ∃ floor', Floors digest t floor' := by
  have hb := h.bumps b
  simp only [genStep] at hstep
  split at hstep
  · rename_i writes hphase hcounter
    rw [hphase] at hb
    cases hstep
    have hidle : Floors digest (s.setBump b .idle) floor := h.setBump (Nat.zero_le _)
    refine ⟨_, hidle.bump ?_ (by decide) (Nat.max_le.mpr ⟨h.covered_le, hb⟩)⟩
    show 1 = s.counter.getD 0 + 1
    rw [hcounter]
    rfl
  · rename_i writes n hphase hcounter
    rw [hphase] at hb
    cases hstep
    exact ⟨floor, h.setBump hb⟩
  · cases hstep

theorem floors_step (hdigest : ∀ x y, digest x = digest y → x = y) {a : GenAction}
    (hok : CounterKept digest s a) (hstep : genStep digest s a = some t) : ∃ floor', Floors digest t floor' := by
  cases a with
  | write =>
    cases hstep
    exact ⟨floor, h.bounded, h.covered, fun n hn => Nat.le_succ_of_le (h.seen n hn),
      fun b => Nat.le_succ_of_le (h.bumps b), h.entries,
      fun r => (h.readers r).mono (Nat.le_refl _) (Nat.le_succ _) fun _ _ => rfl⟩
  | readGeneration r req readable =>
    simp only [genStep] at hstep
    split at hstep
    case h_3 => cases hstep
    all_goals
      cases hstep
      exact ⟨floor, h.setReader (h.hashed readable req)⟩
  | lookup r => exact ⟨floor, h.lookup hdigest hok hstep⟩
  | query r =>
    have hr := h.readers r
    simp only [genStep] at hstep
    split at hstep
    · rename_i since generation req hread
      rw [hread] at hr
      obtain ⟨hsince, n, hn, hgen⟩ := hr
      cases hstep
      exact ⟨floor, h.setReader ⟨hsince, n, hn, hgen, h.seen n hn⟩⟩
    · cases hstep
  | store r stored => exact ⟨floor, h.store hstep⟩
  | evict key =>
    cases hstep
    refine ⟨floor, { h with entries := fun k asOf hentry => ?_ }⟩
    rcases update_eq_some hentry with ⟨-, ⟨⟩⟩ | hentry
    exact h.entries k asOf hentry
  | evictCounter =>
    cases hstep
    exact h.evictCounter hok
  | startBump b =>
    simp only [genStep] at hstep
    split at hstep
    · cases hstep
      exact ⟨floor, h.setBump (Nat.le_refl _)⟩
    · cases hstep
  | increment b replied =>
    have hb := h.bumps b
    simp only [genStep] at hstep
    split at hstep
    case h_1 writes hphase hcounter =>
      rw [hphase] at hb
      cases hstep
      exact ⟨floor, h.setBump hb⟩
    case h_2 writes n hphase hcounter | h_4 writes n hphase hcounter =>
      rw [hphase] at hb
      cases hstep
      exact h.incremented hcounter (hok n hcounter) hb
    case h_3 =>
      cases hstep
      exact ⟨floor, h.setBump (Nat.zero_le _)⟩
    case h_5 => cases hstep
  | add b => exact h.add hstep
  | failBump b =>
    cases hstep
    exact ⟨floor, h.setBump (Nat.zero_le _)⟩

end Steps

/-- **No result from before a covered write is served** in a run that keeps the counter. -/
theorem freshReads_of_counterKept {digest : Bytes → String} (hdigest : ∀ x y, digest x = digest y → x = y) {s : GenState}
    (h : (genMachine digest).Reach (CounterKept digest) s) : FreshReads s := by
  have hfloors : ∃ floor, Floors digest s floor := by
    refine h.invariant (I := fun s => ∃ floor, Floors digest s floor) ?_ ?_
    · rintro s rfl
      exact ⟨fun _ => 0, Nat.zero_le _, Nat.le_refl _, fun _ _ => Nat.le_refl _, fun _ => Nat.le_refl _, nofun, fun _ => trivial⟩
    · rintro s a t ⟨floor, hs⟩ hok hstep
      exact floors_step hs hdigest hok hstep
  obtain ⟨floor, hfloors⟩ := hfloors
  intro r since asOf hr
  have hwithin := hfloors.readers r
  rw [hr] at hwithin
  exact hwithin

/-- A write is covered. A reader that cannot reach memcached computes its result anew, the next stores one, and this is
    found. -/
def freshRun : List GenAction :=
  [.write, .startBump 0, .increment 0 true, .add 0, .readGeneration 0 plainRequest false, .lookup 0, .query 0, .store 0 false,
    .readGeneration 1 plainRequest true, .lookup 1, .query 1, .store 1 true, .readGeneration 0 plainRequest true, .lookup 0]

theorem freshReads_of_counterKept_hit :
    ∃ s, (genMachine plainDigest).Reach (CounterKept plainDigest) s ∧ s.readers 0 = .answered 1 1 ∧ FreshReads s := by
  have hrun : ∃ s, (genMachine plainDigest).run coldCache freshRun = some s ∧ s.readers 0 = .answered 1 1 := by
    decide +kernel
  obtain ⟨s, hrun, hreader⟩ := hrun
  have halong : (genMachine plainDigest).Along (CounterKept plainDigest) coldCache freshRun := by
    refine .cons trivial rfl (.cons trivial rfl (.cons ?_ rfl (.cons trivial rfl (.cons trivial rfl (.cons ?_ rfl
      (.cons trivial rfl (.cons trivial rfl (.cons trivial rfl (.cons ?_ rfl (.cons trivial rfl (.cons trivial rfl
      (.cons trivial rfl ⟨?_, fun _ _ => trivial⟩))))))))))))
    · rintro _ ⟨⟩
    · rintro _ _ _ ⟨⟩
      rfl
    all_goals rintro _ _ _ ⟨⟩
  have hreach := Machine.reach_of_run (.initial rfl) halong hrun
  exact ⟨s, hreach, hreader, freshReads_of_counterKept plainDigest_inj hreach⟩

end Atlantis.Cache
