import Atlantis.Sandbox.Table
import Mathlib.Data.List.Sort

/-!
# `Sandbox.Isolation` — marks and forks of sandboxes

The pools of sandboxes that were forked from one another, and the marks taken in them, share row maps by pointer.
`Mark` and `Fork` copy pointers and flag the row maps; `RestoreTo` points the tables back. The reference copies: there a
mark holds the contents of the tables, and a fork starts with contents of its own.

The two agree on every sequence of operations (`run_refines`). A row map that is not flagged has one table that points
to it and no mark, so a write that is made in place is seen by its own table only; every row map a mark or a fork
captured is flagged, so it is never written (`Lib.Cow.Owned`). Restored tables point to flagged row maps again, so it
does not matter how often a mark is restored.
-/

namespace Atlantis.Sandbox

open Lib

/-! ## Code -/

/-- `encodedSnapshot`, without the time it was saved at. -/
structure Encoded (Val : Type) where
  magic : String
  format : Int
  signature : String
  tables : List (String × List (Row Val))

/-- What the sandboxes of a tree have in common: the catalog in the order of its names, how values print, its signature
    and the codec of snapshots. -/
structure Setting (Val Blob : Type) where
  catalog : List TableDesc
  sprint : Val → String
  signature : String
  encode : Encoded Val → Option Blob
  decode : Blob → Option (Encoded Val)

/-- `Mark`: the sandbox it is of, and the row maps of its tables. -/
structure Mark where
  owner : Nat
  captured : String → Option Nat

/-- All sandboxes: the memory, the tables of each pool, and the marks. -/
structure World (Val : Type) where
  mem : Mem Val := {}
  boxes : Nat := 1
  tables : Nat × String → Option Nat := fun _ => none
  marks : List Mark := []

/-- The operations. -/
inductive Op (Val Blob : Type) where
  | insert (box : Nat) (table : String) (row : Row Val)
  | update (box : Nat) (table key : String) (set : List (String × Option Val))
  | delete (box : Nat) (table key : String)
  | mark (box : Nat)
  | restoreTo (box mark : Nat)
  | fork (box : Nat) (n : Int)
  | snapshot (box : Nat)
  | restore (box : Nat) (blob : Blob)
  | importRows (box : Nat) (rows : List (String × List (Row Val)))

/-- The sandbox an operation is called on. -/
def Op.box {Val Blob : Type} : Op Val Blob → Nat
  | .insert box _ _ | .update box _ _ _ | .delete box _ _ | .mark box | .restoreTo box _ | .fork box _ | .snapshot box
  | .restore box _ | .importRows box _ => box

/-- What an operation returns. -/
inductive Result (Blob : Type) where
  | outcome (o : Outcome)
  | mark (mark : Nat)
  | boxes (children : List Nat)
  | blob (blob : Blob)
  | done
  | error (message : String)

variable {Val Blob : Type} (S : Setting Val Blob)

/-- `(*Catalog).QualifiedNames`. -/
def Setting.names : List String := S.catalog.map TableDesc.qualified

/-- `(*Catalog).Lookup`. -/
def Setting.lookup (table : String) : Option TableDesc := S.catalog.find? (·.qualified == table)

namespace World

/-- `(*execEnv).table`: a table is made when it is first referred to. -/
def table (w : World Val) (x : Nat × String) : World Val × Nat :=
  match w.tables x with
  | some p => (w, p)
  | none =>
    let (mem, p) := w.mem.newTable
    ({ w with mem, tables := Function.update w.tables x (some p) }, p)

/-- A statement on one table. -/
def statement (w : World Val) (x : Nat × String) (f : TableDesc → Mem Val → Nat → Mem Val × Nat × Outcome) :
    World Val × Result Blob :=
  match S.lookup x.2 with
  | none => (w, .error ("sandbox: unknown table: " ++ x.2))
  | some d =>
    let (w, p) := w.table x
    let (mem, q, o) := f d w.mem p
    ({ w with mem, tables := Function.update w.tables x (some q) }, .outcome o)

/-- `CapturePointers`: the row maps of the pool's tables, flagged. -/
def capturePointers (w : World Val) (i : Nat) : World Val × (String → Option Nat) :=
  ({ w with mem := { w.mem with
      cells := (S.names.filterMap fun qn => w.tables (i, qn)).foldl Cow.share w.mem.cells } },
    fun qn => if qn ∈ S.names then w.tables (i, qn) else none)

/-- One table of `ReplaceFromPointers`: it gets the captured row map, or an empty one if there is none. -/
def replaceTable (i : Nat) (snap : String → Option Nat) (w : World Val) (qn : String) : World Val :=
  match w.tables (i, qn) with
  | none => w
  | some _ =>
    match snap qn with
    | some p => { w with tables := Function.update w.tables (i, qn) (some p) }
    | none =>
      let (mem, p) := w.mem.newTable
      { w with mem, tables := Function.update w.tables (i, qn) (some p) }

/-- One table of `InstallSharedPointers`. -/
def installTable (i : Nat) (snap : String → Option Nat) (w : World Val) (qn : String) : World Val :=
  let (mem, p) := w.mem.newTable
  { w with mem, tables := Function.update w.tables (i, qn) (some ((snap qn).getD p)) }

/-- `forkOne`. -/
def forkOne (snap : String → Option Nat) (w : World Val) : World Val :=
  S.names.foldl (installTable w.boxes snap)
    { w with boxes := w.boxes + 1, tables := fun x => if x.1 = w.boxes then none else w.tables x }

/-- `Scan`: the keys of a table in their order. -/
def scanKeys {β : Type} (l : List (String × β)) : List String := (l.map Prod.fst).insertionSort (· ≤ ·)

/-- One table of `ExportRows`. -/
def exportTable (w : World Val) (x : Nat × String) : List (Row Val) :=
  match w.tables x with
  | none => []
  | some p => (scanKeys (w.mem.rowMap p)).filterMap fun k => ((w.mem.rowMap p).lookup k).map w.mem.row

/-- The rows of one table are inserted, up to the first that is refused. -/
def insertAll (d : TableDesc) : List (Row Val) → Mem Val → Nat → Mem Val × Nat × Option String
  | [], m, p => (m, p, none)
  | r :: rows, m, p =>
    match m.insert S.sprint d p r with
    | (m, p, .error e) => (m, p, some e)
    | (m, p, _) => insertAll d rows m p

/-- The loop of `ImportRows`: tables up to the first that fails are replaced. -/
def importTables (i : Nat) (rows : List (String × List (Row Val))) : List TableDesc → World Val → World Val × Result Blob
  | [], w => (w, .done)
  | d :: ds, w =>
    let (mem, p) := w.mem.newTable
    match insertAll S d ((rows.lookup d.qualified).getD []) mem p with
    | (mem, p, none) => importTables i rows ds { w with mem, tables := Function.update w.tables (i, d.qualified) (some p) }
    | (mem, _, some e) => ({ w with mem }, .error ("sandbox import: " ++ d.qualified ++ ": " ++ e))

/-- `ImportRows`. -/
def importRows (w : World Val) (i : Nat) (rows : List (String × List (Row Val))) : World Val × Result Blob :=
  match rows.find? fun e => (S.lookup e.1).isNone with
  | some e => (w, .error ("sandbox import: table " ++ e.1 ++ " not in catalog"))
  | none => importTables S i rows S.catalog w

end World

/-- What `Restore` checks of a blob before it imports its rows. -/
def openSnapshot (blob : Blob) : Except String (List (String × List (Row Val))) :=
  match S.decode blob with
  | none => .error "sandbox restore: decode"
  | some dec =>
    if dec.magic ≠ "atl-sandbox-snapshot" then .error "sandbox: snapshot format unsupported: missing/invalid magic"
    else if dec.format ≠ 1 then
      .error ("sandbox: snapshot format unsupported: blob format " ++ toString dec.format ++ ", want 1")
    else if dec.signature ≠ S.signature then .error "sandbox: snapshot schema does not match current catalog"
    else .ok dec.tables

/-- What `Snapshot` makes of the exported tables. -/
def sealSnapshot (tables : List (String × List (Row Val))) : Result Blob :=
  match S.encode { magic := "atl-sandbox-snapshot", format := 1, signature := S.signature, tables } with
  | some blob => .blob blob
  | none => .error "sandbox snapshot: encode"

/-- One operation. -/
def World.step (w : World Val) : Op Val Blob → World Val × Result Blob
  | .insert i qn r => w.statement S (i, qn) fun d m p => m.insert S.sprint d p r
  | .update i qn key set => w.statement S (i, qn) fun d m p => m.update d p key set
  | .delete i qn key => w.statement S (i, qn) fun _ m p => m.delete p key
  | .mark i =>
    let (w, captured) := w.capturePointers S i
    ({ w with marks := w.marks ++ [{ owner := i, captured }] }, .mark w.marks.length)
  | .restoreTo i k =>
    match w.marks[k]? with
    | none => (w, .error "sandbox: RestoreTo nil mark")
    | some saved =>
      if saved.owner ≠ i then (w, .error "sandbox: mark belongs to a different sandbox")
      else (S.names.foldl (World.replaceTable i saved.captured) w, .done)
  | .fork i n =>
    if n < 0 then (w, .error ("sandbox: Fork called with negative n=" ++ toString n))
    else if n = 0 then (w, .boxes [])
    else
      let (w, snap) := w.capturePointers S i
      ((List.range n.toNat).foldl (fun w _ => w.forkOne S snap) w, .boxes ((List.range n.toNat).map (w.boxes + ·)))
  | .snapshot i => (w, sealSnapshot S (S.names.map fun qn => (qn, w.exportTable (i, qn))))
  | .restore i blob =>
    match openSnapshot S blob with
    | .error e => (w, .error e)
    | .ok rows => w.importRows S i rows
  | .importRows i rows => w.importRows S i rows

/-! ## The reference -/

/-- Sandboxes whose tables and marks hold contents. -/
structure Reference (Val : Type) where
  boxes : Nat := 1
  tables : Nat × String → Option (Contents Val) := fun _ => none
  marks : List (Nat × (String → Option (Contents Val))) := []

namespace Reference

def set (r : Reference Val) (x : Nat × String) (c : Contents Val) : Reference Val :=
  { r with tables := Function.update r.tables x (some c) }

def statement (r : Reference Val) (x : Nat × String) (f : TableDesc → Contents Val → Contents Val × Outcome) :
    Reference Val × Result Blob :=
  match S.lookup x.2 with
  | none => (r, .error ("sandbox: unknown table: " ++ x.2))
  | some d => (r.set x (f d ((r.tables x).getD [])).1, .outcome (f d ((r.tables x).getD [])).2)

/-- A copy of the tables of a sandbox. -/
def copy (r : Reference Val) (i : Nat) (qn : String) : Option (Contents Val) :=
  if qn ∈ S.names then r.tables (i, qn) else none

/-- The tables that are there get the copied rows. -/
def replace (i : Nat) (snap : String → Option (Contents Val)) (r : Reference Val) : Reference Val :=
  { r with tables := fun x =>
      if x.1 = i ∧ x.2 ∈ S.names then (r.tables x).map fun _ => (snap x.2).getD [] else r.tables x }

/-- A new sandbox with all tables of the catalog, and the copied rows. -/
def forkOne (snap : String → Option (Contents Val)) (r : Reference Val) : Reference Val :=
  { r with
    boxes := r.boxes + 1
    tables := fun x =>
      if x.1 = r.boxes ∧ x.2 ∈ S.names then some ((snap x.2).getD []) else if x.1 = r.boxes then none else r.tables x }

def exportTable (r : Reference Val) (x : Nat × String) : List (Row Val) :=
  match r.tables x with
  | none => []
  | some c => (World.scanKeys c).filterMap fun k => c.lookup k

def insertAll (d : TableDesc) : List (Row Val) → Contents Val → Contents Val × Option String
  | [], c => (c, none)
  | row :: rows, c =>
    match c.insert S.sprint d row with
    | (c, .error e) => (c, some e)
    | (c, _) => insertAll d rows c

def importTables (i : Nat) (rows : List (String × List (Row Val))) :
    List TableDesc → Reference Val → Reference Val × Result Blob
  | [], r => (r, .done)
  | d :: ds, r =>
    match insertAll S d ((rows.lookup d.qualified).getD []) [] with
    | (c, none) => importTables i rows ds (r.set (i, d.qualified) c)
    | (_, some e) => (r, .error ("sandbox import: " ++ d.qualified ++ ": " ++ e))

def importRows (r : Reference Val) (i : Nat) (rows : List (String × List (Row Val))) : Reference Val × Result Blob :=
  match rows.find? fun e => (S.lookup e.1).isNone with
  | some e => (r, .error ("sandbox import: table " ++ e.1 ++ " not in catalog"))
  | none => importTables S i rows S.catalog r

def step (r : Reference Val) : Op Val Blob → Reference Val × Result Blob
  | .insert i qn row => r.statement S (i, qn) fun d c => c.insert S.sprint d row
  | .update i qn key set => r.statement S (i, qn) fun d c => c.update d key set
  | .delete i qn key => r.statement S (i, qn) fun _ c => c.delete key
  | .mark i => ({ r with marks := r.marks ++ [(i, r.copy S i)] }, .mark r.marks.length)
  | .restoreTo i k =>
    match r.marks[k]? with
    | none => (r, .error "sandbox: RestoreTo nil mark")
    | some saved =>
      if saved.1 ≠ i then (r, .error "sandbox: mark belongs to a different sandbox")
      else (r.replace S i saved.2, .done)
  | .fork i n =>
    if n < 0 then (r, .error ("sandbox: Fork called with negative n=" ++ toString n))
    else if n = 0 then (r, .boxes [])
    else
      ((List.range n.toNat).foldl (fun r' _ => r'.forkOne S (r.copy S i)) r,
        .boxes ((List.range n.toNat).map (r.boxes + ·)))
  | .snapshot i => (r, sealSnapshot S (S.names.map fun qn => (qn, r.exportTable (i, qn))))
  | .restore i blob =>
    match openSnapshot S blob with
    | .error e => (r, .error e)
    | .ok rows => r.importRows S i rows
  | .importRows i rows => r.importRows S i rows

end Reference

/-! ## The invariant -/

variable {S} {w w' : World Val} {x : Nat × String} {p q i : Nat} {mem : Mem Val}

/-- A row map that a mark holds. -/
def World.Caught (w : World Val) (p : Nat) : Prop := ∃ saved ∈ w.marks, ∃ qn, saved.captured qn = some p

structure World.Inv (w : World Val) : Prop where
  owned : Cow.Owned w.mem.cells w.tables w.Caught
  bounded : w.mem.Bounded

/-- The contents of all tables and marks. -/
def World.view (w : World Val) : Reference Val where
  boxes := w.boxes
  tables x := (w.tables x).map w.mem.contents
  marks := w.marks.map fun saved => (saved.owner, fun qn => (saved.captured qn).map w.mem.contents)

/-- Contents depend on the row map alone, as rows are only added. -/
theorem contents_congr (hw : w.Inv) (hrows : w.mem.rows <+: mem.rows)
    (hread : Cow.read mem.cells q = Cow.read w.mem.cells q) : mem.contents q = w.mem.contents q := by
  have hmap : mem.rowMap q = w.mem.rowMap q := by
    unfold Mem.rowMap
    rw [hread]
  unfold Mem.contents
  rw [hmap]
  exact resolve_append hrows (hw.bounded q)

/-- The world shows what the reference has. -/
structure World.Shows (w : World Val) (r : Reference Val) : Prop where
  inv : w.Inv
  view : w.view = r

/-- The memory, and the row map of one table, after a store. -/
def World.store (w : World Val) (mem : Mem Val) (x : Nat × String) (p : Nat) : World Val :=
  { w with mem, tables := Function.update w.tables x (some p) }

/-- Other tables and another memory, in which the marks read what they read before. -/
theorem view_eq {tables : Nat × String → Option Nat} {contents : Nat × String → Option (Contents Val)}
    (htables : ∀ y, (tables y).map mem.contents = contents y)
    (hmarks : ∀ q, w.Caught q → mem.contents q = w.mem.contents q) :
    ({ w with mem, tables } : World Val).view = { w.view with tables := contents } := by
  unfold World.view
  congr 1
  · exact funext htables
  · apply List.map_congr_left
    intro saved hsaved
    congr 1
    funext qn
    exact Option.map_congr fun q hq => hmarks q ⟨saved, hsaved, qn, hq⟩

/-- **A table gets a row map.** The others, and the marks, read what they read before. -/
theorem view_update (htables : ∀ y q, y ≠ x → w.tables y = some q → mem.contents q = w.mem.contents q)
    (hmarks : ∀ q, w.Caught q → mem.contents q = w.mem.contents q) :
    (w.store mem x p).view = w.view.set x (mem.contents p) := by
  refine view_eq (fun y => ?_) hmarks
  by_cases hy : y = x
  · subst hy
    rw [Function.update_self, Function.update_self]
    rfl
  · rw [Function.update_of_ne hy, Function.update_of_ne hy]
    exact Option.map_congr fun q hq => htables y q hy hq

/-- What a statement does to one table. -/
theorem World.Inv.stored {p' : Nat} {c : Contents Val} (hw : w.Inv) (hx : w.tables x = some p)
    (h : Stored w.mem p mem p' c) : (w.store mem x p').Shows (w.view.set x c) := by
  refine ⟨⟨hw.owned.moved hx h.moved, h.bounded⟩, ?_⟩
  rw [← h.contents]
  apply view_update
  · intro y q hy hq
    exact contents_congr hw h.rows (hw.owned.read_moved hx h.moved hy hq)
  · intro q hq
    exact contents_congr hw h.rows (h.moved.read_shared (hw.owned.caught q hq))

/-- The memory grows: nothing that is there changes. -/
structure Grows (m mem : Mem Val) : Prop where
  rows : m.rows <+: mem.rows
  cells : m.cells <+: mem.cells
  bounded : mem.Bounded

theorem Grows.contents (h : Grows w.mem mem) (hw : w.Inv) (hq : q < w.mem.cells.length) :
    mem.contents q = w.mem.contents q :=
  contents_congr hw h.rows (Cow.read_of_append h.cells hq)

/-- A table gets a row map that is new. -/
theorem World.Inv.fresh (hw : w.Inv) (h : Grows w.mem mem) (hle : w.mem.cells.length ≤ p) (hlt : p < mem.cells.length) :
    (w.store mem x p).Shows (w.view.set x (mem.contents p)) := by
  refine ⟨⟨hw.owned.fresh h.cells hle hlt, h.bounded⟩, ?_⟩
  apply view_update
  · intro y q _ hq
    exact h.contents hw (hw.owned.bound y q hq)
  · intro q hq
    exact h.contents hw (hw.owned.caught q hq).lt

/-- A table gets a row map that is flagged. -/
theorem World.Inv.point (hw : w.Inv) (hp : Cow.Shared w.mem.cells p) :
    (w.store w.mem x p).Shows (w.view.set x (w.mem.contents p)) :=
  ⟨⟨hw.owned.point hp.lt fun h => absurd hp h, hw.bounded⟩, view_update (fun _ _ _ _ => rfl) fun _ _ => rfl⟩

theorem World.Inv.grow (hw : w.Inv) (h : Grows w.mem mem) : ({ w with mem } : World Val).Shows w.view := by
  refine ⟨⟨hw.owned.grow h.cells, h.bounded⟩, view_eq (fun y => ?_) fun q hq => h.contents hw (hw.owned.caught q hq).lt⟩
  exact Option.map_congr fun q hq => h.contents hw (hw.owned.bound y q hq)

theorem grows_newTable (hw : w.Inv) : Grows w.mem w.mem.newTable.1 where
  rows := List.prefix_rfl
  cells := List.prefix_append ..
  bounded := (@stored_newTable Val w.mem 0 hw.bounded).bounded

theorem newTable_bounds (m : Mem Val) : m.cells.length ≤ m.newTable.2 ∧ m.newTable.2 < m.newTable.1.cells.length :=
  ⟨le_rfl, by simp [Mem.newTable]⟩

theorem World.Inv.contents_newTable (hw : w.Inv) : w.mem.newTable.1.contents w.mem.newTable.2 = [] :=
  (@stored_newTable Val w.mem 0 hw.bounded).contents

/-- A new table is empty. -/
theorem World.Inv.newTable (hw : w.Inv) :
    (w.store w.mem.newTable.1 x w.mem.newTable.2).Shows (w.view.set x []) := by
  obtain ⟨hle, hlt⟩ := newTable_bounds w.mem
  rw [← hw.contents_newTable]
  exact hw.fresh (grows_newTable hw) hle hlt

/-! ## Operations keep it, and refine -/

/-- **An operation refines its reference**: the invariant stays, contents and results agree. -/
def Refines (done : World Val × Result Blob) (ref : Reference Val × Result Blob) : Prop :=
  done.1.Inv ∧ done.1.view = ref.1 ∧ done.2 = ref.2

/-- A table that is looked up is there, and has the contents it had. -/
theorem World.Inv.table (hw : w.Inv) : (w.table x).1.Inv ∧ (w.table x).1.tables x = some (w.table x).2 ∧
    (w.table x).1.mem.contents (w.table x).2 = (w.view.tables x).getD [] ∧
    ∀ c, (w.table x).1.view.set x c = w.view.set x c := by
  unfold World.table
  cases hx : w.tables x with
  | some p =>
    refine ⟨hw, hx, ?_, fun _ => rfl⟩
    show _ = ((w.tables x).map w.mem.contents).getD []
    rw [hx]
    rfl
  | none =>
    obtain ⟨hinv, hview⟩ := hw.newTable (x := x)
    refine ⟨hinv, Function.update_self .., ?_, fun c => ?_⟩
    · show _ = ((w.tables x).map w.mem.contents).getD []
      rw [hx]
      exact hw.contents_newTable
    · refine (congrArg (·.set x c) hview).trans ?_
      unfold Reference.set
      dsimp only
      rw [Function.update_idem]

theorem refines_statement {f : TableDesc → Mem Val → Nat → Mem Val × Nat × Outcome}
    {g : TableDesc → Contents Val → Contents Val × Outcome}
    (hfg : ∀ d m p, m.Bounded → p < m.cells.length →
      Stored m p (f d m p).1 (f d m p).2.1 (g d (m.contents p)).1 ∧ (f d m p).2.2 = (g d (m.contents p)).2)
    (hw : w.Inv) : Refines (w.statement S x f) (w.view.statement S x g) := by
  unfold World.statement Reference.statement
  cases S.lookup x.2 with
  | none => exact ⟨hw, rfl, rfl⟩
  | some d =>
    obtain ⟨hinv, hx, hcontents, hset⟩ := hw.table (x := x)
    obtain ⟨hstored, hout⟩ := hfg d _ _ hinv.bounded (hinv.owned.bound _ _ hx)
    obtain ⟨hinv', hview⟩ := hinv.stored hx hstored
    rw [hcontents] at hout
    rw [hcontents, hset] at hview
    exact ⟨hinv', hview, congrArg Result.outcome hout⟩

/-! ### Marks -/

theorem foldl_share {s : Cow.Store (List (String × Nat))} {ps : List Nat} :
    (ps.foldl Cow.share s).length = s.length ∧ (∀ q, Cow.read (ps.foldl Cow.share s) q = Cow.read s q) ∧
    (∀ q, Cow.Shared s q → Cow.Shared (ps.foldl Cow.share s) q) ∧
    ∀ q ∈ ps, q < s.length → Cow.Shared (ps.foldl Cow.share s) q := by
  induction ps generalizing s with
  | nil => exact ⟨rfl, fun _ => rfl, fun _ hq => hq, fun _ hq => absurd hq List.not_mem_nil⟩
  | cons p ps ih =>
    obtain ⟨hlen, hread, hkeep, hshare⟩ := ih (s := Cow.share s p)
    rw [List.foldl_cons]
    refine ⟨hlen.trans Cow.length_share, fun q => (hread q).trans Cow.read_share, fun q hq => hkeep q hq.share, ?_⟩
    intro q hq hlt
    rcases List.mem_cons.mp hq with rfl | hq
    · exact hkeep q (Cow.shared_share_self hlt)
    · exact hshare q hq (hlt.trans_eq Cow.length_share.symm)

/-- Pointers to flagged row maps, and the contents they stand for. -/
structure Frozen (m : Mem Val) (snap : String → Option Nat) (copies : String → Option (Contents Val)) : Prop where
  shared : ∀ qn p, snap qn = some p → Cow.Shared m.cells p
  contents : ∀ qn, (snap qn).map m.contents = copies qn

theorem Frozen.grow {snap : String → Option Nat} {copies : String → Option (Contents Val)} {mem : Mem Val}
    (h : Frozen w.mem snap copies) (hw : w.Inv) (hgrow : Grows w.mem mem) : Frozen mem snap copies where
  shared qn p hp := (h.shared qn p hp).append hgrow.cells
  contents qn := by
    rw [← h.contents qn]
    exact Option.map_congr fun p hp => hgrow.contents hw (h.shared qn p hp).lt

variable {snap : String → Option Nat} {copies : String → Option (Contents Val)} {r : Reference Val}

/-- The world shows `r`, and the pointers stand for the copies. -/
structure Holds (snap : String → Option Nat) (copies : String → Option (Contents Val)) (w : World Val)
    (r : Reference Val) : Prop extends w.Shows r where
  frozen : Frozen w.mem snap copies

/-- **A capture changes no contents**, and what it captured is flagged. -/
theorem World.Inv.capture (hw : w.Inv) :
    Holds (w.capturePointers S i).2 (w.view.copy S i) (w.capturePointers S i).1 w.view := by
  obtain ⟨hlen, hread, hkeep, hshare⟩ :=
    @foldl_share w.mem.cells (S.names.filterMap fun qn => w.tables (i, qn))
  have hcontents : (w.capturePointers S i).1.mem.contents = w.mem.contents := by
    funext q
    exact contents_congr hw List.prefix_rfl (hread q)
  have hbounded : (w.capturePointers S i).1.mem.Bounded := by
    intro q e he
    apply hw.bounded q e
    unfold Mem.rowMap at he ⊢
    rwa [← hread q]
  refine ⟨⟨⟨hw.owned.mono hlen.ge hkeep (fun _ _ hi => hi) fun _ => .inl, hbounded⟩,
    view_eq (fun _ => ?_) fun q _ => congrFun hcontents q⟩, ?_, ?_⟩
  · exact congrArg (Option.map · _) hcontents
  · intro qn p hp
    by_cases hqn : qn ∈ S.names
    · have htable : w.tables (i, qn) = some p := (if_pos hqn).symm.trans hp
      exact hshare p (List.mem_filterMap.mpr ⟨qn, hqn, htable⟩) (hw.owned.bound _ _ htable)
    · cases (if_neg hqn).symm.trans hp
  · intro qn
    rw [hcontents]
    unfold World.capturePointers Reference.copy
    dsimp only
    split
    · rfl
    · rfl

theorem refines_mark (hw : w.Inv) : Refines (w.step S (.mark i)) (w.view.step S (.mark i)) := by
  obtain ⟨⟨hinv, hview⟩, hfrozen⟩ := hw.capture (S := S) (i := i)
  refine ⟨⟨hinv.owned.mono le_rfl (fun _ hp => hp) (fun _ _ hi => hi) ?_, hinv.bounded⟩, ?_, ?_⟩
  · rintro p ⟨saved, hsaved, qn, hp⟩
    rcases List.mem_append.mp hsaved with hsaved | hsaved
    · exact .inl ⟨saved, hsaved, qn, hp⟩
    · obtain rfl := List.mem_singleton.mp hsaved
      exact .inr (hfrozen.shared qn p hp)
  · have hcopy : (fun qn => ((w.capturePointers S i).2 qn).map (w.capturePointers S i).1.mem.contents) =
        w.view.copy S i := funext hfrozen.contents
    have hmarks : (w.capturePointers S i).1.view.marks = w.view.marks := congrArg Reference.marks hview
    have htables : (w.capturePointers S i).1.view.tables = w.view.tables := congrArg Reference.tables hview
    show ({ boxes := w.boxes, tables := (w.capturePointers S i).1.view.tables, marks := _ } : Reference Val) =
      { boxes := w.boxes, tables := w.view.tables, marks := w.view.marks ++ [(i, w.view.copy S i)] }
    rw [htables, ← hmarks, ← hcopy]
    congr 1
    exact List.map_append
  · show Result.mark w.marks.length = Result.mark (w.marks.map _).length
    rw [List.length_map]

/-! ### Restoring and forking -/

/-- A loop over the names of the catalog that sets a table in each round. -/
theorem foldl_tables {step : World Val → String → World Val} {g : String → Option (Contents Val) → Option (Contents Val)}
    (hg : ∀ qn o, g qn (g qn o) = g qn o)
    (hstep : ∀ w qn, w.Inv → Frozen w.mem snap copies → Holds snap copies (step w qn)
      { w.view with tables := Function.update w.view.tables (i, qn) (g qn (w.view.tables (i, qn))) })
    (names : List String) (h : Holds snap copies w r) : Holds snap copies (names.foldl step w)
      { r with tables := fun x => if x.1 = i ∧ x.2 ∈ names then g x.2 (r.tables x) else r.tables x } := by
  induction names generalizing w r with
  | nil => simpa using h
  | cons qn names ih =>
    obtain ⟨⟨hw, rfl⟩, hfrozen⟩ := h
    refine (congrArg (Holds snap copies _) ?_).mp (ih (hstep w qn hw hfrozen))
    dsimp only
    congr 1
    funext x
    by_cases hx : x = (i, qn)
    · -- a name that comes again is set to the same
      subst hx
      rw [Function.update_self, if_pos (⟨rfl, List.mem_cons_self⟩ : i = i ∧ qn ∈ qn :: names)]
      split
      · exact hg _ _
      · rfl
    · rw [Function.update_of_ne hx]
      have hne : ¬ (x.1 = i ∧ x.2 = qn) := fun h => hx (Prod.ext h.1 h.2)
      simp only [List.mem_cons, and_or_left, or_iff_right hne]

theorem replaceTable_refines (w : World Val) (qn : String) (hw : w.Inv) (hfrozen : Frozen w.mem snap copies) :
    Holds snap copies (w.replaceTable i snap qn) { w.view with
      tables := Function.update w.view.tables (i, qn) ((w.view.tables (i, qn)).map fun _ => (copies qn).getD []) } := by
  unfold World.replaceTable
  have htable : w.view.tables (i, qn) = (w.tables (i, qn)).map w.mem.contents := rfl
  rw [htable, ← hfrozen.contents qn]
  cases hx : w.tables (i, qn) with
  | none =>
    have hnone : w.view.tables (i, qn) = none := by
      rw [htable, hx]
      rfl
    refine ⟨⟨hw, ?_⟩, hfrozen⟩
    show w.view = { w.view with tables := Function.update w.view.tables (i, qn) none }
    rw [← hnone, Function.update_eq_self]
  | some _ =>
    cases hsnap : snap qn with
    | some p => exact ⟨hw.point (hfrozen.shared qn p hsnap), hfrozen⟩
    | none => exact ⟨hw.newTable, hfrozen.grow hw (grows_newTable hw)⟩

theorem installTable_refines (w : World Val) (qn : String) (hw : w.Inv) (hfrozen : Frozen w.mem snap copies) :
    Holds snap copies (w.installTable i snap qn)
      { w.view with tables := Function.update w.view.tables (i, qn) (some ((copies qn).getD [])) } := by
  unfold World.installTable
  have hgrow := grows_newTable hw
  have hfrozen' := hfrozen.grow hw hgrow
  refine ⟨?_, hfrozen'⟩
  rw [← hfrozen'.contents qn]
  cases hsnap : snap qn with
  | some p =>
    obtain ⟨hinv, hview⟩ := hw.grow hgrow
    rw [← hview]
    exact hinv.point (hfrozen'.shared qn p hsnap)
  | none => exact hw.newTable

theorem forkOne_refines (h : Holds snap copies w r) : Holds snap copies (w.forkOne S snap) (r.forkOne S copies) := by
  obtain ⟨⟨hw, rfl⟩, hfrozen⟩ := h
  -- a new pool has no tables
  have hnew : ({ w with boxes := w.boxes + 1, tables := fun x => if x.1 = w.boxes then none else w.tables x } :
      World Val).Inv := by
    refine ⟨hw.owned.mono le_rfl (fun _ hp => hp) (fun x p hx => ?_) fun p hp => .inl hp, hw.bounded⟩
    by_cases hbox : x.1 = w.boxes
    · cases (if_pos hbox).symm.trans hx
    · exact (if_neg hbox).symm.trans hx
  refine (congrArg (Holds snap copies _) ?_).mp (foldl_tables (i := w.boxes) (g := fun qn _ => some ((copies qn).getD []))
    (fun _ _ => rfl) installTable_refines S.names ⟨⟨hnew, rfl⟩, hfrozen⟩)
  unfold World.view Reference.forkOne
  dsimp only
  congr 1
  funext x
  by_cases hbox : x.1 = w.boxes
  · rw [if_pos hbox, if_pos hbox]
    rfl
  · rw [if_neg hbox, if_neg hbox]

/-- **A fork starts with a copy.** -/
theorem refines_fork (hw : w.Inv) (n : Int) : Refines (w.step S (.fork i n)) (w.view.step S (.fork i n)) := by
  unfold World.step Reference.step
  dsimp only
  split
  · exact ⟨hw, rfl, rfl⟩
  · split
    · exact ⟨hw, rfl, rfl⟩
    · have hloop := List.foldl_rel (l := List.range n.toNat) (f := fun w' _ => w'.forkOne S (w.capturePointers S i).2)
        (g := fun r' _ => r'.forkOne S (w.view.copy S i)) (hw.capture (S := S) (i := i))
        (fun _ _ _ _ => forkOne_refines)
      exact ⟨hloop.inv, hloop.view, rfl⟩

theorem refines_restoreTo (hw : w.Inv) (k : Nat) :
    Refines (w.step S (.restoreTo i k)) (w.view.step S (.restoreTo i k)) := by
  unfold World.step Reference.step
  have hmark : w.view.marks[k]? =
      w.marks[k]?.map fun saved => (saved.owner, fun qn => (saved.captured qn).map w.mem.contents) := List.getElem?_map
  dsimp only
  rw [hmark]
  cases hk : w.marks[k]? with
  | none => exact ⟨hw, rfl, rfl⟩
  | some saved =>
    dsimp only [Option.map_some]
    split
    · exact ⟨hw, rfl, rfl⟩
    · have hfrozen : Frozen w.mem saved.captured fun qn => (saved.captured qn).map w.mem.contents :=
        ⟨fun qn p hp => hw.owned.caught p ⟨saved, List.mem_of_getElem? hk, qn, hp⟩, fun _ => rfl⟩
      have hdone := foldl_tables (g := fun qn o => o.map fun _ => ((saved.captured qn).map w.mem.contents).getD [])
        (fun _ _ => Option.map_map ..) (replaceTable_refines (i := i)) S.names ⟨⟨hw, rfl⟩, hfrozen⟩
      exact ⟨hdone.inv, hdone.view, rfl⟩

/-! ### Snapshots and imports -/

theorem exportTable_view : w.exportTable x = w.view.exportTable x := by
  unfold World.exportTable Reference.exportTable
  show _ = match (w.tables x).map w.mem.contents with
    | none => []
    | some c => (World.scanKeys c).filterMap fun k => c.lookup k
  cases w.tables x with
  | none => rfl
  | some p =>
    dsimp only [Option.map_some]
    have hkeys : World.scanKeys (w.mem.contents p) = World.scanKeys (w.mem.rowMap p) := by
      unfold World.scanKeys Mem.contents resolve
      rw [List.map_map]
      rfl
    rw [hkeys]
    congr 1
    funext k
    exact lookup_resolve.symm

/-- The rows of a table that is being made, which no sandbox points to yet. -/
theorem insertAll_refines {s : Cow.Store (List (String × Nat))} (d : TableDesc) (rows : List (Row Val)) {m : Mem Val}
    {p : Nat} (hm : m.Bounded) (hs : s <+: m.cells) (hle : s.length ≤ p) (hlt : p < m.cells.length) :
    ∃ m' p', World.insertAll S d rows m p = (m', p', (Reference.insertAll S d rows (m.contents p)).2) ∧
      m.rows <+: m'.rows ∧ m'.Bounded ∧ (s <+: m'.cells ∧ s.length ≤ p' ∧ p' < m'.cells.length) ∧
      m'.contents p' = (Reference.insertAll S d rows (m.contents p)).1 := by
  induction rows generalizing m p with
  | nil => exact ⟨m, p, rfl, List.prefix_rfl, hm, ⟨hs, hle, hlt⟩, rfl⟩
  | cons r rows ih =>
    obtain ⟨hstored, hout⟩ := @stored_insert Val S.sprint m p hm hlt d r
    obtain ⟨hs', hle', hlt'⟩ := hstored.moved.new hs hle hlt
    have hdone := hstored.contents
    unfold World.insertAll Reference.insertAll
    revert hstored hout hs' hle' hlt' hdone
    generalize m.insert S.sprint d p r = done
    generalize (m.contents p).insert S.sprint d r = ref
    obtain ⟨m₁, p₁, o⟩ := done
    obtain ⟨c, o'⟩ := ref
    intro hstored hout hs' hle' hlt' hdone
    dsimp only at hstored hout hs' hle' hlt' hdone
    subst hout
    obtain ⟨m', p', heq, hrows, hrest⟩ := ih hstored.bounded hs' hle' hlt'
    rw [hdone] at heq hrest
    cases o with
    | error e => exact ⟨m₁, p₁, rfl, hstored.rows, hstored.bounded, ⟨hs', hle', hlt'⟩, hdone⟩
    | key _ | affected _ | panic => exact ⟨m', p', heq, hstored.rows.trans hrows, hrest⟩

theorem importTables_refines (rows : List (String × List (Row Val))) (ds : List TableDesc) (hw : w.Inv) :
    Refines (World.importTables S i rows ds w) (Reference.importTables S i rows ds w.view) := by
  induction ds generalizing w with
  | nil => exact ⟨hw, rfl, rfl⟩
  | cons d ds ih =>
    have hnew := grows_newTable hw
    obtain ⟨hle, hlt⟩ := newTable_bounds w.mem
    obtain ⟨mem, p, heq, hrows, hbounded, ⟨hs, hle', hlt'⟩, hcontents⟩ :=
      insertAll_refines (S := S) d ((rows.lookup d.qualified).getD []) hnew.bounded hnew.cells hle hlt
    have hgrow : Grows w.mem mem := ⟨hnew.rows.trans hrows, hs, hbounded⟩
    rw [hw.contents_newTable] at heq hcontents
    unfold World.importTables Reference.importTables
    dsimp only
    rw [heq]
    revert hcontents
    generalize Reference.insertAll S d ((rows.lookup d.qualified).getD []) [] = ref
    obtain ⟨c, e⟩ := ref
    intro hcontents
    cases e with
    | none =>
      obtain ⟨hinv, hview⟩ := hw.fresh (x := (i, d.qualified)) hgrow hle' hlt'
      rw [hcontents] at hview
      dsimp only
      rw [← hview]
      exact ih hinv
    | some e =>
      obtain ⟨hinv, hview⟩ := hw.grow hgrow
      exact ⟨hinv, hview, rfl⟩

theorem importRows_refines (rows : List (String × List (Row Val))) (hw : w.Inv) :
    Refines (w.importRows S i rows) (w.view.importRows S i rows) := by
  unfold World.importRows Reference.importRows
  cases rows.find? fun e => (S.lookup e.1).isNone with
  | some e => exact ⟨hw, rfl, rfl⟩
  | none => exact importTables_refines rows S.catalog hw

/-- **Every operation refines its reference.** -/
theorem step_refines (hw : w.Inv) (op : Op Val Blob) : Refines (w.step S op) (w.view.step S op) := by
  cases op with
  | insert i qn r => exact refines_statement (fun d m p hm hp => stored_insert hm hp d r) hw
  | update i qn key set => exact refines_statement (fun d m p hm hp => stored_update hm hp d key set) hw
  | delete i qn key => exact refines_statement (fun _ m p hm hp => stored_delete hm hp key) hw
  | mark i => exact refines_mark hw
  | restoreTo i k => exact refines_restoreTo hw k
  | fork i n => exact refines_fork hw n
  | snapshot i =>
    refine ⟨hw, rfl, ?_⟩
    show sealSnapshot S _ = sealSnapshot S _
    congr 1
    apply List.map_congr_left
    intro qn _
    rw [exportTable_view]
  | restore i blob =>
    unfold World.step Reference.step
    dsimp only
    cases openSnapshot S blob with
    | error e => exact ⟨hw, rfl, rfl⟩
    | ok rows => exact importRows_refines rows hw
  | importRows i rows => exact importRows_refines rows hw

/-! ## Runs -/

variable (S)

/-- A sequence of operations, each on a sandbox that is there, and what they return. -/
def World.run (w : World Val) : List (Op Val Blob) → World Val × List (Result Blob)
  | [] => (w, [])
  | op :: ops =>
    if op.box < w.boxes then
      ((World.run (w.step S op).1 ops).1, (w.step S op).2 :: (World.run (w.step S op).1 ops).2)
    else World.run w ops

def Reference.run (r : Reference Val) : List (Op Val Blob) → Reference Val × List (Result Blob)
  | [] => (r, [])
  | op :: ops =>
    if op.box < r.boxes then
      ((Reference.run (r.step S op).1 ops).1, (r.step S op).2 :: (Reference.run (r.step S op).1 ops).2)
    else Reference.run r ops

variable {S}

theorem inv_init : ({} : World Val).Inv := by
  refine ⟨⟨?_, ?_, ?_⟩, ?_⟩
  · intro x p h
    cases h
  · rintro p ⟨saved, hsaved, _⟩
    cases hsaved
  · intro x y p h
    cases h
  · intro p e he
    cases he

/-- **Every sequence of operations refines its reference.** -/
theorem run_refines (hw : w.Inv) (ops : List (Op Val Blob)) : (w.run S ops).1.Inv ∧
    (w.run S ops).1.view = (w.view.run S ops).1 ∧ (w.run S ops).2 = (w.view.run S ops).2 := by
  induction ops generalizing w with
  | nil => exact ⟨hw, rfl, rfl⟩
  | cons op ops ih =>
    unfold World.run Reference.run
    have hboxes : w.view.boxes = w.boxes := rfl
    rw [hboxes]
    split
    · obtain ⟨hinv, hview, hout⟩ := step_refines (S := S) hw op
      rw [← hview, ← hout]
      obtain ⟨hinv', hview', hout'⟩ := ih hinv
      exact ⟨hinv', hview', congrArg (List.cons _) hout'⟩
    · exact ih hw

/-! ### The reference is isolated -/

/-- What an operation of one sandbox leaves of the others. -/
structure Reference.Keeps (i : Nat) (r r' : Reference Val) : Prop where
  boxes : r.boxes ≤ r'.boxes
  others : ∀ x, x.1 ≠ i → x.1 < r.boxes → r'.tables x = r.tables x
  present : ∀ x, x.1 < r.boxes → (r.tables x).isSome → (r'.tables x).isSome
  marks : r'.marks = r.marks

theorem Reference.Keeps.refl (i : Nat) (r : Reference Val) : r.Keeps i r :=
  ⟨le_rfl, fun _ _ _ => rfl, fun _ _ h => h, rfl⟩

theorem Reference.Keeps.trans {i : Nat} {r₁ r₂ r₃ : Reference Val} (h₁ : r₁.Keeps i r₂) (h₂ : r₂.Keeps i r₃) :
    r₁.Keeps i r₃ where
  boxes := h₁.boxes.trans h₂.boxes
  others x hx hlt := (h₂.others x hx (hlt.trans_le h₁.boxes)).trans (h₁.others x hx hlt)
  present x hlt hsome := h₂.present x (hlt.trans_le h₁.boxes) (h₁.present x hlt hsome)
  marks := h₂.marks.trans h₁.marks

theorem Reference.keeps_set (x : Nat × String) (c : Contents Val) : r.Keeps x.1 (r.set x c) where
  boxes := le_rfl
  others y hy _ := Function.update_of_ne (fun h => hy (congrArg Prod.fst h)) ..
  present y _ hsome := by
    show (Function.update r.tables x (some c) y).isSome
    by_cases hy : y = x
    · rw [hy, Function.update_self]
      rfl
    · rwa [Function.update_of_ne hy]
  marks := rfl

theorem Reference.keeps_statement (x : Nat × String) (f : TableDesc → Contents Val → Contents Val × Outcome) :
    r.Keeps x.1 (r.statement S x f).1 := by
  unfold Reference.statement
  cases S.lookup x.2 with
  | none => exact .refl _ _
  | some d => exact keeps_set x _

theorem Reference.keeps_replace (i : Nat) (copies : String → Option (Contents Val)) : r.Keeps i (r.replace S i copies) where
  boxes := le_rfl
  others x hx _ := if_neg fun h => hx h.1
  present x _ hsome := by
    show (if _ then _ else _ : Option _).isSome
    split
    · rwa [Option.isSome_map]
    · exact hsome
  marks := rfl

theorem Reference.keeps_forkOne (i : Nat) (copies : String → Option (Contents Val)) : r.Keeps i (r.forkOne S copies) := by
  have hsame : ∀ x : Nat × String, x.1 < r.boxes → (r.forkOne S copies).tables x = r.tables x := by
    intro x hlt
    have hne : x.1 ≠ r.boxes := Nat.ne_of_lt hlt
    exact (if_neg fun h => hne h.1).trans (if_neg hne)
  refine ⟨Nat.le_succ _, fun x _ hlt => hsame x hlt, fun x hlt hsome => ?_, rfl⟩
  rwa [hsame x hlt]

theorem Reference.keeps_forks (i : Nat) (copies : String → Option (Contents Val)) (l : List Nat) :
    r.Keeps i (l.foldl (fun r' _ => r'.forkOne S copies) r) := by
  induction l generalizing r with
  | nil => exact .refl i r
  | cons _ l ih => exact (keeps_forkOne i copies).trans ih

theorem Reference.keeps_importRows (i : Nat) (rows : List (String × List (Row Val))) :
    r.Keeps i (r.importRows S i rows).1 := by
  unfold Reference.importRows
  split
  · exact .refl i r
  · show r.Keeps i (Reference.importTables S i rows S.catalog r).1
    induction S.catalog generalizing r with
    | nil => exact .refl i r
    | cons d ds ih =>
      unfold Reference.importTables
      split
      · exact (keeps_set (i, d.qualified) _).trans ih
      · exact .refl i r

/-- **An operation of one sandbox leaves the others as they are**, and the marks, to which one of the tables that are there
    may be added. -/
theorem Reference.step_cases (op : Op Val Blob) : r.Keeps op.box (r.step S op).1 ∨
    ∃ i, op = .mark i ∧ (r.step S op).1 = { r with marks := r.marks ++ [(i, r.copy S i)] } := by
  cases op with
  | mark i => exact .inr ⟨i, rfl, rfl⟩
  | insert i qn row => exact .inl (keeps_statement (i, qn) _)
  | update i qn key set => exact .inl (keeps_statement (i, qn) _)
  | delete i qn key => exact .inl (keeps_statement (i, qn) _)
  | restoreTo i k =>
    left
    unfold Reference.step
    dsimp only
    split
    · exact .refl i r
    · split
      · exact .refl i r
      · exact keeps_replace i _
  | fork i n =>
    left
    unfold Reference.step
    dsimp only
    split
    · exact .refl i r
    · split
      · exact .refl i r
      · exact keeps_forks i _ _
  | snapshot i => exact .inl (.refl i r)
  | restore i blob =>
    left
    unfold Reference.step
    dsimp only
    split
    · exact .refl i r
    · exact keeps_importRows i _
  | importRows i rows => exact .inl (keeps_importRows i rows)

theorem Reference.marks_run (ops : List (Op Val Blob)) : r.marks <+: (r.run S ops).1.marks := by
  induction ops generalizing r with
  | nil => exact List.prefix_rfl
  | cons op ops ih =>
    unfold Reference.run
    split
    · refine List.IsPrefix.trans ?_ ih
      rcases step_cases (S := S) (r := r) op with hkeeps | ⟨i, _, heq⟩
      · rw [hkeeps.marks]
      · rw [heq]
        exact List.prefix_append ..
    · exact ih

/-- The tables a mark copied are there. -/
def Reference.MarksPresent (r : Reference Val) : Prop :=
  ∀ saved ∈ r.marks, saved.1 < r.boxes ∧ ∀ qn c, saved.2 qn = some c → qn ∈ S.names ∧ (r.tables (saved.1, qn)).isSome

theorem Reference.marksPresent_step (h : r.MarksPresent (S := S)) (op : Op Val Blob) (hbox : op.box < r.boxes) :
    (r.step S op).1.MarksPresent (S := S) := by
  intro saved hsaved
  rcases step_cases (S := S) (r := r) op with hkeeps | ⟨i, rfl, heq⟩
  · rw [hkeeps.marks] at hsaved
    obtain ⟨hlt, hpresent⟩ := h saved hsaved
    refine ⟨hlt.trans_le hkeeps.boxes, fun qn c hc => ?_⟩
    obtain ⟨hqn, hsome⟩ := hpresent qn c hc
    exact ⟨hqn, hkeeps.present _ hlt hsome⟩
  · rw [heq] at hsaved ⊢
    rcases List.mem_append.mp hsaved with hsaved | hsaved
    · exact h saved hsaved
    · obtain rfl := List.mem_singleton.mp hsaved
      refine ⟨hbox, fun qn c hc => ?_⟩
      have htable : (if qn ∈ S.names then r.tables (i, qn) else none) = some c := hc
      split at htable
      · rename_i hqn
        exact ⟨hqn, Option.isSome_of_eq_some htable⟩
      · cases htable

theorem Reference.marksPresent_run (h : r.MarksPresent (S := S)) (ops : List (Op Val Blob)) :
    (r.run S ops).1.MarksPresent (S := S) := by
  induction ops generalizing r with
  | nil => exact h
  | cons op ops ih =>
    unfold Reference.run
    split
    · rename_i hbox
      exact ih (marksPresent_step h op hbox)
    · exact ih h

/-- A restored sandbox has the rows of the mark, in all tables of the catalog. -/
theorem Reference.tables_restoreTo (h : r.MarksPresent (S := S)) {i k : Nat} {copies : String → Option (Contents Val)}
    (hk : r.marks[k]? = some (i, copies)) {qn : String} (hqn : qn ∈ S.names) :
    ((r.step S (.restoreTo i k)).1.tables (i, qn)).getD [] = (copies qn).getD [] := by
  have hstep : (r.step S (.restoreTo i k)).1 = r.replace S i copies := by
    unfold Reference.step
    dsimp only
    rw [hk]
    exact congrArg Prod.fst (if_neg (not_not.mpr rfl))
  have htable : (r.replace S i copies).tables (i, qn) = (r.tables (i, qn)).map fun _ => (copies qn).getD [] :=
    if_pos ⟨rfl, hqn⟩
  rw [hstep, htable]
  cases hr : r.tables (i, qn) with
  | some c => rfl
  | none =>
    cases hc : copies qn with
    | none => rfl
    | some c =>
      have hsome := ((h _ (List.mem_of_getElem? hk)).2 qn c hc).2
      rw [hr] at hsome
      cases hsome

/-- **Marks and forks are isolated.** After any sequence of operations on a tree of sandboxes, all tables and marks have
    the contents of the reference and all operations returned the same; no later operation changes a mark; a restored
    sandbox has the rows of the mark; and an operation of one sandbox changes no table of another. -/
theorem sandboxes_isolated {Val Blob : Type} (S : Setting Val Blob) (ops : List (Op Val Blob)) :
    ((World.run S {} ops).1.view = (Reference.run S {} ops).1 ∧
      (World.run S {} ops).2 = (Reference.run S {} ops).2) ∧
    (∀ (more : List (Op Val Blob)) (k : Nat) saved, (World.run S {} ops).1.view.marks[k]? = some saved →
      ((World.run S {} ops).1.run S more).1.view.marks[k]? = some saved) ∧
    (∀ (i k : Nat) copies qn, (World.run S {} ops).1.view.marks[k]? = some (i, copies) → qn ∈ S.names →
      (((World.run S {} ops).1.step S (.restoreTo i k)).1.view.tables (i, qn)).getD [] = (copies qn).getD []) ∧
    (∀ (op : Op Val Blob) (j : Nat) (qn : String), j ≠ op.box → j < (World.run S {} ops).1.boxes →
      ((World.run S {} ops).1.step S op).1.view.tables (j, qn) = (World.run S {} ops).1.view.tables (j, qn)) := by
  obtain ⟨hinv, hview, hout⟩ := run_refines (S := S) (@inv_init Val) ops
  have hpresent : (World.run S {} ops).1.view.MarksPresent (S := S) := by
    rw [hview]
    apply Reference.marksPresent_run
    intro saved hsaved
    cases hsaved
  refine ⟨⟨hview, hout⟩, fun more k saved hk => ?_, fun i k copies qn hk hqn => ?_, fun op j qn hj hlt => ?_⟩
  · rw [(run_refines hinv more).2.1]
    obtain ⟨added, heq⟩ := Reference.marks_run (S := S) (r := (World.run S {} ops).1.view) more
    rw [← heq, List.getElem?_append_left (List.getElem?_eq_some_iff.mp hk).1]
    exact hk
  · rw [(step_refines hinv _).2.1]
    exact Reference.tables_restoreTo hpresent hk hqn
  · rw [(step_refines hinv op).2.1]
    rcases Reference.step_cases (S := S) op with hkeeps | ⟨i, _, heq⟩
    · exact hkeeps.others (j, qn) hj hlt
    · rw [heq]

end Atlantis.Sandbox
