import Atlantis.Lib.CopyOnWrite
import Atlantis.Schema.Validate
import Mathlib.Data.List.GetD

/-!
# `Sandbox.Table` — tables of the simulator

A table points to a row map, a row map points to rows. `Insert`, `Update` and `Delete` take a writable row map first: the
table's own, or a copy of it if it has been captured. Rows are copied before they are stored and before they are
patched, so a stored row is not written again.

Each operation leaves the contents that the same operation leaves on plain values (`Stored`): the table's new row map
resolves to them, the rows that were there stay where they are, and the row maps that were there too, except for the
table's own if it was not captured.
-/

namespace Atlantis.Sandbox

open Lib

/-! ## Code -/

/-- `TableDesc`, as far as rows depend on it. -/
structure TableDesc where
  schema : String
  name : String
  cols : List String
  pkCols : List String
  deriving DecidableEq, Repr

/-- `(*TableDesc).Qualified`. -/
def TableDesc.qualified (d : TableDesc) : String := d.schema ++ "." ++ d.name

/-- `(*TableDesc).ColIndex`. -/
def TableDesc.colIndex (d : TableDesc) (name : String) : Option Nat := d.cols.findIdx? (· == name)

/-- `Row`; a value that is missing is `NULL`. -/
abbrev Row (Val : Type) := List (Option Val)

/-- The memory: the row maps by key, with pointers to rows, and the rows. -/
structure Mem (Val : Type) where
  cells : Cow.Store (List (String × Nat)) := []
  rows : List (Row Val) := []

/-- The map with `key` bound to `v`. -/
def put {β : Type} (key : String) (v : β) (l : List (String × β)) : List (String × β) :=
  (key, v) :: l.filter (·.1 ≠ key)

/-- The map without `key`. -/
def erase {β : Type} (key : String) (l : List (String × β)) : List (String × β) := l.filter (·.1 ≠ key)

variable {Val : Type} (sprint : Val → String)

/-- The row map a pointer refers to. -/
def Mem.rowMap (m : Mem Val) (p : Nat) : List (String × Nat) := (Cow.read m.cells p).getD []

/-- The row a pointer refers to. -/
def Mem.row (m : Mem Val) (r : Nat) : Row Val := m.rows.getD r []

/-- `NewTable`: an empty row map. -/
def Mem.newTable (m : Mem Val) : Mem Val × Nat :=
  ({ m with cells := m.cells ++ [{ value := [], shared := false }] }, m.cells.length)

/-- The parts of a key; a column that is missing or `NULL` is an error. -/
def pkParts (d : TableDesc) (r : Row Val) : Except String (List String) :=
  d.pkCols.mapM fun pk =>
    match (d.colIndex pk).bind fun idx => r[idx]? with
    | none => .error ("sandbox: row missing PK column " ++ Schema.quoted pk)
    | some none => .error ("sandbox: PK column " ++ Schema.quoted pk ++ " is NULL")
    | some (some v) => .ok (sprint v)

/-- `(*Table).PKKey`. -/
def PKKey (d : TableDesc) (r : Row Val) : Except String String := do
  let parts ← pkParts sprint d r
  .ok ("\x00".intercalate parts)

/-- What a statement on a table returns. -/
inductive Outcome where
  | key (key : String)
  | affected (n : Nat)
  | error (message : String)
  | panic
  deriving DecidableEq, Repr

def conflictError (d : TableDesc) (key : String) : Outcome :=
  .error ("sandbox: sandbox: primary key conflict on " ++ d.qualified ++ " key=" ++ key)

/-- `(*Table).Insert`, on the table that points to `p`: the memory, where it points, and what is returned. -/
def Mem.insert (m : Mem Val) (d : TableDesc) (p : Nat) (r : Row Val) : Mem Val × Nat × Outcome :=
  match PKKey sprint d r with
  | .error e => (m, p, .error e)
  | .ok key =>
    let (cells, q) := Cow.writable m.cells p
    let rm := (Cow.read cells q).getD []
    if (rm.lookup key).isSome then ({ m with cells }, q, conflictError d key)
    else ({ cells := Cow.write cells q (put key m.rows.length rm), rows := m.rows ++ [r] }, q, .key key)

/-- A copy of a row with columns set; columns that the table does not have are skipped, an index past its end panics. -/
def patchRow (d : TableDesc) (r : Row Val) : List (String × Option Val) → Option (Row Val)
  | [] => some r
  | (col, v) :: set =>
    match d.colIndex col with
    | none => patchRow d r set
    | some idx => if idx < r.length then patchRow d (r.set idx v) set else none

/-- `(*Table).Update`. -/
def Mem.update (m : Mem Val) (d : TableDesc) (p : Nat) (key : String) (set : List (String × Option Val)) :
    Mem Val × Nat × Outcome :=
  let (cells, q) := Cow.writable m.cells p
  let rm := (Cow.read cells q).getD []
  match rm.lookup key with
  | none => ({ m with cells }, q, .affected 0)
  | some r =>
    match patchRow d (m.row r) set with
    | none => ({ m with cells }, q, .panic)
    | some cp => ({ cells := Cow.write cells q (put key m.rows.length rm), rows := m.rows ++ [cp] }, q, .affected 1)

/-- `(*Table).Delete`. -/
def Mem.delete (m : Mem Val) (p : Nat) (key : String) : Mem Val × Nat × Outcome :=
  let (cells, q) := Cow.writable m.cells p
  let rm := (Cow.read cells q).getD []
  match rm.lookup key with
  | none => ({ m with cells }, q, .affected 0)
  | some _ => ({ m with cells := Cow.write cells q (erase key rm) }, q, .affected 1)

/-! ## Tables as values -/

/-- The contents of a table: its rows by key. -/
abbrev Contents (Val : Type) := List (String × Row Val)

namespace Contents

def insert (c : Contents Val) (d : TableDesc) (r : Row Val) : Contents Val × Outcome :=
  match PKKey sprint d r with
  | .error e => (c, .error e)
  | .ok key => if (c.lookup key).isSome then (c, conflictError d key) else (put key r c, .key key)

def update (c : Contents Val) (d : TableDesc) (key : String) (set : List (String × Option Val)) :
    Contents Val × Outcome :=
  match c.lookup key with
  | none => (c, .affected 0)
  | some r =>
    match patchRow d r set with
    | none => (c, .panic)
    | some cp => (put key cp c, .affected 1)

def delete (c : Contents Val) (key : String) : Contents Val × Outcome :=
  match c.lookup key with
  | none => (c, .affected 0)
  | some _ => (erase key c, .affected 1)

end Contents

/-! ## Pointers resolved -/

variable {m m' : Mem Val} {p q : Nat} {key : String}

/-- The contents a row map stands for. -/
def resolve (rows : List (Row Val)) (rm : List (String × Nat)) : Contents Val :=
  rm.map fun e => (e.1, rows.getD e.2 [])

def Mem.contents (m : Mem Val) (p : Nat) : Contents Val := resolve m.rows (m.rowMap p)

/-- Row maps point to rows that are there. -/
def Mem.Bounded (m : Mem Val) : Prop := ∀ p, ∀ e ∈ m.rowMap p, e.2 < m.rows.length

variable {rows : List (Row Val)} {rm : List (String × Nat)}

theorem resolve_put {r : Nat} : resolve rows (put key r rm) = put key (rows.getD r []) (resolve rows rm) := by
  unfold resolve put
  rw [List.map_cons, List.filter_map]
  rfl

theorem resolve_erase : resolve rows (erase key rm) = erase key (resolve rows rm) := by
  unfold resolve erase
  rw [List.filter_map]
  rfl

theorem lookup_resolve : (resolve rows rm).lookup key = (rm.lookup key).map fun r => rows.getD r [] := by
  induction rm with
  | nil => rfl
  | cons e rm ih =>
    show List.lookup key ((e.1, rows.getD e.2 []) :: resolve rows rm) = (List.lookup key ((e.1, e.2) :: rm)).map _
    rw [List.lookup_cons, List.lookup_cons]
    split
    · rfl
    · exact ih

/-- Rows that are added do not change what was there. -/
theorem resolve_append {rows' : List (Row Val)} (hrows : rows <+: rows') (hrm : ∀ e ∈ rm, e.2 < rows.length) :
    resolve rows' rm = resolve rows rm := by
  obtain ⟨added, rfl⟩ := hrows
  apply List.map_congr_left
  intro e he
  rw [List.getD_append _ _ _ _ (hrm e he)]

/-- **A statement has been carried out**: the table that pointed to `p` points to `p'`, and has the contents `c`. -/
structure Stored (m : Mem Val) (p : Nat) (m' : Mem Val) (p' : Nat) (c : Contents Val) : Prop where
  rows : m.rows <+: m'.rows
  moved : Cow.Moved m.cells p m'.cells p'
  bounded : m'.Bounded
  contents : m'.contents p' = c

/-- A holder has moved to a row map whose rows are there. -/
theorem stored_of_moved {cells : Cow.Store (List (String × Nat))} {p' : Nat} (hm : m.Bounded) (hrows : m.rows <+: rows)
    (hmoved : Cow.Moved m.cells p cells p') (hself : (Cow.read cells p').getD [] = rm)
    (hrm : ∀ e ∈ rm, e.2 < rows.length) : Stored m p { cells, rows } p' (resolve rows rm) := by
  refine ⟨hrows, hmoved, fun q e he => ?_, congrArg (resolve rows) hself⟩
  by_cases hq : q = p'
  · subst hq
    exact hrm e (hself ▸ he)
  · unfold Mem.rowMap at he
    rw [hmoved.read_of_ne hq] at he
    exact Nat.lt_of_lt_of_le (hm q e he) hrows.length_le

theorem stored_newTable (hm : m.Bounded) : Stored m p m.newTable.1 m.newTable.2 [] := by
  refine @stored_of_moved _ _ _ _ [] _ _ hm List.prefix_rfl (.fresh _) ?_ fun e he => absurd he List.not_mem_nil
  unfold Cow.read Mem.newTable
  rw [List.getElem?_concat_length]
  rfl

/-- A statement that finds nothing to write still takes the writable row map. -/
theorem stored_writable (hm : m.Bounded) (hp : p < m.cells.length) :
    Stored m p { m with cells := (Cow.writable m.cells p).1 } (Cow.writable m.cells p).2 (m.contents p) := by
  obtain ⟨hmoved, hread, _⟩ := Cow.moved_writable hp
  exact stored_of_moved hm List.prefix_rfl hmoved (congrArg (Option.getD · []) hread) (hm p)

theorem stored_write (hm : m.Bounded) (hp : p < m.cells.length) (hrows : m.rows <+: rows)
    (hrm : ∀ e ∈ rm, e.2 < rows.length) :
    Stored m p { cells := Cow.write (Cow.writable m.cells p).1 (Cow.writable m.cells p).2 rm, rows }
      (Cow.writable m.cells p).2 (resolve rows rm) := by
  obtain ⟨_, _, hwrite⟩ := Cow.moved_writable hp
  obtain ⟨hmoved, hread⟩ := hwrite rm
  exact stored_of_moved hm hrows hmoved (congrArg (Option.getD · []) hread) hrm

theorem rowMap_writable (hp : p < m.cells.length) :
    (Cow.read (Cow.writable m.cells p).1 (Cow.writable m.cells p).2).getD [] = m.rowMap p := by
  rw [(Cow.moved_writable hp).2.1]
  rfl

/-- A row is stored at the end of the rows, under a key. -/
theorem stored_put {r : Row Val} (hm : m.Bounded) (hp : p < m.cells.length) :
    Stored m p
      { cells := Cow.write (Cow.writable m.cells p).1 (Cow.writable m.cells p).2 (put key m.rows.length (m.rowMap p)),
        rows := m.rows ++ [r] }
      (Cow.writable m.cells p).2 (put key r (m.contents p)) := by
  have hrows : m.rows <+: m.rows ++ [r] := List.prefix_append ..
  have hlen : (m.rows ++ [r]).length = m.rows.length + 1 := List.length_append
  have hcontents : resolve (m.rows ++ [r]) (put key m.rows.length (m.rowMap p)) = put key r (m.contents p) := by
    rw [resolve_put, resolve_append hrows (hm p)]
    congr 1
    rw [List.getD_eq_getElem?_getD, List.getElem?_concat_length]
    rfl
  rw [← hcontents]
  apply stored_write hm hp hrows
  intro e he
  rw [hlen]
  rcases List.mem_cons.mp he with rfl | he
  · exact Nat.lt_succ_self _
  · exact Nat.lt_succ_of_lt (hm p e (List.mem_filter.mp he).1)

/-! ## The statements -/

variable {sprint}

theorem stored_stay (hm : m.Bounded) : Stored m p m p (m.contents p) := ⟨List.prefix_rfl, .stay, hm, rfl⟩

theorem lookup_contents {key : String} : (m.contents p).lookup key = ((m.rowMap p).lookup key).map m.row := lookup_resolve

/-- **`Insert` leaves what it leaves on plain contents.** -/
theorem stored_insert (hm : m.Bounded) (hp : p < m.cells.length) (d : TableDesc) (r : Row Val) :
    Stored m p (m.insert sprint d p r).1 (m.insert sprint d p r).2.1 ((m.contents p).insert sprint d r).1 ∧
      (m.insert sprint d p r).2.2 = ((m.contents p).insert sprint d r).2 := by
  unfold Mem.insert Contents.insert
  cases hkey : PKKey sprint d r with
  | error e => exact ⟨stored_stay hm, rfl⟩
  | ok key =>
    dsimp only
    rw [rowMap_writable hp, lookup_contents, Option.isSome_map]
    split
    · exact ⟨stored_writable hm hp, rfl⟩
    · exact ⟨stored_put hm hp, rfl⟩

theorem stored_update (hm : m.Bounded) (hp : p < m.cells.length) (d : TableDesc) (key : String)
    (set : List (String × Option Val)) :
    Stored m p (m.update d p key set).1 (m.update d p key set).2.1 ((m.contents p).update d key set).1 ∧
      (m.update d p key set).2.2 = ((m.contents p).update d key set).2 := by
  unfold Mem.update Contents.update
  dsimp only
  rw [rowMap_writable hp, lookup_contents]
  cases (m.rowMap p).lookup key with
  | none => exact ⟨stored_writable hm hp, rfl⟩
  | some r =>
    dsimp only [Option.map_some]
    cases patchRow d (m.row r) set with
    | none => exact ⟨stored_writable hm hp, rfl⟩
    | some cp => exact ⟨stored_put hm hp, rfl⟩

theorem stored_delete (hm : m.Bounded) (hp : p < m.cells.length) (key : String) :
    Stored m p (m.delete p key).1 (m.delete p key).2.1 ((m.contents p).delete key).1 ∧
      (m.delete p key).2.2 = ((m.contents p).delete key).2 := by
  unfold Mem.delete Contents.delete
  dsimp only
  rw [rowMap_writable hp, lookup_contents]
  cases (m.rowMap p).lookup key with
  | none => exact ⟨stored_writable hm hp, rfl⟩
  | some r =>
    refine ⟨?_, rfl⟩
    dsimp only [Option.map_some]
    have hcontents : erase key (m.contents p) = resolve m.rows (erase key (m.rowMap p)) := resolve_erase.symm
    rw [hcontents]
    exact stored_write hm hp List.prefix_rfl fun e he => hm p e (List.mem_filter.mp he).1

end Atlantis.Sandbox
