import Atlantis.Pg.Tables

/-!
# `Pg.Keys` — a catalog as a map of named objects

Everything a catalog holds has a key: a table, a column, the `NOT NULL` mark and the default of a column, a
constraint, a trigger, an index, a function. `Catalog.get` looks a key up, and two catalogs with the same
objects are equal (`Catalog.ext_get`).
-/

namespace Atlantis.Pg

open Lib

/-- What can be named inside a table. -/
inductive Part where
  | self
  | column (n : String)
  | notNull (n : String)
  | default (n : String)
  | constraint (n : String)
  | trigger (n : String)
  deriving DecidableEq, Repr

inductive Key where
  | inTable (t : TableRef) (p : Part)
  | index (schema n : String)
  | function (n : String)
  deriving DecidableEq, Repr

inductive Obj where
  | table (hypertable : Option String)
  | column (type : String) (identity : Bool)
  | notNull (on : Bool)
  | default (d : Option ColDefault)
  | constraint (b : Constraint)
  | trigger (fn : String)
  | index (t : TableRef) (b : IndexBody)
  | function (col : String)
  deriving DecidableEq, Repr

def Table.get (tbl : Table) : Part → Option Obj
  | .self => some (.table tbl.hypertable)
  | .column n => (tbl.columns n).map fun x => .column x.type x.identity
  | .notNull n => (tbl.columns n).map fun x => .notNull x.notNull
  | .default n => (tbl.columns n).map fun x => .default x.default
  | .constraint n => (tbl.constraints n).map .constraint
  | .trigger n => (tbl.triggers n).map .trigger

def Catalog.get (c : Catalog) : Key → Option Obj
  | .inTable t p => (c.tables t).bind (·.get p)
  | .index schema n => (c.indexes schema n).map fun x => .index x.1 x.2
  | .function n => (c.functions n).map .function

/-! ## Looking up -/

variable {mentions : String → String → Bool} {c c' : Catalog} {t : TableRef} {tbl tbl' : Table}

theorem Catalog.get_of_table (h : c.tables t = some tbl) (p : Part) : c.get (.inTable t p) = tbl.get p := by
  show (c.tables t).bind _ = _
  rw [h]
  rfl

theorem Catalog.tables_setTable_self (c : Catalog) (t : TableRef) (tbl : Table) :
    (c.setTable t tbl).tables t = some tbl := by
  unfold Catalog.setTable
  exact Function.update_self ..

theorem Catalog.tables_setTable_ne {t' : TableRef} (h : t' ≠ t) : (c.setTable t tbl).tables t' = c.tables t' := by
  unfold Catalog.setTable
  exact Function.update_of_ne h ..

theorem Catalog.setTable_self (h : c.tables t = some tbl) : c.setTable t tbl = c := by
  unfold Catalog.setTable
  rw [← h, Function.update_eq_self]

theorem Catalog.table_eq_ok : c.table t = .ok tbl ↔ c.tables t = some tbl := by
  unfold Catalog.table
  cases c.tables t <;> simp

theorem Catalog.table_ok (h : c.table t = .ok tbl) : c.tables t = some tbl := Catalog.table_eq_ok.mp h

theorem Catalog.isSome_tables : (c.tables t).isSome ↔ (c.get (.inTable t .self)).isSome := by
  show _ ↔ ((c.tables t).bind _).isSome
  cases c.tables t <;> simp [Table.get]

/-- Replacing a table changes what is inside it. -/
theorem Catalog.get_setTable (k : Key) :
    (c.setTable t tbl).get k = match k with
      | .inTable t' p => if t' = t then tbl.get p else c.get (.inTable t' p)
      | k => c.get k := by
  cases k with
  | inTable t' p =>
    by_cases ht : t' = t
    · subst ht
      simp [Catalog.get, Catalog.setTable]
    · simp [Catalog.get, Catalog.setTable, ht]
  | index _ _ | function _ => rfl

/-- A table is determined by its parts. -/
theorem Table.ext_get (h : ∀ p, tbl.get p = tbl'.get p) : tbl = tbl' := by
  cases tbl with
  | mk columns constraints triggers hypertable =>
    cases tbl' with
    | mk columns' constraints' triggers' hypertable' =>
      have hhyper : hypertable = hypertable' := by
        have hself := h .self
        simpa [Table.get] using hself
      have hcols : columns = columns' := by
        funext n
        have htype := h (.column n)
        have hnull := h (.notNull n)
        have hdefault := h (.default n)
        simp only [Table.get] at htype hnull hdefault
        rcases hx : columns n with _ | ⟨_, _, _, _⟩ <;> rcases hy : columns' n with _ | ⟨_, _, _, _⟩ <;> simp_all
      have hcons : constraints = constraints' := by
        funext n
        have hn := h (.constraint n)
        simpa [Table.get] using Option.map_injective (fun _ _ hb => Obj.constraint.inj hb) hn
      have htrig : triggers = triggers' := by
        funext n
        have hn := h (.trigger n)
        simpa [Table.get] using Option.map_injective (fun _ _ hb => Obj.trigger.inj hb) hn
      rw [hhyper, hcols, hcons, htrig]

/-- **A catalog is determined by what it holds.** -/
theorem Catalog.ext_get {c c' : Catalog} (h : ∀ k, c.get k = c'.get k) : c = c' := by
  cases c with
  | mk tables indexes functions =>
    cases c' with
    | mk tables' indexes' functions' =>
      have htables : tables = tables' := by
        funext t
        have hpart : ∀ p, (tables t).bind (·.get p) = (tables' t).bind (·.get p) := fun p => h (.inTable t p)
        have hself := hpart .self
        cases hx : tables t with
        | none => cases hy : tables' t <;> simp_all [Table.get]
        | some x =>
          cases hy : tables' t with
          | none => simp_all [Table.get]
          | some y => exact congrArg some (Table.ext_get fun p => by simpa [hx, hy] using hpart p)
      have hindexes : indexes = indexes' := by
        funext s n
        refine Option.map_injective ?_ (h (.index s n))
        rintro ⟨t, b⟩ ⟨t', b'⟩ hb
        cases hb
        rfl
      have hfunctions : functions = functions' := by
        funext n
        exact Option.map_injective (fun _ _ hb => Obj.function.inj hb) (h (.function n))
      rw [htables, hindexes, hfunctions]

/-! ## One statement -/

theorem exec_addConstraint_inv {n : String} {b : Constraint}
    (h : exec mentions c (.addConstraint t n b) = .ok c') :
    ∃ tbl, c.tables t = some tbl ∧ c.checkConstraint t tbl b = .ok () ∧ tbl.constraints n = none ∧
      c' = c.setTable t (tbl.withConstraint n b) := by
  obtain ⟨tbl, htbl, h⟩ := bind_ok h
  obtain ⟨tbl', hadd, h⟩ := bind_ok h
  obtain ⟨_, hcheck, hadd⟩ := bind_ok hadd
  obtain ⟨hfree, rfl⟩ := Table.addConstraint_iff.mp hadd
  exact ⟨tbl, Catalog.table_ok htbl, hcheck, hfree, (Except.ok.inj h).symm⟩

theorem exec_createTable_inv {cols : List ColumnDecl} {cons : List (String × Constraint)}
    (hnone : c.tables t = none) (h : exec mentions c (.createTable t cols cons) = .ok c') :
    ∃ tbl, c.buildTable t cols cons = .ok tbl ∧ c' = c.setTable t tbl := by
  simp only [exec, hnone, Option.isSome_none, Bool.false_eq_true, if_false] at h
  obtain ⟨tbl, hbuild, h⟩ := bind_ok h
  exact ⟨tbl, hbuild, (Except.ok.inj h).symm⟩

theorem exec_createIndex_inv {n : String} {b : IndexBody} (h : exec mentions c (.createIndex t n b) = .ok c') :
    c' = { c with indexes := c.indexes.add t n b } := by
  obtain ⟨tbl, _, h⟩ := bind_ok h
  obtain ⟨_, _, h⟩ := bind_ok h
  exact (Except.ok.inj h).symm

theorem exec_createTrigger_inv {n fn : String} (h : exec mentions c (.createTrigger t n fn) = .ok c') :
    ∃ tbl, c.tables t = some tbl ∧
      c' = c.setTable t { tbl with triggers := Function.update tbl.triggers n (some fn) } := by
  obtain ⟨tbl, htbl, h⟩ := bind_ok h
  split at h
  · cases h
  split at h
  · cases h
  · exact ⟨tbl, Catalog.table_ok htbl, (Except.ok.inj h).symm⟩

end Atlantis.Pg
