import Atlantis.Lib.Varint
import Atlantis.Schema.IR

/-!
# `Pg.Referential` — rows that change because another row does

A foreign key carries its actions: `ON DELETE CASCADE` removes the rows that refer to a removed one, `SET NULL` and
`ON UPDATE CASCADE` rewrite them, and what is rewritten may itself be referred to. `Reaches` is the closure of a
statement's own effects under these actions. A row changes exactly if an effect reaches it (`Applied.changed_iff`), and
a deletion reaches only its own row exactly if no other row refers to it by a reference that acts
(`reaches_deletes_iff`).
-/

namespace Atlantis.Pg

open Lib Schema

/-- A row: the id of its entity, and its own. -/
abbrev RowAddr := String × Bytes

/-- The rows of all tables, each with the values of its columns. -/
abbrev Rows (V : Type) := RowAddr → Option (String → Option V)

/-- What happens to a row. -/
inductive RowEffect (V : Type) where
  | gone
  | sets (column : String) (value : Option V)

variable {V : Type} (ir : IR) (same : FieldType → V → V → Prop) (rows : Rows V)

/-- The row at `z` refers to the row at `y` by its column `f`. -/
structure Refers (z y : RowAddr) (f : Field) (r : Ref) : Prop where
  column : ∃ c ∈ ir.entities, c.id = z.1 ∧ f ∈ c.fields
  ref : f.ref = some r
  target : r.targetID = y.1
  equal : ∃ child parent v w, rows z = some child ∧ rows y = some parent ∧ child f.name = some v ∧
    parent r.targetField = some w ∧ same f.type v w

/-- The actions that change the row that refers. -/
def Acts (a : RefAction) : Prop := a = .cascade ∨ a = .setNull

/-- **What a statement does to a row**, itself or by referential actions. A row that is removed is not set to null by
    its reference to itself. -/
inductive Reaches (start : RowAddr → RowEffect V → Prop) : RowAddr → RowEffect V → Prop where
  | start {y : RowAddr} {eff : RowEffect V} : start y eff → Reaches start y eff
  | deleteCascade {y z : RowAddr} {f : Field} {r : Ref} : Reaches start y .gone → Refers ir same rows z y f r →
      r.onDelete = .cascade → Reaches start z .gone
  | deleteSetNull {y z : RowAddr} {f : Field} {r : Ref} : Reaches start y .gone → Refers ir same rows z y f r → z ≠ y →
      r.onDelete = .setNull → Reaches start z (.sets f.name none)
  | updateCascade {y z : RowAddr} {f : Field} {r : Ref} {value : Option V} :
      Reaches start y (.sets r.targetField value) → Refers ir same rows z y f r → r.onUpdate = .cascade →
      (∀ child, rows z = some child → child f.name ≠ value) → Reaches start z (.sets f.name value)
  | updateSetNull {y z : RowAddr} {f : Field} {r : Ref} {value : Option V} :
      Reaches start y (.sets r.targetField value) → Refers ir same rows z y f r → r.onUpdate = .setNull →
      Reaches start z (.sets f.name none)

/-- The rows after a statement. Rows that nothing reaches are as they were, and where a column is set by several
    effects it has the value of one of them. -/
structure Applied (start : RowAddr → RowEffect V → Prop) (rows' : Rows V) : Prop where
  kept : ∀ y, (∀ eff, ¬ Reaches ir same rows start y eff) → rows' y = rows y
  gone : ∀ y, Reaches ir same rows start y .gone → rows' y = none
  set : ∀ y column value, Reaches ir same rows start y (.sets column value) → rows' y = none ∨
    ∃ row value', rows' y = some row ∧ row column = value' ∧ Reaches ir same rows start y (.sets column value')

/-- An effect on the rows as they are: a row is there to be removed, a column has another value. -/
def RowEffect.Real (y : RowAddr) : RowEffect V → Prop
  | .gone => rows y ≠ none
  | .sets column value => ∃ row, rows y = some row ∧ row column ≠ value

/-- The effect of a `DELETE` of one row. -/
def deletes (x : RowAddr) (y : RowAddr) (eff : RowEffect V) : Prop := y = x ∧ eff = .gone

/-- The effects of an `UPDATE` of one row; what is set to the value it has is no effect. -/
def assigns (x : RowAddr) (assigned : String → Option (Option V)) (y : RowAddr) (eff : RowEffect V) : Prop :=
  y = x ∧ ∃ column value, eff = .sets column value ∧ assigned column = some value ∧
    ∃ row, rows x = some row ∧ row column ≠ value

variable {ir same rows} {rows' : Rows V}
  {start : RowAddr → RowEffect V → Prop} {x y z : RowAddr} {f : Field} {r : Ref} {eff : RowEffect V}

theorem Refers.child (h : Refers ir same rows z y f r) : ∃ child v, rows z = some child ∧ child f.name = some v := by
  obtain ⟨child, _, v, _, hchild, _, hv, _⟩ := h.equal
  exact ⟨child, v, hchild, hv⟩

theorem Refers.real_null (h : Refers ir same rows z y f r) : RowEffect.Real rows z (.sets f.name none) := by
  obtain ⟨child, v, hchild, hv⟩ := h.child
  refine ⟨child, hchild, ?_⟩
  rw [hv]
  exact Option.some_ne_none v

/-- Referential actions are real if the statement's own effects are. -/
theorem Reaches.real (hstart : ∀ y eff, start y eff → eff.Real rows y) (h : Reaches ir same rows start y eff) :
    eff.Real rows y := by
  cases h with
  | start hs => exact hstart _ _ hs
  | deleteCascade _ href _ =>
    obtain ⟨child, _, hchild, _⟩ := href.child
    show rows _ ≠ none
    rw [hchild]
    exact Option.some_ne_none child
  | deleteSetNull _ href _ _ => exact href.real_null
  | updateCascade _ href _ hne =>
    obtain ⟨child, _, hchild, _⟩ := href.child
    exact ⟨child, hchild, hne child hchild⟩
  | updateSetNull _ href _ => exact href.real_null

/-- **A row changes exactly if an effect reaches it.** -/
theorem Applied.changed_iff (hstart : ∀ y eff, start y eff → eff.Real rows y) (h : Applied ir same rows start rows') :
    rows' y ≠ rows y ↔ ∃ eff, Reaches ir same rows start y eff := by
  constructor
  · intro hne
    by_contra hnone
    exact hne (h.kept y fun eff hreach => hnone ⟨eff, hreach⟩)
  · rintro ⟨eff, hreach⟩ heq
    have hreal := hreach.real hstart
    cases eff with
    | gone => exact hreal ((heq.symm).trans (h.gone y hreach))
    | sets column value =>
      obtain ⟨row, hrow, _⟩ := hreal
      rcases h.set y column value hreach with hgone | ⟨row', value', hrow', hvalue, hreach'⟩
      · rw [← heq, hgone] at hrow
        cases hrow
      · -- the value that stands is the value of an effect, so another one than before
        obtain ⟨row'', hrow'', hne⟩ := hreach'.real hstart
        rw [← heq, hrow'] at hrow''
        rw [← Option.some.inj hrow''] at hne
        exact hne hvalue

/-- **A deletion reaches only its own row exactly if no other row refers to it by a reference that acts.** -/
theorem reaches_deletes_iff : (∀ y eff, Reaches ir same rows (deletes x) y eff → y = x) ↔
    ∀ z f r, Refers ir same rows z x f r → Acts r.onDelete → z = x := by
  constructor
  · intro honly z f r href hact
    have hx : Reaches ir same rows (deletes x) x .gone := .start ⟨rfl, rfl⟩
    by_contra hne
    rcases hact with hact | hact
    · exact hne (honly z _ (.deleteCascade hx href hact))
    · exact hne (honly z _ (.deleteSetNull hx href hne hact))
  · intro honly y eff h
    suffices y = x ∧ eff = .gone from this.1
    induction h with
    | start hs => exact hs
    | deleteCascade _ href hact ih =>
      obtain ⟨rfl, _⟩ := ih
      exact ⟨honly _ _ _ href (.inl hact), rfl⟩
    | deleteSetNull _ href hne hact ih =>
      obtain ⟨rfl, _⟩ := ih
      exact absurd (honly _ _ _ href (.inr hact)) hne
    | updateCascade _ _ _ _ ih => cases ih.2
    | updateSetNull _ _ _ ih => cases ih.2

end Atlantis.Pg
