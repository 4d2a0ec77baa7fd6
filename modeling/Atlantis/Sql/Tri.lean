import Mathlib.Data.List.Basic

/-!
# `Sql.Tri` — the three truth values of SQL

A `WHERE` clause keeps a row when its condition is **true**; a comparison with `NULL` is neither true nor
false. The connectives are Kleene's strong ones, as SQL prescribes. `Tri.all` / `Tri.any` are the n-ary
conjunction and disjunction; they split over `++`, which is all a proof about a joined clause needs.
-/

namespace Atlantis.Sql

/-- A SQL truth value. -/
inductive Tri where
  | true
  | false
  | unknown
  deriving DecidableEq, Repr

namespace Tri

/-- The truth value of a decided condition. -/
def ofBool : Bool → Tri
  | .true => .true
  | .false => .false

/-- SQL `NOT`. -/
def not : Tri → Tri
  | .true => .false
  | .false => .true
  | .unknown => .unknown

/-- SQL `AND`. -/
def and : Tri → Tri → Tri
  | .false, _ => .false
  | .true, b => b
  | .unknown, .false => .false
  | .unknown, _ => .unknown

/-- SQL `OR`. -/
def or : Tri → Tri → Tri
  | .true, _ => .true
  | .false, b => b
  | .unknown, .true => .true
  | .unknown, _ => .unknown

@[simp] theorem and_true (a : Tri) : a.and .true = a := by cases a <;> rfl
@[simp] theorem or_false (a : Tri) : a.or .false = a := by cases a <;> rfl

theorem and_assoc (a b c : Tri) : (a.and b).and c = a.and (b.and c) := by
  cases a <;> cases b <;> cases c <;> rfl

theorem or_assoc (a b c : Tri) : (a.or b).or c = a.or (b.or c) := by
  cases a <;> cases b <;> cases c <;> rfl

theorem and_comm (a b : Tri) : a.and b = b.and a := by
  cases a <;> cases b <;> rfl

theorem and_eq_true {a b : Tri} : a.and b = .true ↔ a = .true ∧ b = .true := by
  cases a <;> cases b <;> simp [and]

theorem or_eq_true {a b : Tri} : a.or b = .true ↔ a = .true ∨ b = .true := by
  cases a <;> cases b <;> simp [or]

/-- Conjunction of a list; the empty conjunction is true. -/
def all (l : List Tri) : Tri := l.foldr and .true

/-- Disjunction of a list; the empty disjunction is false. -/
def any (l : List Tri) : Tri := l.foldr or .false

@[simp] theorem all_nil : all [] = .true := rfl
@[simp] theorem any_nil : any [] = .false := rfl
@[simp] theorem all_cons (a : Tri) (l : List Tri) : all (a :: l) = a.and (all l) := rfl
@[simp] theorem any_cons (a : Tri) (l : List Tri) : any (a :: l) = a.or (any l) := rfl

theorem all_eq_true {l : List Tri} : all l = .true ↔ ∀ t ∈ l, t = .true := by
  induction l with
  | nil => simp
  | cons t l ih => rw [all_cons, and_eq_true, ih, List.forall_mem_cons]

theorem any_eq_true {l : List Tri} : any l = .true ↔ ∃ t ∈ l, t = .true := by
  induction l with
  | nil => simp
  | cons t l ih => rw [any_cons, or_eq_true, ih, List.exists_mem_cons_iff]

/-- The order of the conjuncts does not matter. -/
theorem all_perm {l m : List Tri} (h : l.Perm m) : all l = all m := by
  induction h with
  | nil => rfl
  | cons a _ ih => rw [all_cons, ih, all_cons]
  | swap a b l => simp only [all_cons, ← and_assoc, and_comm a b]
  | trans _ _ ih ih' => exact ih.trans ih'

end Tri

end Atlantis.Sql
