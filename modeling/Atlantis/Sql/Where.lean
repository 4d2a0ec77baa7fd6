import Atlantis.Sql.Tri

/-!
# `Sql.Where` — conditions as text: lexemes, precedence and the parser

A `WHERE` fragment is a list of lexemes. `parse` reads it with SQL's operator precedence — `NOT` over
`AND` over `OR`, comparison predicates tighter than all three (so the `AND` inside `BETWEEN … AND …`
belongs to the predicate) — and returns the condition it denotes.

`Gram lvl ts e` is the grammar itself: `ts` is a phrase of level `lvl` for the condition `e`. A program
that assembles a fragment piece by piece is verified against `Gram`, one rule per piece, and
`Gram.parse_eq` turns the derivation into the value of `parse`.
-/

namespace Atlantis.Sql

/-- The comparison operators. -/
inductive CmpOp where
  | eq | ne | lt | le | gt | ge
  deriving DecidableEq, Repr

/-- The lexemes of a condition. `cast` is the postfix `::numeric`, `param n` the placeholder `$n`. -/
inductive Tok where
  | lpar | rpar | comma
  | kwAnd | kwOr | kwNot | kwIn | kwIs | kwNull | kwLike | kwILike | kwBetween
  | cast
  | op (o : CmpOp)
  | col (c : String)
  | param (n : Nat)
  deriving DecidableEq, Repr

/-- A comparison predicate over the columns of one row and the placeholders of the statement. -/
inductive Pred where
  | cmp (o : CmpOp) (c : String) (p : Nat)
  | numCmp (o : CmpOp) (c : String) (p : Nat)
  | inList (neg : Bool) (c : String) (ps : List Nat)
  | numIn (c : String) (ps : List Nat)
  | like (fold : Bool) (c : String) (p : Nat)
  | between (c : String) (lo hi : Nat)
  | isNull (neg : Bool) (c : String)
  | row (o : CmpOp) (cs : List String) (ps : List Nat)
  deriving DecidableEq, Repr

/-- A condition. -/
inductive Cond where
  | pred (p : Pred)
  | not (e : Cond)
  | and (e f : Cond)
  | or (e f : Cond)
  deriving DecidableEq, Repr

/-- The truth value of a condition, given that of its predicates. -/
def Cond.eval (v : Pred → Tri) : Cond → Tri
  | .pred p => v p
  | .not e => (e.eval v).not
  | .and e f => (e.eval v).and (f.eval v)
  | .or e f => (e.eval v).or (f.eval v)

/-! ## Predicates -/

/-- `$a, $b, …)` — a placeholder list up to its closing parenthesis. -/
def parseParams : List Tok → Option (List Nat × List Tok)
  | .param n :: .rpar :: r => some ([n], r)
  | .param n :: .comma :: r => (parseParams r).map fun x => (n :: x.1, x.2)
  | _ => none

/-- `$a::numeric, $b::numeric, …)`. -/
def parseCastParams : List Tok → Option (List Nat × List Tok)
  | .param n :: .cast :: .rpar :: r => some ([n], r)
  | .param n :: .cast :: .comma :: r => (parseCastParams r).map fun x => (n :: x.1, x.2)
  | _ => none

/-- `a, b, …)` — a column list up to its closing parenthesis. -/
def parseCols : List Tok → Option (List String × List Tok)
  | .col c :: .rpar :: r => some ([c], r)
  | .col c :: .comma :: r => (parseCols r).map fun x => (c :: x.1, x.2)
  | _ => none

/-- One comparison predicate, with what follows it. -/
def parsePred : List Tok → Option (Pred × List Tok)
  | .col c :: .op o :: .param p :: r => some (.cmp o c p, r)
  | .col c :: .cast :: .op o :: .param p :: .cast :: r => some (.numCmp o c p, r)
  | .col c :: .kwIn :: .lpar :: r => (parseParams r).map fun x => (.inList false c x.1, x.2)
  | .col c :: .kwNot :: .kwIn :: .lpar :: r => (parseParams r).map fun x => (.inList true c x.1, x.2)
  | .col c :: .cast :: .kwIn :: .lpar :: r => (parseCastParams r).map fun x => (.numIn c x.1, x.2)
  | .col c :: .kwLike :: .param p :: r => some (.like false c p, r)
  | .col c :: .kwILike :: .param p :: r => some (.like true c p, r)
  | .col c :: .kwBetween :: .param lo :: .kwAnd :: .param hi :: r => some (.between c lo hi, r)
  | .col c :: .kwIs :: .kwNull :: r => some (.isNull false c, r)
  | .col c :: .kwIs :: .kwNot :: .kwNull :: r => some (.isNull true c, r)
  | .lpar :: r =>
    match parseCols r with
    | some (cs, .op o :: .lpar :: r') => (parseParams r').map fun x => (.row o cs x.1, x.2)
    | _ => none
  | _ => none

/-! ## Conditions -/

/-- The three precedence levels, loosest first. `unit` covers predicates, `NOT …` and parentheses. -/
inductive Lvl where
  | or | and | unit
  deriving DecidableEq, Repr

/-- Recursive descent by precedence level. A `(` opens a row comparison when one can be read there, and
    a parenthesised condition otherwise. -/
def parseAt : Nat → Lvl → List Tok → Option (Cond × List Tok)
  | 0, _, _ => none
  | n + 1, .or, ts =>
    match parseAt n .and ts with
    | some (e, .kwOr :: r) => (parseAt n .or r).map fun x => (.or e x.1, x.2)
    | x => x
  | n + 1, .and, ts =>
    match parseAt n .unit ts with
    | some (e, .kwAnd :: r) => (parseAt n .and r).map fun x => (.and e x.1, x.2)
    | x => x
  | n + 1, .unit, ts =>
    match parsePred ts with
    | some (p, r) => some (.pred p, r)
    | none =>
      match ts with
      | .kwNot :: r => (parseAt n .unit r).map fun x => (.not x.1, x.2)
      | .lpar :: r =>
        match parseAt n .or r with
        | some (e, .rpar :: r') => some (e, r')
        | _ => none
      | _ => none

/-- Parse a whole fragment. -/
def parse (ts : List Tok) : Option Cond :=
  match parseAt (3 * ts.length + 3) .or ts with
  | some (e, []) => some e
  | _ => none

/-! ## The grammar -/

/-- `ts` spells the predicate `p`, whatever follows. -/
def Spells (ts : List Tok) (p : Pred) : Prop := ∀ r, parsePred (ts ++ r) = some (p, r)

/-- The grammar of conditions, by precedence level. -/
inductive Gram : Lvl → List Tok → Cond → Prop where
  | pred {ts p} : Spells ts p → Gram .unit ts (.pred p)
  | not {ts e} : Gram .unit ts e → Gram .unit (.kwNot :: ts) (.not e)
  | paren {ts e} : Gram .or ts e → Gram .unit (.lpar :: (ts ++ [.rpar])) e
  | unit {ts e} : Gram .unit ts e → Gram .and ts e
  | and {ts us e f} : Gram .unit ts e → Gram .and us f → Gram .and (ts ++ .kwAnd :: us) (.and e f)
  | conj {ts e} : Gram .and ts e → Gram .or ts e
  | or {ts us e f} : Gram .and ts e → Gram .or us f → Gram .or (ts ++ .kwOr :: us) (.or e f)

/-- What may follow a phrase of each level without being drawn into it. -/
def Follows : Lvl → List Tok → Prop
  | .unit, _ => True
  | .and, r => r.head? ≠ some .kwAnd
  | .or, r => r.head? ≠ some .kwAnd ∧ r.head? ≠ some .kwOr

/-- The fuel a level needs on top of three units a lexeme. -/
def Lvl.rank : Lvl → Nat
  | .unit => 1
  | .and => 2
  | .or => 3

theorem Lvl.exists_fuel {l : Lvl} {k n : Nat} (h : k + l.rank ≤ n) : ∃ m, n = m + 1 := by
  have hpos : 1 ≤ l.rank := by cases l <;> decide
  exact ⟨n - 1, by omega⟩

/-! ## Parsing a phrase of the grammar -/

/-- A phrase does not, behind a `(`, start a row of columns. -/
theorem Gram.lpar_none {l : Lvl} {ts : List Tok} {e : Cond} (h : Gram l ts e) :
    ∀ r, parsePred (.lpar :: (ts ++ r)) = none := by
  induction h with
  | @pred ts _ hp =>
    intro r
    have hpred := hp r
    generalize ts ++ r = us at hpred ⊢
    have hcols : parseCols us = none := by
      unfold parsePred at hpred
      split at hpred <;> first | rfl | cases hpred
    simp [parsePred, hcols]
  | not _ _ => intro r; simp [parsePred, parseCols]
  | paren _ _ => intro r; simp [parsePred, parseCols]
  | unit _ ih => exact ih
  | and _ _ ih _ => intro r; rw [List.append_assoc]; exact ih _
  | conj _ ih => exact ih
  | or _ _ ih _ => intro r; rw [List.append_assoc]; exact ih _

/-- **Completeness of the parser.** A phrase, in any context that cannot extend it, is read whole. -/
theorem Gram.parseAt_eq {l : Lvl} {ts : List Tok} {e : Cond} (h : Gram l ts e) :
    ∀ {n : Nat} {r : List Tok}, 3 * ts.length + l.rank ≤ n → Follows l r →
      parseAt n l (ts ++ r) = some (e, r) := by
  induction h with
  | @pred ts p hp =>
    intro n r hn _
    obtain ⟨n, rfl⟩ := Lvl.exists_fuel hn
    simp only [parseAt, hp r]
  | @not ts e _ ih =>
    intro n r hn _
    obtain ⟨n, rfl⟩ := Lvl.exists_fuel hn
    simp only [List.length_cons, Lvl.rank] at hn
    have hin := ih (n := n) (r := r) (by simp only [Lvl.rank]; omega) trivial
    simp only [List.cons_append, parseAt, parsePred, hin, Option.map_some]
  | @paren ts e hg ih =>
    intro n r hn _
    obtain ⟨n, rfl⟩ := Lvl.exists_fuel hn
    simp only [List.length_cons, List.length_append, List.length_nil, Lvl.rank] at hn
    have hin := ih (n := n) (r := .rpar :: r) (by simp only [Lvl.rank]; omega)
      ⟨by simp, by simp⟩
    have hnone := hg.lpar_none (.rpar :: r)
    simp only [List.cons_append, List.append_assoc, List.nil_append, parseAt, hnone, hin]
  | @unit ts e _ ih =>
    intro n r hn hr
    obtain ⟨n, rfl⟩ := Lvl.exists_fuel hn
    have hin := ih (n := n) (r := r) (by simp only [Lvl.rank] at hn ⊢; omega) trivial
    simp only [parseAt, hin]
    cases r with
    | nil => rfl
    | cons t r => cases t <;> first | rfl | exact absurd rfl hr
  | @and ts us e f _ _ ih ih' =>
    intro n r hn hr
    obtain ⟨n, rfl⟩ := Lvl.exists_fuel hn
    simp only [List.length_cons, List.length_append, Lvl.rank] at hn
    have hl := ih (n := n) (r := .kwAnd :: (us ++ r)) (by simp only [Lvl.rank]; omega) trivial
    have hrr := ih' (n := n) (r := r) (by simp only [Lvl.rank]; omega) hr
    simp only [List.append_assoc, List.cons_append, parseAt, hl, hrr, Option.map_some]
  | @conj ts e _ ih =>
    intro n r hn hr
    obtain ⟨n, rfl⟩ := Lvl.exists_fuel hn
    have hin := ih (n := n) (r := r) (by simp only [Lvl.rank] at hn ⊢; omega) hr.1
    simp only [parseAt, hin]
    cases r with
    | nil => rfl
    | cons t r => cases t <;> first | rfl | exact absurd rfl hr.2
  | @or ts us e f _ _ ih ih' =>
    intro n r hn hr
    obtain ⟨n, rfl⟩ := Lvl.exists_fuel hn
    simp only [List.length_cons, List.length_append, Lvl.rank] at hn
    have hl := ih (n := n) (r := .kwOr :: (us ++ r)) (by simp only [Lvl.rank]; omega) (by simp [Follows])
    have hrr := ih' (n := n) (r := r) (by simp only [Lvl.rank]; omega) hr
    simp only [List.append_assoc, List.cons_append, parseAt, hl, hrr, Option.map_some]

/-- **A phrase of the grammar parses to its condition.** -/
theorem Gram.parse_eq {ts : List Tok} {e : Cond} (h : Gram .or ts e) : parse ts = some e := by
  have := h.parseAt_eq (n := 3 * ts.length + 3) (r := []) (by simp only [Lvl.rank]; omega)
    ⟨by simp, by simp⟩
  rw [List.append_nil] at this
  simp only [parse, this]

end Atlantis.Sql
