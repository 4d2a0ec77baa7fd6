import Atlantis.Sql.Where
import Atlantis.Sql.Like

/-!
# `Sql.Eval` — the truth value of a fragment on a row

`Dialect V` is what the database contributes: how a column's type compares two values, how `::numeric`
values compare, the text of a value and the case folding of its locale. Everything else is fixed by the
language: `NULL` makes a comparison unknown, row comparisons go left to right, the connectives are Kleene's.

`Reads v l ts t` says that the lexemes `ts` form a phrase of level `l` whose truth value is `t`. Its rules
are the grammar's, with conjunction and disjunction read up to associativity — which is how text pasted
together with a separator behaves.
-/

namespace Atlantis.Sql

/-- The database's part in evaluating a predicate. Case folding neither makes nor hides a character that
    has a meaning in a pattern. -/
structure Dialect (V : Type) where
  cmp : String → CmpOp → V → V → Bool
  numCmp : CmpOp → V → V → Bool
  text : V → List Char
  lower : Char → Char
  lower_meta : ∀ c, isMeta (lower c) = isMeta c
  lower_fix : ∀ c, isMeta c = true → lower c = c

variable {qs : List Nat} {ts us r : List Tok} {p : Pred} {t a b : Tri} {l : Lvl} {e f : Cond} {V : Type} {D : Dialect V}

/-- A database that folds nothing is a dialect. -/
theorem isMeta_id (c : Char) : isMeta (id c) = isMeta c := rfl

theorem id_fix (c : Char) (_ : isMeta c = true) : id c = c := rfl

/-- A row: the value of each column, `none` for `NULL`. -/
abbrev Row (V : Type) := String → Option V

/-- The values bound to the placeholders. -/
abbrev Params (V : Type) := Nat → Option V

/-- A test of one value, unknown on `NULL`. -/
def lift (x : Option V) (f : V → Bool) : Tri :=
  match x with
  | some a => .ofBool (f a)
  | none => .unknown

/-- A test of two values, unknown when either is `NULL`. -/
def lift₂ (x y : Option V) (f : V → V → Bool) : Tri :=
  match x, y with
  | some a, some b => .ofBool (f a b)
  | _, _ => .unknown

@[simp] theorem lift₂_some (x : Option V) (b : V) (f : V → V → Bool) :
    lift₂ x (some b) f = lift x fun a => f a b := by cases x <;> rfl

/-- Row comparison: the first pair that differs decides, a `NULL` before that leaves it unknown. -/
def rowCmp (D : Dialect V) (row : Row V) (ps : Params V) (o : CmpOp) : List String → List Nat → Tri
  | [c], [p] => lift₂ (row c) (ps p) (D.cmp c o)
  | c :: cs, p :: qs =>
    match lift₂ (row c) (ps p) (D.cmp c .eq) with
    | .true => rowCmp D row ps o cs qs
    | .false => lift₂ (row c) (ps p) (D.cmp c o)
    | .unknown => .unknown
  | _, _ => .unknown

/-- The truth value of a predicate on a row. -/
def Pred.eval (D : Dialect V) (row : Row V) (ps : Params V) : Pred → Tri
  | .cmp o c p => lift₂ (row c) (ps p) (D.cmp c o)
  | .numCmp o c p => lift₂ (row c) (ps p) (D.numCmp o)
  | .inList neg c qs =>
    let t := Tri.any (qs.map fun q => lift₂ (row c) (ps q) (D.cmp c .eq))
    if neg then t.not else t
  | .numIn c qs => Tri.any (qs.map fun q => lift₂ (row c) (ps q) (D.numCmp .eq))
  | .like false c p => lift₂ (row c) (ps p) fun x y => Sql.like (D.text y) (D.text x)
  | .like true c p => lift₂ (row c) (ps p) fun x y =>
    Sql.like ((D.text y).map D.lower) ((D.text x).map D.lower)
  | .between c lo hi =>
    (lift₂ (row c) (ps lo) (D.cmp c .ge)).and (lift₂ (row c) (ps hi) (D.cmp c .le))
  | .isNull neg c => .ofBool (if neg then (row c).isSome else (row c).isNone)
  | .row o cs qs => rowCmp D row ps o cs qs

/-- The truth value of a `WHERE` fragment on a row; the empty fragment is no condition at all. `none` is a
    syntax error. -/
def fragValue (D : Dialect V) (row : Row V) (ps : Params V) (ts : List Tok) : Option Tri :=
  if ts = [] then some .true else (parse ts).map (Cond.eval (Pred.eval D row ps))

/-! ## Joining text -/

/-- Paste pieces together with a separator, as `strings.Join` does. -/
def sepBy (sep : Tok) : List (List Tok) → List Tok
  | [] => []
  | [p] => p
  | p :: q :: ps => p ++ sep :: sepBy sep (q :: ps)

/-- `p` in parentheses. -/
def paren (p : List Tok) : List Tok := .lpar :: (p ++ [.rpar])

variable {ps ps' : Params V} {row : Row V}

theorem sepBy_ne_nil {sep : Tok} {ps : List (List Tok)} (hne : ps ≠ []) (hp : ∀ p ∈ ps, p ≠ []) :
    sepBy sep ps ≠ [] := by
  cases ps with
  | nil => exact absurd rfl hne
  | cons p ps =>
    cases ps with
    | nil => exact hp p (by simp)
    | cons q ps => simp [sepBy]

/-! ## Spelling list predicates -/

theorem parseParams_sepBy (hne : qs ≠ []) (r : List Tok) :
    parseParams (sepBy .comma (qs.map fun q => [.param q]) ++ .rpar :: r) = some (qs, r) := by
  induction qs with
  | nil => exact absurd rfl hne
  | cons q qs ih =>
    cases qs with
    | nil => rfl
    | cons q' qs =>
      have hrec := ih (by simp)
      simp only [List.map_cons, sepBy, List.cons_append, List.nil_append, parseParams]
        at hrec ⊢
      rw [hrec]
      rfl

theorem parseCastParams_sepBy (hne : qs ≠ []) (r : List Tok) :
    parseCastParams (sepBy .comma (qs.map fun q => [.param q, .cast]) ++ .rpar :: r) = some (qs, r) := by
  induction qs with
  | nil => exact absurd rfl hne
  | cons q qs ih =>
    cases qs with
    | nil => rfl
    | cons q' qs =>
      have hrec := ih (by simp)
      simp only [List.map_cons, sepBy, List.cons_append, List.nil_append,
        parseCastParams] at hrec ⊢
      rw [hrec]
      rfl

/-! ## Reading a phrase -/

/-- `ts` is a phrase of level `l` with truth value `t`. -/
def Reads (v : Pred → Tri) (l : Lvl) (ts : List Tok) (t : Tri) : Prop :=
  ∃ e, Gram l ts e ∧ e.eval v = t

variable {v : Pred → Tri}

theorem Reads.pred (h : Spells ts p) : Reads v .unit ts (v p) :=
  ⟨_, .pred h, rfl⟩

theorem Reads.not (h : Reads v .unit ts t) : Reads v .unit (.kwNot :: ts) t.not := by
  obtain ⟨e, hg, rfl⟩ := h
  exact ⟨_, .not hg, rfl⟩

theorem Reads.paren (h : Reads v .or ts t) : Reads v .unit (paren ts) t := by
  obtain ⟨e, hg, rfl⟩ := h
  exact ⟨_, .paren hg, rfl⟩

theorem Reads.toAnd (h : Reads v .unit ts t) : Reads v .and ts t := by
  obtain ⟨e, hg, rfl⟩ := h
  exact ⟨_, .unit hg, rfl⟩

theorem Reads.toOr (h : Reads v .and ts t) : Reads v .or ts t := by
  obtain ⟨e, hg, rfl⟩ := h
  exact ⟨_, .conj hg, rfl⟩

/-- Two conjunctions side by side are one conjunction. -/
theorem Gram.and_join (h : Gram l ts e) (hl : l = .and) (h' : Gram .and us f) :
    ∃ g, Gram .and (ts ++ .kwAnd :: us) g ∧ g.eval v = (e.eval v).and (f.eval v) := by
  induction h with
  | pred _ => cases hl
  | not _ _ => cases hl
  | paren _ _ => cases hl
  | unit hg _ => exact ⟨_, .and hg h', rfl⟩
  | and hg _ _ ih =>
    obtain ⟨g, hg', he⟩ := ih rfl
    refine ⟨_, by rw [List.append_assoc]; exact .and hg hg', ?_⟩
    simp only [Cond.eval, he, Tri.and_assoc]
  | conj _ _ => cases hl
  | or _ _ _ _ => cases hl

/-- Two disjunctions side by side are one disjunction. -/
theorem Gram.or_join (h : Gram l ts e) (hl : l = .or) (h' : Gram .or us f) :
    ∃ g, Gram .or (ts ++ .kwOr :: us) g ∧ g.eval v = (e.eval v).or (f.eval v) := by
  induction h with
  | pred _ => cases hl
  | not _ _ => cases hl
  | paren _ _ => cases hl
  | unit _ _ => cases hl
  | and _ _ _ _ => cases hl
  | conj hg _ => exact ⟨_, .or hg h', rfl⟩
  | or hg _ _ ih =>
    obtain ⟨g, hg', he⟩ := ih rfl
    refine ⟨_, by rw [List.append_assoc]; exact .or hg hg', ?_⟩
    simp only [Cond.eval, he, Tri.or_assoc]

theorem Reads.and_join (h : Reads v .and ts a) (h' : Reads v .and us b) :
    Reads v .and (ts ++ .kwAnd :: us) (a.and b) := by
  obtain ⟨e, hg, rfl⟩ := h
  obtain ⟨f, hg', rfl⟩ := h'
  exact hg.and_join rfl hg'

theorem Reads.or_join (h : Reads v .or ts a) (h' : Reads v .or us b) :
    Reads v .or (ts ++ .kwOr :: us) (a.or b) := by
  obtain ⟨e, hg, rfl⟩ := h
  obtain ⟨f, hg', rfl⟩ := h'
  exact hg.or_join rfl hg'

/-- Conjunctions joined with `AND` read as the conjunction of all of them. -/
theorem Reads.sepBy_and {ps : List (List Tok)} {ts : List Tri} (h : List.Forall₂ (Reads v .and) ps ts)
    (hne : ps ≠ []) : Reads v .and (sepBy .kwAnd ps) (Tri.all ts) := by
  induction h with
  | nil => exact absurd rfl hne
  | @cons p t ps ts hp hps ih =>
    cases hps with
    | nil => simpa [sepBy] using hp
    | cons hq hqs => exact hp.and_join (ih (by simp))

/-- Disjunctions joined with `OR` read as the disjunction of all of them. -/
theorem Reads.sepBy_or {ps : List (List Tok)} {ts : List Tri} (h : List.Forall₂ (Reads v .or) ps ts)
    (hne : ps ≠ []) : Reads v .or (sepBy .kwOr ps) (Tri.any ts) := by
  induction h with
  | nil => exact absurd rfl hne
  | @cons p t ps ts hp hps ih =>
    cases hps with
    | nil => simpa [sepBy] using hp
    | cons hq hqs => exact hp.or_join (ih (by simp))

/-- No phrase is empty, so a phrase in a `WHERE` is a condition. -/
theorem Gram.ne_nil (h : Gram l ts e) : ts ≠ [] := by
  induction h with
  | @pred ts p hp =>
    rintro rfl
    have := hp []
    simp [parsePred] at this
  | not _ _ => simp
  | paren _ _ => simp
  | unit _ ih => exact ih
  | and _ _ _ _ => simp
  | conj _ ih => exact ih
  | or _ _ _ _ => simp

theorem Reads.ne_nil (h : Reads v l ts t) : ts ≠ [] := by
  obtain ⟨e, hg, _⟩ := h
  exact hg.ne_nil

/-! ## The placeholders of a phrase -/

/-- The placeholders of a predicate. -/
def Pred.params : Pred → List Nat
  | .cmp _ _ p => [p]
  | .numCmp _ _ p => [p]
  | .inList _ _ ps => ps
  | .numIn _ ps => ps
  | .like _ _ p => [p]
  | .between _ lo hi => [lo, hi]
  | .isNull _ _ => []
  | .row _ _ ps => ps

theorem parseParams_mem {ps : List Nat} (h : parseParams ts = some (ps, r)) : ∀ n ∈ ps, .param n ∈ ts := by
  fun_induction parseParams ts generalizing ps with
  | case1 m r' =>
    cases h
    simp
  | case2 m r' ih =>
    obtain ⟨⟨qs, r''⟩, hqs, heq⟩ := Option.map_eq_some_iff.mp h
    obtain ⟨rfl, rfl⟩ := Prod.mk.inj heq
    intro n hn
    rcases List.mem_cons.mp hn with rfl | hn
    · exact List.mem_cons_self
    · exact List.mem_cons_of_mem _ (List.mem_cons_of_mem _ (ih hqs n hn))
  | case3 => cases h

theorem parseCastParams_mem {ps : List Nat} (h : parseCastParams ts = some (ps, r)) : ∀ n ∈ ps, .param n ∈ ts := by
  fun_induction parseCastParams ts generalizing ps with
  | case1 m r' =>
    cases h
    simp
  | case2 m r' ih =>
    obtain ⟨⟨qs, r''⟩, hqs, heq⟩ := Option.map_eq_some_iff.mp h
    obtain ⟨rfl, rfl⟩ := Prod.mk.inj heq
    intro n hn
    rcases List.mem_cons.mp hn with rfl | hn
    · exact List.mem_cons_self
    · exact List.mem_cons_of_mem _ (List.mem_cons_of_mem _ (List.mem_cons_of_mem _ (ih hqs n hn)))
  | case3 => cases h

theorem parseCols_suffix {cs : List String} (h : parseCols ts = some (cs, r)) : ∀ t ∈ r, t ∈ ts := by
  fun_induction parseCols ts generalizing cs with
  | case1 c r' =>
    obtain ⟨_, rfl⟩ := Prod.mk.inj (Option.some.inj h)
    intro t ht
    simp [ht]
  | case2 c r' ih =>
    obtain ⟨⟨ds, r''⟩, hds, heq⟩ := Option.map_eq_some_iff.mp h
    obtain ⟨_, rfl⟩ := Prod.mk.inj heq
    intro t ht
    simp [ih hds t ht]
  | case3 => cases h

/-- The placeholders of a predicate are in its text. -/
theorem parsePred_mem (h : parsePred ts = some (p, r)) : ∀ n ∈ p.params, .param n ∈ ts := by
  unfold parsePred at h
  split at h
  case h_3 | h_4 =>
      obtain ⟨⟨qs, r'⟩, hqs, heq⟩ := Option.map_eq_some_iff.mp h
      obtain ⟨rfl, _⟩ := Prod.mk.inj heq
      intro n hn
      simp [parseParams_mem hqs n hn]
  case h_5 =>
      obtain ⟨⟨qs, r'⟩, hqs, heq⟩ := Option.map_eq_some_iff.mp h
      obtain ⟨rfl, _⟩ := Prod.mk.inj heq
      intro n hn
      simp [parseCastParams_mem hqs n hn]
  case h_11 =>
      split at h
      · rename_i hcols
        obtain ⟨⟨qs, r'⟩, hqs, heq⟩ := Option.map_eq_some_iff.mp h
        obtain ⟨rfl, _⟩ := Prod.mk.inj heq
        intro n hn
        have hmem := parseParams_mem hqs n hn
        exact List.mem_cons_of_mem _ (parseCols_suffix hcols _ (by simp [hmem]))
      · cases h
  case h_12 => cases h
  all_goals
    cases h
    simp [Pred.params]

theorem rowCmp_congr {o : CmpOp} {cs : List String} (h : ∀ n ∈ qs, ps n = ps' n) :
    rowCmp D row ps o cs qs = rowCmp D row ps' o cs qs := by
  fun_induction rowCmp D row ps o cs qs with
  | case1 c p => rw [rowCmp, h p (by simp)]
  | case2 c cs p qs hlast heq ih =>
    rw [rowCmp.eq_2 _ _ _ _ _ _ _ _ hlast, ← h p (by simp), heq]
    exact ih fun n hn => h n (List.mem_cons_of_mem _ hn)
  | case3 c cs p qs hlast heq =>
    rw [rowCmp.eq_2 _ _ _ _ _ _ _ _ hlast, ← h p (by simp), heq]
  | case4 c cs p qs hlast heq =>
    rw [rowCmp.eq_2 _ _ _ _ _ _ _ _ hlast, ← h p (by simp), heq]
  | case5 cs qs h1 h2 => rw [rowCmp.eq_3 _ _ _ _ _ _ h1 h2]

theorem Pred.eval_congr (h : ∀ n ∈ p.params, ps n = ps' n) : p.eval D row ps = p.eval D row ps' := by
  cases p with
  | cmp o c q | numCmp o c q => simp only [Pred.eval, h q (by simp [Pred.params])]
  | inList neg c qs | numIn c qs =>
    have hmap : ∀ f : V → V → Bool, (qs.map fun q => lift₂ (row c) (ps q) f) = qs.map fun q => lift₂ (row c) (ps' q) f :=
      fun f => List.map_congr_left fun q hq => by rw [h q hq]
    simp only [Pred.eval, hmap]
  | like fold c q => cases fold <;> simp only [Pred.eval, h q (by simp [Pred.params])]
  | between c lo hi => simp only [Pred.eval, h lo (by simp [Pred.params]), h hi (by simp [Pred.params])]
  | isNull neg c => rfl
  | row o cs qs => exact rowCmp_congr h

/-- **The value of a phrase depends on its own placeholders only.** -/
theorem Gram.eval_congr (hg : Gram l ts e) (h : ∀ n, .param n ∈ ts → ps n = ps' n) :
    e.eval (Pred.eval D row ps) = e.eval (Pred.eval D row ps') := by
  induction hg with
  | @pred ts p hp =>
    apply Pred.eval_congr
    intro n hn
    have hparse := hp []
    rw [List.append_nil] at hparse
    exact h n (parsePred_mem hparse n hn)
  | not _ ih => exact congrArg Tri.not (ih fun n hn => h n (List.mem_cons_of_mem _ hn))
  | paren _ ih => exact ih fun n hn => h n (by simp [hn])
  | unit _ ih => exact ih h
  | conj _ ih => exact ih h
  | and _ _ ih ih' | or _ _ ih ih' =>
    simp only [Cond.eval]
    rw [ih fun n hn => h n (by simp [hn]), ih' fun n hn => h n (by simp [hn])]

/-- **The value of a phrase.** What `Reads` derives is what parsing and evaluating computes. -/
theorem Reads.fragValue (h : Reads (Pred.eval D row ps) .or ts t) : fragValue D row ps ts = some t := by
  obtain ⟨e, hg, rfl⟩ := h
  simp [Sql.fragValue, hg.ne_nil, hg.parse_eq]

/-- A clause pasted together from conjunctions: no part at all is no condition. -/
theorem fragValue_sepBy_and {parts : List (List Tok)} {ts : List Tri}
    (h : List.Forall₂ (Reads (Pred.eval D row ps) .and) parts ts) :
    fragValue D row ps (sepBy .kwAnd parts) = some (Tri.all ts) := by
  cases h with
  | nil => rfl
  | cons hp hps => exact Reads.fragValue (Reads.toOr (Reads.sepBy_and (.cons hp hps) (by simp)))

end Atlantis.Sql
