import Atlantis.Query.TranslatorCorrect

/-!
# `Query.TranslatorText` — every accepted filter is a phrase

Whatever a filter looks like inside, the text it is translated to is a phrase of the grammar: parentheses
are balanced, no operator dangles, and `AND` between two disjunctions regroups them but leaves a disjunction.
So a clause can rely on the parentheses that `TranslateFilter` puts around the user's part. It is a
conjunction of that part with the extra predicates, and no filter can reach past its parentheses and weaken
them.

Meaning is not the subject here (`Query.TranslatorCorrect` has it, where it is kept), only form, and in the end the
size of what is accepted.
-/

namespace Atlantis.Query

open Sql Lib

/-! ## Joining phrases -/

/-- Text that can stand between parentheses. -/
def Phrase (frag : Frag) : Prop := ∃ e, Gram .or frag e

variable {frag : Frag} {V α : Type} {parts extras : List Frag} {op : Tok} {fs : FieldSpec} {start : Nat}
  {D : Dialect V} {row : Row V} {ps : Params V}

variable {ps' : Params V} {ts us : Frag} {p : PredMsg} {sep : Tok} {n : Nat} {nested : Filter → Walker → Out}
  {msg : Option Filter} {tr : Translation}

theorem Phrase.ne_nil (h : Phrase frag) : frag ≠ [] := by
  obtain ⟨e, hg⟩ := h
  exact hg.ne_nil

/-- `AND` in front of a disjunction is drawn into its first member. -/
theorem phrase_and_join {e f : Cond} (h : Gram .and ts e) (h' : Gram .or us f) : Phrase (ts ++ .kwAnd :: us) := by
  cases h' with
  | conj hg =>
    obtain ⟨g, hg', _⟩ := h.and_join (v := fun _ => .true) rfl hg
    exact ⟨g, .conj hg'⟩
  | @or us₁ us₂ f₁ f₂ hg hrest =>
    obtain ⟨g, hg', _⟩ := h.and_join (v := fun _ => .true) rfl hg
    have hsplit : ts ++ .kwAnd :: (us₁ ++ .kwOr :: us₂) = (ts ++ .kwAnd :: us₁) ++ .kwOr :: us₂ := by simp
    rw [hsplit]
    exact ⟨_, .or hg' hrest⟩

/-- Two phrases joined with `AND` are a phrase, though not always the conjunction of the two. -/
theorem Phrase.and (h : Phrase ts) (h' : Phrase us) : Phrase (ts ++ .kwAnd :: us) := by
  obtain ⟨e, hg⟩ := h
  obtain ⟨f, hg'⟩ := h'
  have hjoin : ∀ {l : Lvl} {ts : Frag} {e : Cond}, Gram l ts e → l = .or → Phrase (ts ++ .kwAnd :: us) := by
    intro l ts e hg hl
    induction hg with
    | pred _ | not _ _ | paren _ _ | unit _ _ | and _ _ _ _ => cases hl
    | conj hg _ => exact phrase_and_join hg hg'
    | @or ts₁ ts₂ e₁ e₂ hg _ _ ih =>
      obtain ⟨g, hg₂⟩ := ih rfl
      rw [List.append_assoc]
      exact ⟨_, .or hg hg₂⟩
  exact hjoin hg rfl

theorem phrase_sepBy_and (h : ∀ p ∈ parts, Phrase p) (hne : parts ≠ []) : Phrase (sepBy .kwAnd parts) := by
  induction parts with
  | nil => exact absurd rfl hne
  | cons p parts ih =>
    cases parts with
    | nil => exact h p (by simp)
    | cons q parts =>
      have hrest := ih (fun x hx => h x (List.mem_cons_of_mem _ hx)) (by simp)
      exact (h p (by simp)).and hrest

/-- A part in parentheses of its own is one unit of the clause around it. -/
theorem Phrase.unit {p : Frag} (h : Phrase p) : ∃ e, Gram .unit (paren p) e := by
  obtain ⟨e, hg⟩ := h
  exact ⟨e, .paren hg⟩

/-- Parts that `AND` joins as they are. -/
def Units (parts : List Frag) : Prop := ∀ p ∈ parts, ∃ e, Gram .unit p e

theorem units_paren (h : ∀ p ∈ parts, Phrase p) : Units (parts.map paren) := by
  intro x hx
  obtain ⟨p, hp, rfl⟩ := List.mem_map.mp hx
  exact (h p hp).unit

theorem Units.phrase (h : Units parts) : ∀ p ∈ parts, Phrase p := by
  intro p hp
  obtain ⟨e, hg⟩ := h p hp
  exact ⟨e, .conj (.unit hg)⟩

theorem phrase_sepBy_or (h : Units parts) (hne : parts ≠ []) : Phrase (sepBy .kwOr parts) := by
  induction parts with
  | nil => exact absurd rfl hne
  | cons p parts ih =>
    cases parts with
    | nil => exact h.phrase p (by simp)
    | cons q parts =>
      obtain ⟨e, hg⟩ := h p (by simp)
      obtain ⟨f, hrest⟩ := ih (fun x hx => h x (List.mem_cons_of_mem _ hx)) (by simp)
      exact ⟨_, .or (.unit hg) hrest⟩

/-! ## The descent -/

/-- `out` extends the walker by its own placeholders and is empty or a phrase. -/
def Accepted (w : Walker) (out : Frag × Walker) : Prop := Owns w out ∧ (out.1 ≠ [] → Phrase out.1)

/-- The placeholders from `p` on, bound to the arguments. -/
def paramsFrom {V : Type} (B : Pg V) (p : Nat) (args : List Arg) : Params V :=
  fun n => if p ≤ n then (args[n - p]?).map B.bind else none

theorem binds_iff {B : Pg V} {p : Nat} {args : List Arg} :
    Binds B ps p args ↔ ∀ i a, args[i]? = some a → ps (p + i) = some (B.bind a) := by
  induction args generalizing p with
  | nil => simp [Binds]
  | cons a args ih =>
    simp only [Binds, ih]
    constructor
    · rintro ⟨ha, hrest⟩ i b hb
      cases i with
      | zero => simpa [← Option.some.inj hb] using ha
      | succ i =>
        have hb' := hrest i b (by simpa using hb)
        rwa [show p + (i + 1) = p + 1 + i by omega]
    · intro h
      refine ⟨h 0 a rfl, fun i b hb => ?_⟩
      have hb' := h (i + 1) b (by simpa using hb)
      rwa [show p + (i + 1) = p + 1 + i by omega] at hb'

theorem binds_paramsFrom (B : Pg V) (p : Nat) (args : List Arg) : Binds B (paramsFrom B p args) p args := by
  rw [binds_iff]
  intro i a ha
  simp only [paramsFrom, if_pos (Nat.le_add_right p i), Nat.add_sub_cancel_left, ha, Option.map_some]

variable {spec : FilterSpec} {w : Walker} {out : Frag × Walker}

/-- A field predicate: read on some database, which one does not matter. -/
theorem translatePredicate_accepted (h : translatePredicate w fs p = .ok out) : Accepted w out := by
  have hbuilt : Built literalPg (fun _ => none) w out (p.reading literalPg (fun _ => none) fs.column) :=
    translatePredicate_built h
  obtain ⟨new, hw, hm⟩ := hbuilt.translates.mono fun h => h.toAnd.toOr
  refine ⟨hbuilt.owns, fun hne => ?_⟩
  have hmeans := hm _ (binds_paramsFrom literalPg w.nextPH new)
  cases hr : p.reading literalPg (fun _ => none) fs.column with
  | none => rw [hr] at hmeans; exact absurd hmeans hne
  | some t =>
    rw [hr] at hmeans
    obtain ⟨e, hg, _⟩ := hmeans
    exact ⟨e, hg⟩

/-! ### The loops -/

/-- The placeholders of a fragment lie in a range. -/
def Within (lo hi : Nat) (frag : Frag) : Prop := ∀ n, .param n ∈ frag → lo ≤ n ∧ n < hi

theorem mem_params : n ∈ params frag ↔ .param n ∈ frag := by
  unfold params
  rw [List.mem_filterMap]
  constructor
  · rintro ⟨t, ht, hn⟩
    cases t <;> cases hn
    exact ht
  · intro hn
    exact ⟨_, hn, rfl⟩

theorem params_paren (frag : Frag) : params (paren frag) = params frag := by simp [params, paren]

/-- The loops keep the fragments that say something. -/
theorem collect_accepted {f : α → Walker → Out} {xs : List α} {w' : Walker}
    (hf : ∀ x w out, f x w = .ok out → Accepted w out) (h : collect f xs w = .ok (parts, w')) :
    (∃ new, w' = w.push new ∧ parts.flatMap params = List.range' w.nextPH new.length) ∧ ∀ p ∈ parts, Phrase p := by
  induction xs generalizing w parts w' with
  | nil =>
    cases h
    exact ⟨⟨[], by simp, rfl⟩, by simp⟩
  | cons x xs ih =>
    obtain ⟨⟨frag, w₁⟩, hx, h⟩ := bind_ok h
    obtain ⟨⟨parts', w₂⟩, hxs, h⟩ := bind_ok h
    cases h
    obtain ⟨⟨new₁, hw₁, hparams₁⟩, hfrag⟩ := hf x w _ hx
    obtain ⟨⟨new₂, hw₂, hparams₂⟩, hparts⟩ := ih hxs
    simp only at hw₁ hparams₁ hfrag
    subst hw₁ hw₂
    have hall : params frag ++ parts'.flatMap params = List.range' w.nextPH (new₁ ++ new₂).length := by
      rw [hparams₁, hparams₂, Walker.push_nextPH, List.range'_append_1, List.length_append]
    refine ⟨⟨new₁ ++ new₂, w.push_push new₁ new₂, ?_⟩, fun p hp => ?_⟩
    · rw [← hall]
      split
      · rename_i hnil
        rw [hnil]
        rfl
      · rfl
    · split at hp
      · exact hparts p hp
      · rename_i hnil
        rcases List.mem_cons.mp hp with rfl | hp
        · exact hfrag hnil
        · exact hparts p hp

theorem params_joinComposite (hop : op = .kwAnd ∨ op = .kwOr) (parts : List Frag) :
    params (joinComposite op (parts.map paren)) = parts.flatMap params := by
  match parts with
  | [] => rfl
  | [p] =>
    show params (trimParens (paren p)) = _
    rw [trimParens_paren, List.flatMap_singleton]
  | p :: q :: l =>
    show params (sepBy op ((p :: q :: l).map paren)) = _
    rw [params_sepBy (by rcases hop with rfl | rfl <;> rfl), List.flatMap_map]
    simp only [params_paren]

theorem translateComposite_accepted {ms : List Filter} (hop : op = .kwAnd ∨ op = .kwOr)
    (hn : ∀ m w out, nested m w = .ok out → Accepted w out) (h : translateComposite nested op ms w = .ok out) :
    Accepted w out := by
  obtain ⟨⟨parts, w'⟩, hparts, h⟩ := bind_ok h
  obtain ⟨⟨new, hw, hparams⟩, hphrases⟩ := collect_accepted hn hparts
  cases h
  refine ⟨⟨new, hw, (params_joinComposite hop parts).trans hparams⟩, fun hne => ?_⟩
  match parts, hphrases, hne with
  | [p], hphrases, _ =>
    show Phrase (trimParens (paren p))
    rw [trimParens_paren]
    exact hphrases p (by simp)
  | p :: q :: l, hphrases, _ =>
    show Phrase (sepBy op ((p :: q :: l).map paren))
    have hunits := units_paren hphrases
    rcases hop with rfl | rfl
    · exact phrase_sepBy_and hunits.phrase (by simp)
    · exact phrase_sepBy_or hunits (by simp)

theorem translateArm_accepted {sf : SetField} (hn : ∀ m w out, nested m w = .ok out → Accepted w out)
    (h : translateArm spec nested sf w = .ok out) : Accepted w out := by
  cases sf with
  | pred num field p =>
    obtain ⟨fs, _, hp⟩ := translateArm_pred h
    exact translatePredicate_accepted hp
  | and num ms => exact translateComposite_accepted (.inl rfl) hn h
  | or num ms => exact translateComposite_accepted (.inr rfl) hn h
  | not num m =>
    obtain ⟨⟨inner, w'⟩, hm, h⟩ := bind_ok h
    obtain ⟨⟨new, hw, hparams⟩, hinner⟩ := hn m w _ hm
    cases h
    split
    · rename_i hnil
      rw [hnil] at hparams
      exact ⟨⟨new, hw, hparams⟩, fun hne => absurd rfl hne⟩
    · rename_i hnil
      obtain ⟨e, hg⟩ := (hinner hnil).unit
      exact ⟨⟨new, hw, (params_paren inner).trans hparams⟩, fun _ => ⟨_, .conj (.unit (.not hg))⟩⟩

/-- **Every accepted filter is a phrase**, and mentions its own placeholders only. By induction on the levels left. -/
theorem translateFilter_accepted (left : Nat) (m : Filter) (w : Walker) (out : Frag × Walker)
    (h : translateFilter spec left m w = .ok out) : Accepted w out := by
  induction left generalizing m w out with
  | zero => cases h
  | succ left ih =>
    obtain ⟨⟨parts, w'⟩, hparts, h⟩ := bind_ok h
    obtain ⟨⟨new, hw, hparams⟩, hphrases⟩ := collect_accepted (fun sf w out hok => translateArm_accepted ih hok) hparts
    cases h
    refine ⟨⟨new, hw, (params_sepBy rfl parts).trans hparams⟩, fun hne => phrase_sepBy_and hphrases ?_⟩
    rintro rfl
    exact hne rfl

/-! ## The clause -/

theorem filter_phrases (hex : ∀ x ∈ extras, Phrase x) : extras.filter (· ≠ []) = extras := by
  rw [List.filter_eq_self]
  exact fun x hx => decide_eq_true (hex x hx).ne_nil

/-- **The clause `TranslateFilter` returns** is a conjunction: the user's filter in parentheses, if there is
    one, and the extra predicates, each in its own. -/
theorem TranslateFilter_units (h : TranslateFilter spec msg start extras = .ok tr) (hex : ∀ x ∈ extras, Phrase x) :
    ∃ user, Units user ∧ Units (extras.map paren) ∧ tr.sql = sepBy .kwAnd (user ++ extras.map paren) := by
  obtain ⟨⟨userPart, w⟩, hu, h⟩ := bind_ok h
  have huser : userPart ≠ [] → Phrase userPart := by
    cases msg with
    | none => exact fun hne => absurd (Prod.mk.inj (Except.ok.inj hu)).1.symm hne
    | some m => exact (translateFilter_accepted _ m _ _ hu).2
  cases h
  refine ⟨if userPart = [] then [] else [paren userPart], ?_, units_paren hex, ?_⟩
  · intro p hp
    by_cases hnil : userPart = []
    · simp [hnil] at hp
    · rw [if_neg hnil, List.mem_singleton] at hp
      rw [hp]
      exact (huser hnil).unit
  · show sepBy .kwAnd _ = _
    rw [filter_phrases hex]

/-- Without a filter only the extra predicates are left. -/
theorem TranslateFilter_none (hex : ∀ x ∈ extras, Phrase x) :
    TranslateFilter spec none start extras = .ok ⟨sepBy .kwAnd (extras.map paren), [], start - start⟩ := by
  show Except.ok (Translation.mk (sepBy .kwAnd ([] ++ (extras.filter (· ≠ [])).map paren)) [] _) = _
  rw [filter_phrases hex]
  rfl

/-- **The placeholders of the clause**: those of the filter's arguments one after the other, then the extra predicates'
    own. -/
theorem TranslateFilter_params (h : TranslateFilter spec msg start extras = .ok tr) :
    params tr.sql = List.range' start tr.args.length ++ extras.flatMap params ∧ tr.consumed = tr.args.length := by
  obtain ⟨⟨userPart, w⟩, hu, h⟩ := bind_ok h
  obtain ⟨new, hw, hparams⟩ : Owns ⟨start, []⟩ (userPart, w) := by
    cases msg with
    | none =>
      cases hu
      exact ⟨[], rfl, rfl⟩
    | some m => exact (translateFilter_accepted _ m _ _ hu).1
  obtain rfl : w = _ := hw
  cases h
  have huser : (if userPart = [] then [] else [paren userPart]).flatMap params = params userPart := by
    split
    · rename_i hnil
      rw [hnil]
      rfl
    · rw [List.flatMap_singleton, params_paren]
  have hextras : ∀ xs : List Frag, ((xs.filter (· ≠ [])).map paren).flatMap params = xs.flatMap params := by
    intro xs
    induction xs with
    | nil => rfl
    | cons x xs ih =>
      rw [List.flatMap_cons, ← ih]
      by_cases hnil : x = []
      · simp [hnil, params]
      · simp [hnil, params_paren]
  refine ⟨?_, by simp [Walker.push]⟩
  show params (sepBy .kwAnd _) = _
  rw [params_sepBy rfl, List.flatMap_append, huser, hextras]
  exact congrArg (· ++ _) hparams

/-- A clause of units is grammatical. -/
theorem parses_units (h : Units parts) : sepBy .kwAnd parts = [] ∨ (parse (sepBy .kwAnd parts)).isSome := by
  by_cases hnil : parts = []
  · exact .inl (by rw [hnil]; rfl)
  · obtain ⟨e, hg⟩ := phrase_sepBy_and h.phrase hnil
    exact .inr (by rw [hg.parse_eq]; rfl)

/-- Units have values, each for itself. -/
theorem Units.reads (h : Units parts) : ∃ ts, List.Forall₂ (Reads (Pred.eval D row ps) .unit) parts ts ∧
    parts.map (fragValue D row ps) = ts.map some := by
  induction parts with
  | nil => exact ⟨[], .nil, rfl⟩
  | cons p l ih =>
    obtain ⟨e, hg⟩ := h p (by simp)
    obtain ⟨ts, hts, hvalues⟩ := ih fun q hq => h q (List.mem_cons_of_mem _ hq)
    have hp : Reads (Pred.eval D row ps) .unit p (e.eval (Pred.eval D row ps)) := ⟨e, hg, rfl⟩
    refine ⟨_, .cons hp hts, ?_⟩
    rw [List.map_cons, hvalues, Reads.fragValue hp.toAnd.toOr, List.map_cons]

/-- A clause of units selects a row exactly when each of them does. -/
theorem fragValue_units (h : Units parts) :
    fragValue D row ps (sepBy .kwAnd parts) = some .true ↔
      ∀ p ∈ parts, fragValue D row ps p = some .true := by
  obtain ⟨ts, hts, hvalues⟩ := @Units.reads _ _ D row ps h
  rw [fragValue_sepBy_and (hts.imp fun _ _ => Reads.toAnd), Option.some_inj, Tri.all_eq_true,
    ← @List.forall_mem_map _ _ (fragValue D row ps) parts (· = some .true), hvalues]
  simp

/-- **The clause selects the rows on which the filter holds and the extra predicates do**, where no bare `OR` stands next
    to another arm. -/
theorem TranslateFilter_selects {B : Pg V} (h : TranslateFilter spec msg start extras = .ok tr)
    (hapart : ∀ m, msg = some m → m.OrsApart) (hps : Binds B ps start tr.args) (hex : ∀ x ∈ extras, Phrase x) :
    fragValue B.toDialect row ps tr.sql = some .true ↔ (∀ m, msg = some m → m.holds B row spec = .true) ∧
      ∀ x ∈ extras, fragValue B.toDialect row ps x = some .true := by
  have hextras : ∃ ts : List Tri, List.Forall₂ (Means (Pred.eval B.toDialect row ps) .or) extras (ts.map some) ∧
      extras.map (fragValue B.toDialect row ps) = ts.map some := by
    clear h
    induction extras with
    | nil => exact ⟨[], .nil, rfl⟩
    | cons x extras ih =>
      obtain ⟨e, hg⟩ := hex x List.mem_cons_self
      obtain ⟨ts, hts, hvalues⟩ := ih fun y hy => hex y (List.mem_cons_of_mem _ hy)
      have hx : Reads (Pred.eval B.toDialect row ps) .or x (e.eval (Pred.eval B.toDialect row ps)) := ⟨e, hg, rfl⟩
      refine ⟨_ :: ts, .cons hx hts, ?_⟩
      rw [List.map_cons, hvalues, Reads.fragValue hx, List.map_cons]
  obtain ⟨ts, hts, hvalues⟩ := hextras
  have huser : ∀ m w out, msg = some m → translateFilter spec (maxFilterDepth + 1) m w = .ok out →
      Translates B row .or w out (msg.bind fun m => m.reading B row spec) := by
    rintro m w out rfl hok
    exact ((translateFilter_faithful _ m w out hok).2 (hapart m rfl)).levelOf (d := true) fun _ => rfl
  rw [TranslateFilter_reads huser (by rintro rfl; rfl) h hps hts, Option.some_inj, Tri.all_eq_true, List.forall_mem_append,
    ← @List.forall_mem_map _ _ (fragValue B.toDialect row ps) extras (· = some .true), hvalues]
  refine and_congr ?_ (by simp)
  cases msg with
  | none => simp
  | some m => cases hr : m.reading B row spec <;> simp [Filter.holds, hr]

/-- The value of a clause depends on its own placeholders only. -/
theorem fragValue_units_congr (h : Units parts) (hps : ∀ n, .param n ∈ sepBy .kwAnd parts → ps n = ps' n) :
    fragValue D row ps (sepBy .kwAnd parts) = fragValue D row ps' (sepBy .kwAnd parts) := by
  by_cases hnil : parts = []
  · rw [hnil]
    rfl
  · obtain ⟨e, hg⟩ := phrase_sepBy_and h.phrase hnil
    have hreads : ∀ qs : Params V, Reads (Pred.eval D row qs) .or _ (e.eval (Pred.eval D row qs)) :=
      fun qs => ⟨e, hg, rfl⟩
    rw [Reads.fragValue (hreads ps), Reads.fragValue (hreads ps'), hg.eval_congr hps]

/-- A disjunction of units selects a row exactly when one of them does. -/
theorem fragValue_units_or (h : Units parts) (hne : parts ≠ []) :
    fragValue D row ps (sepBy .kwOr parts) = some .true ↔
      ∃ p ∈ parts, fragValue D row ps p = some .true := by
  obtain ⟨ts, hts, hvalues⟩ := @Units.reads _ _ D row ps h
  rw [Reads.fragValue (Reads.sepBy_or (hts.imp fun _ _ h => h.toAnd.toOr) hne), Option.some_inj, Tri.any_eq_true]
  have hmap : (∃ x ∈ parts.map (fragValue D row ps), x = some .true) ↔ ∃ x ∈ ts.map some, x = some .true := by rw [hvalues]
  simpa using hmap.symm

/-! ## The caps

`inFragment` and `checkString` keep the caps of `spec.go`; a numeric `in` list does not go through `inFragment`. -/

/-- No list of the predicate is longer than `MaxInListSize` and no string longer than `MaxStringLen`. -/
def PredMsg.Capped : PredMsg → Prop
  | .string (some (.eq s)) | .string (some (.neq s)) | .string (some (.startsWith s)) | .string (some (.endsWith s))
  | .string (some (.contains s)) | .string (some (.ilike s)) | .numeric (some (.cmp _ s)) => s.utf8ByteSize ≤ maxStringLen
  | .string (some (.in_ vs)) | .string (some (.notIn vs)) | .numeric (some (.in_ vs)) =>
    vs.length ≤ maxInListSize ∧ ∀ s ∈ vs, s.utf8ByteSize ≤ maxStringLen
  | .int32 (some (.in_ vs)) | .int32 (some (.notIn vs)) => vs.length ≤ maxInListSize
  | .int64 (some (.in_ vs)) | .int64 (some (.notIn vs)) => vs.length ≤ maxInListSize
  | .bytes (some (.in_ vs)) => vs.length ≤ maxInListSize
  | _ => True

/-- The cap on lists, for a numeric predicate. -/
def PredMsg.ShortNumeric : PredMsg → Prop
  | .numeric (some (.in_ vs)) => vs.length ≤ maxInListSize
  | _ => True

/-- The messages right under a set field. -/
def SetField.inner : SetField → List Filter
  | .pred _ _ _ => []
  | .and _ ms | .or _ ms => ms
  | .not _ k => [k]

/-- A message stands in another, under so many levels of `and`, `or` and `not`. -/
inductive Filter.Nested : Filter → Nat → Filter → Prop where
  | self {m : Filter} : m.Nested 0 m
  | inside {m k inner : Filter} {sf : SetField} {depth : Nat} (hsf : sf ∈ m.set) (hk : k ∈ sf.inner)
      (h : k.Nested depth inner) : m.Nested (depth + 1) inner

/-- Every predicate of the message has the property, at any nesting. -/
def Filter.All (P : PredMsg → Prop) (m : Filter) : Prop :=
  ∀ depth inner, m.Nested depth inner → ∀ num field p, .pred num field p ∈ inner.set → P p

/-- **The message keeps the caps**, at any nesting. -/
def Filter.Capped (m : Filter) : Prop :=
  m.All PredMsg.Capped ∧ ∀ depth inner, m.Nested depth inner → depth ≤ maxFilterDepth

variable {vs : List String} {as : List Arg}

theorem checkString_le {s t : String} (h : checkString s = .ok t) : s.utf8ByteSize ≤ maxStringLen := by
  unfold checkString at h
  split at h
  · cases h
  · omega

theorem stringListValues_le (h : stringListValues vs = .ok as) : ∀ s ∈ vs, s.utf8ByteSize ≤ maxStringLen := by
  induction vs generalizing as with
  | nil => exact nofun
  | cons s vs ih =>
    obtain ⟨s', hs, h⟩ := bind_ok h
    obtain ⟨as', hvs, _⟩ := bind_ok h
    exact List.forall_mem_cons.mpr ⟨checkString_le hs, ih hvs⟩

theorem inFragment_le {c : String} {neg : Bool} (h : inFragment w c as neg = .ok out) : as.length ≤ maxInListSize := by
  unfold inFragment at h
  split at h
  · rename_i hnil
    rw [hnil]
    exact Nat.zero_le _
  split at h
  · cases h
  · omega

/-- An accepted predicate keeps the caps, but for a numeric list. -/
theorem translatePredicate_capped (h : translatePredicate w fs p = .ok out) : p.Capped ↔ p.ShortNumeric := by
  cases p <;> simp only [translatePredicate] at h <;> split at h
  case numeric.isTrue op _ =>
    rcases op with _ | (⟨arm, s⟩ | vs | on | on)
    · exact Iff.rfl
    · obtain ⟨_, hs, _⟩ := bind_ok h
      exact iff_of_true (checkString_le hs) trivial
    · obtain ⟨_, hvs, _⟩ := bind_ok h
      exact and_iff_left (stringListValues_le hvs)
    all_goals exact Iff.rfl
  case string.isTrue op _ =>
    refine iff_of_true ?_ trivial
    rcases op with _ | op
    · trivial
    cases op with
    | eq s | neq s | startsWith s | endsWith s | contains s | ilike s =>
      obtain ⟨_, hs, _⟩ := bind_ok h
      exact checkString_le hs
    | in_ vs | notIn vs =>
      obtain ⟨as, has, h⟩ := bind_ok h
      have hlen := inFragment_le h
      rw [stringListValues_ok has, List.length_map] at hlen
      exact ⟨hlen, stringListValues_le has⟩
    | isNull on | isNotNull on => trivial
  case int32.isTrue op _ | int64.isTrue op _ =>
    refine iff_of_true ?_ trivial
    rcases op with _ | op
    · trivial
    cases op with
    | in_ vs | notIn vs => simpa [PredMsg.Capped] using inFragment_le h
    | cmp arm v | between lo hi | isNull on | isNotNull on => trivial
  case bytes.isTrue op _ =>
    refine iff_of_true ?_ trivial
    rcases op with _ | op
    · trivial
    cases op with
    | in_ vs => simpa [PredMsg.Capped] using inFragment_le h
    | eq b | neq b | isNull on | isNotNull on => trivial
  case bool.isTrue | timestamp.isTrue => exact Iff.rfl
  all_goals cases h

theorem collect_mem {f : α → Walker → Out} {xs : List α} {x : α} {parts : List Frag × Walker}
    (h : collect f xs w = .ok parts) (hx : x ∈ xs) : ∃ w out, f x w = .ok out := by
  induction xs generalizing w parts with
  | nil => cases hx
  | cons y xs ih =>
    obtain ⟨out, hy, h⟩ := bind_ok h
    obtain ⟨rest, hxs, _⟩ := bind_ok h
    rcases List.mem_cons.mp hx with rfl | hx
    · exact ⟨_, _, hy⟩
    · exact ih hxs hx

/-- What stands in an accepted set field has been accepted. -/
theorem translateArm_inner {sf : SetField} {k : Filter} (h : translateArm spec nested sf w = .ok out) (hk : k ∈ sf.inner) :
    ∃ w out, nested k w = .ok out := by
  cases sf with
  | pred num field p => cases hk
  | and num ms | or num ms =>
    obtain ⟨parts, hparts, _⟩ := bind_ok h
    exact collect_mem hparts hk
  | not num m =>
    obtain ⟨inner, hinner, _⟩ := bind_ok h
    rw [List.mem_singleton.mp hk]
    exact ⟨_, _, hinner⟩

/-- The set fields of an accepted message, each with its outcome. -/
theorem translateFilter_arm {left : Nat} {m : Filter} {sf : SetField} (h : translateFilter spec left m w = .ok out)
    (hsf : sf ∈ m.set) : ∃ left', left = left' + 1 ∧ ∃ w out, translateArm spec (translateFilter spec left') sf w = .ok out := by
  cases left with
  | zero => cases h
  | succ left =>
    obtain ⟨parts, hparts, _⟩ := bind_ok h
    exact ⟨left, rfl, collect_mem hparts ((sortByNumber_perm m.set).mem_iff.mpr hsf)⟩

/-- **Every message in an accepted one has been accepted**, with as many levels less as it is nested. -/
theorem translateFilter_nested {left depth : Nat} {m inner : Filter} (hnested : m.Nested depth inner)
    (h : translateFilter spec left m w = .ok out) :
    depth < left ∧ ∃ w out, translateFilter spec (left - depth) inner w = .ok out := by
  induction hnested generalizing left w out with
  | self =>
    cases left with
    | zero => cases h
    | succ left => exact ⟨Nat.succ_pos _, w, out, h⟩
  | inside hsf hk _ ih =>
    obtain ⟨left, rfl, w, out, harm⟩ := translateFilter_arm h hsf
    obtain ⟨w, out, hk⟩ := translateArm_inner harm hk
    obtain ⟨hlt, hinner⟩ := ih hk
    rw [Nat.add_sub_add_right]
    exact ⟨Nat.succ_lt_succ hlt, hinner⟩

/-- **An accepted filter keeps the caps exactly if its numeric lists do.** -/
theorem capped_iff {spec : FilterSpec} {m : Filter} {start : Nat} {extras : List Frag} {tr : Translation}
    (h : TranslateFilter spec (some m) start extras = .ok tr) : m.Capped ↔ m.All PredMsg.ShortNumeric := by
  obtain ⟨out, h, _⟩ := bind_ok h
  have hdepth : ∀ depth inner, m.Nested depth inner → depth ≤ maxFilterDepth := fun depth inner hnested =>
    Nat.lt_succ_iff.mp (translateFilter_nested hnested h).1
  unfold Filter.Capped
  rw [and_iff_left hdepth]
  refine forall₃_congr fun depth inner hnested => forall₄_congr fun num field p hp => ?_
  obtain ⟨_, w, out, hinner⟩ := translateFilter_nested hnested h
  obtain ⟨_, _, w, out, harm⟩ := translateFilter_arm hinner hp
  obtain ⟨fs, _, hpred⟩ := translateArm_pred harm
  exact translatePredicate_capped hpred

/-- Items with a price and a name. -/
private def itemSpec : FilterSpec :=
  ⟨"shop.Item", "shop_item", fun name => some ⟨name, if name = "price" then .numeric else .string, false⟩⟩

private def priceIn (prices : List String) : Filter := .mk [.pred 1 ⟨"price", by decide⟩ (.numeric (some (.in_ prices)))]

private def nameIn (names : List String) : Filter := .mk [.pred 2 ⟨"name", by decide⟩ (.string (some (.in_ names)))]

/-- Items with one of two names, or without some prices. -/
def namedOrPriced : Filter := .mk [.or 101 [nameIn ["pen", "ink"], .mk [.not 102 (priceIn ["1", "2.50"])]]]

theorem capped_iff_namedOrPriced :
    (∃ tr, TranslateFilter itemSpec (some namedOrPriced) 1 [] = .ok tr) ∧ namedOrPriced.Capped := by
  have haccepted : ∃ tr, TranslateFilter itemSpec (some namedOrPriced) 1 [] = .ok tr := exists_ok (by decide +kernel)
  obtain ⟨tr, h⟩ := haccepted
  refine ⟨⟨tr, h⟩, (capped_iff h).mpr fun depth inner hnested num field p hp => ?_⟩
  -- the levels of the message, from the top to the prices
  cases hnested with
  | self => simp [namedOrPriced, Filter.set] at hp
  | inside hsf hk hnested =>
    rw [List.mem_singleton.mp hsf] at hk
    rcases List.mem_cons.mp hk with rfl | hk
    · cases hnested with
      | self =>
        cases List.mem_singleton.mp hp
        trivial
      | inside hsf hk =>
        rw [List.mem_singleton.mp hsf] at hk
        cases hk
    · rw [List.mem_singleton.mp hk] at hnested
      cases hnested with
      | self => simp [Filter.set] at hp
      | inside hsf hk hnested =>
        rw [List.mem_singleton.mp hsf] at hk
        rw [List.mem_singleton.mp hk] at hnested
        cases hnested with
        | self =>
          cases List.mem_singleton.mp hp
          exact (by decide : 2 ≤ maxInListSize)
        | inside hsf hk =>
          rw [List.mem_singleton.mp hsf] at hk
          cases hk

/-- **A numeric list may be as long as one likes.** -/
theorem manyPrices_accepted : (∃ tr, TranslateFilter itemSpec (some (priceIn (List.replicate 201 "1"))) 1 [] = .ok tr) ∧
    ¬ (priceIn (List.replicate 201 "1")).Capped := by
  refine ⟨exists_ok (by decide +kernel), fun h => ?_⟩
  have hlen : (List.replicate 201 "1").length ≤ maxInListSize := (h.1 0 _ .self _ _ _ List.mem_cons_self).1
  rw [List.length_replicate] at hlen
  exact absurd hlen (by decide)

end Atlantis.Query
