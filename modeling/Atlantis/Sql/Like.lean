import Mathlib.Data.List.Infix

/-!
# `Sql.Like` — the `LIKE` matcher and literal patterns

`like p t` is SQL's pattern match with the default escape character: `%` stands for any text, `_` for any
one character, and `\` makes the next character literal. `escape` is the quoting that turns arbitrary text
into a pattern matching exactly that text; the four `like_*` theorems say what an escaped text means
between wildcards.
-/

namespace Atlantis.Sql

/-- SQL `t LIKE p`. A pattern that ends in a lone escape character matches nothing. -/
def like : List Char → List Char → Bool
  | [], t => t.isEmpty
  | '%' :: p, t => t.tails.any (like p)
  | '_' :: p, t =>
    match t with
    | [] => false
    | _ :: t => like p t
  | ['\\'], _ => false
  | '\\' :: x :: p, t =>
    match t with
    | [] => false
    | c :: t => x == c && like p t
  | x :: p, t =>
    match t with
    | [] => false
    | c :: t => x == c && like p t

/-- The characters with a meaning of their own in a pattern. -/
def isMeta (c : Char) : Bool := c == '\\' || c == '%' || c == '_'

/-- Quote a text so that, as a pattern, it matches itself only. -/
def escape (s : List Char) : List Char := s.flatMap fun c => if isMeta c then ['\\', c] else [c]

theorem escape_cons (c : Char) (s : List Char) :
    escape (c :: s) = (if isMeta c then ['\\', c] else [c]) ++ escape s := rfl

/-- A quoted character in front of a pattern consumes exactly itself. -/
theorem like_escape_one {c : Char} {p t : List Char} :
    like ((if isMeta c then ['\\', c] else [c]) ++ p) t = true ↔ ∃ t', t = c :: t' ∧ like p t' = true := by
  split
  · cases t with
    | nil => simp [like]
    | cons d t =>
      simp only [List.cons_append, List.nil_append, like, Bool.and_eq_true, beq_iff_eq, List.cons.injEq]
      exact ⟨fun h => ⟨t, ⟨h.1.symm, rfl⟩, h.2⟩, fun ⟨t', ⟨hd, ht⟩, hp⟩ => ⟨hd.symm, ht ▸ hp⟩⟩
  · rename_i hm
    simp only [isMeta, Bool.or_eq_true, beq_iff_eq, not_or] at hm
    obtain ⟨⟨hb, hp⟩, hu⟩ := hm
    -- none of the special arms of `like` applies to `c`
    have hlit : like (c :: p) t = match t with
        | [] => false
        | d :: t => c == d && like p t := by
      rw [like.eq_def (c :: p)]
      split <;> simp_all
    rw [List.singleton_append, hlit]
    cases t with
    | nil => simp
    | cons d t =>
      simp only [Bool.and_eq_true, beq_iff_eq, List.cons.injEq]
      exact ⟨fun h => ⟨t, ⟨h.1.symm, rfl⟩, h.2⟩, fun ⟨t', ⟨hd, ht⟩, hp⟩ => ⟨hd.symm, ht ▸ hp⟩⟩

/-- A quoted text in front of a pattern consumes exactly that text. -/
theorem like_escape_append (s p t : List Char) :
    like (escape s ++ p) t = true ↔ ∃ t', t = s ++ t' ∧ like p t' = true := by
  induction s generalizing t with
  | nil => simp [escape]
  | cons c s ih =>
    rw [escape_cons, List.append_assoc, like_escape_one]
    constructor
    · rintro ⟨t', rfl, h⟩
      obtain ⟨t'', rfl, h'⟩ := (ih t').mp h
      exact ⟨t'', rfl, h'⟩
    · rintro ⟨t'', rfl, h⟩
      exact ⟨s ++ t'', rfl, (ih _).mpr ⟨t'', rfl, h⟩⟩

theorem like_percent (p t : List Char) :
    like ('%' :: p) t = true ↔ ∃ t', t' <:+ t ∧ like p t' = true := by
  simp only [like, List.any_eq_true, List.mem_tails]

/-- `escape s ++ "%"` matches the texts that start with `s`. -/
theorem like_startsWith (s t : List Char) : like (escape s ++ ['%']) t = true ↔ s <+: t := by
  rw [like_escape_append]
  constructor
  · rintro ⟨t', rfl, _⟩
    exact List.prefix_append s t'
  · rintro ⟨t', rfl⟩
    exact ⟨t', rfl, (like_percent [] t').mpr ⟨[], List.nil_suffix, rfl⟩⟩

/-- `"%" ++ escape s` matches the texts that end with `s`. -/
theorem like_endsWith (s t : List Char) : like ('%' :: escape s) t = true ↔ s <:+ t := by
  rw [like_percent]
  have hexact : ∀ u, like (escape s) u = true ↔ u = s := by
    intro u
    have := like_escape_append s [] u
    rw [List.append_nil] at this
    rw [this]
    simp [like]
  constructor
  · rintro ⟨u, hu, hm⟩
    exact (hexact u).mp hm ▸ hu
  · intro h
    exact ⟨s, h, (hexact s).mpr rfl⟩

/-- `"%" ++ escape s ++ "%"` matches the texts that contain `s`. -/
theorem like_contains (s t : List Char) : like ('%' :: (escape s ++ ['%'])) t = true ↔ s <:+: t := by
  rw [like_percent]
  constructor
  · rintro ⟨u, hu, hm⟩
    exact ((like_startsWith s u).mp hm).isInfix.trans hu.isInfix
  · rintro ⟨a, b, rfl⟩
    refine ⟨s ++ b, ⟨a, by rw [List.append_assoc]⟩, (like_startsWith s _).mpr (List.prefix_append s b)⟩

/-- Quoting commutes with a character map that neither makes nor hides a special character. -/
theorem escape_map {f : Char → Char} (hf : ∀ c, isMeta (f c) = isMeta c)
    (hfix : ∀ c, isMeta c = true → f c = c) (s : List Char) :
    (escape s).map f = escape (s.map f) := by
  induction s with
  | nil => rfl
  | cons c s ih =>
    rw [escape_cons, List.map_append, ih, List.map_cons, escape_cons, hf]
    by_cases hm : isMeta c = true
    · have hb : f '\\' = '\\' := hfix _ rfl
      simp [hm, hb]
    · simp [hm]

end Atlantis.Sql
