import Atlantis.Schema.Validate

/-!
# `Schema.Physical` — five answers to "where does this entity live?"

The migration emitter and the runtime SQL ask `EntitySchema` and `EntityPhysicalTable`. Introspection
(`physical`), the TTL sweeper (`resolvePhysical`), the sandbox (`schemaNameFor`) and raw-SQL validation
(`buildTableSet`) each carry a copy. The copies differ from the original in three ways:

* their snake-casing opens a word at *every* capital after the first character, the original only where a
  lower-case letter stands before it, or a capital before and a lower-case letter after it;
* a bare `table "name"` is looked for in `atlantis`, where the original (and raw-SQL validation) says `public`;
* the sweeper writes one byte for each character.

`agrees_iff` says for which entities all five answers are nevertheless the same.
-/

namespace Atlantis.Schema

/-! ## Snake-casing that breaks at every capital -/

/-- `r - 'A' + 'a'` for a capital. -/
def lowerAscii (r : Char) : Char := if isUpperAscii r then Char.ofNat (r.toNat + 32) else r

/-- The loop the four copies share: a separator before every capital that is not the first character. -/
def breakCapitals {α : Type} (sep : α) (put : Char → α) : Bool → List Char → List α
  | _, [] => []
  | first, r :: rest =>
    (if isUpperAscii r && !first then [sep] else []) ++ put (lowerAscii r) :: breakCapitals sep put false rest

/-- `snakeCase` of `internal/introspect` and of `internal/dsl/sqlvalidate`, `toSnake` of the sandbox. -/
def toSnake (s : String) : String := String.ofList (breakCapitals '_' id true s.toList)

/-- `snakeCaseSweep`: `byte(r)` for every rune. -/
def snakeCaseSweep (s : String) : List UInt8 :=
  breakCapitals (UInt8.ofNat '_'.toNat) (fun r => UInt8.ofNat r.toNat) true s.toList

/-! ## The copies -/

/-- `physical` of `internal/introspect`. -/
def physical (e : Entity) : String × String :=
  if e.tableName = "" then ("atlantis", e.namespace_ ++ "_" ++ toSnake e.name)
  else
    match cutDot e.tableName with
    | some (s, t) => if s ≠ "" then (s, t) else ("atlantis", e.tableName)
    | none => ("atlantis", e.tableName)

/-- `schemaNameFor` of the sandbox. -/
def schemaNameFor (e : Entity) : String × String :=
  if e.tableName ≠ "" then
    match cutDot e.tableName with
    | some (s, t) => (s, t)
    | none => ("atlantis", e.tableName)
  else ("atlantis", e.namespace_ ++ "_" ++ toSnake e.name)

/-- The bytes of a string. -/
def utf8 (s : String) : List UInt8 := s.toList.flatMap String.utf8EncodeChar

/-- `resolvePhysical` of the TTL sweeper, in bytes. -/
def resolvePhysical (e : Entity) : List UInt8 × List UInt8 :=
  if e.tableName = "" then (utf8 "atlantis", utf8 (e.namespace_ ++ "_") ++ snakeCaseSweep e.name)
  else
    match cutDot e.tableName with
    | some (s, t) => (utf8 s, utf8 t)
    | none => (utf8 "atlantis", utf8 e.tableName)

/-- `unicode.ToLower`, of which only the ASCII half is fixed here. -/
structure Casing where
  lower : Char → Char
  ascii : ∀ c, c.toNat < 128 → lower c = c.toLower

/-- `strings.ToLower`. -/
def Casing.toLower (C : Casing) (s : String) : String := String.ofList (s.toList.map C.lower)

/-- The two keys `buildTableSet` registers an entity under: `schema.table` and the bare table. -/
def tableKeys (C : Casing) (e : Entity) : String × String :=
  if e.tableName ≠ "" then
    match cutDot e.tableName with
    | some (_, t) => (C.toLower e.tableName, C.toLower t)
    | none => (C.toLower ("public." ++ e.tableName), C.toLower e.tableName)
  else
    let bare := C.toLower (e.namespace_ ++ "_" ++ toSnake e.name)
    ("atlantis." ++ bare, bare)

/-! ## Where the two snake-casings meet -/

/-- Every capital after the first character opens a word for `SnakeCase` too: it follows a lower-case
    letter, or it follows a capital and a lower-case letter follows it. -/
def wordsMarked : Option Char → List Char → Bool
  | _, [] => true
  | prev, r :: rest =>
    (match prev with
      | none => true
      | some p => !isUpperAscii r || isLowerAscii p || (rest.head?.any isLowerAscii && isUpperAscii p))
    && wordsMarked (some r) rest

/-- A name all copies write alike: ASCII, with every later capital at the start of a word. -/
def PlainName (s : String) : Prop := (∀ c ∈ s.toList, c.toNat < 128) ∧ wordsMarked none s.toList = true

instance (s : String) : Decidable (PlainName s) :=
  @instDecidableAnd _ _ (List.decidableBAll _ _) inferInstance

theorem toNat_lowerAscii {r : Char} (h : isUpperAscii r = true) :
    (lowerAscii r).toNat = r.toNat + 32 ∧ 65 ≤ r.toNat ∧ r.toNat ≤ 90 := by
  have hbounds : 65 ≤ r.toNat ∧ r.toNat ≤ 90 := by
    unfold isUpperAscii at h
    rw [Bool.and_eq_true, decide_eq_true_eq, decide_eq_true_eq] at h
    exact ⟨h.1, h.2⟩
  have hvalid : (r.toNat + 32).isValidChar := Or.inl (by omega)
  refine ⟨?_, hbounds⟩
  unfold lowerAscii
  rw [if_pos h]
  unfold Char.ofNat
  rw [dif_pos hvalid]
  unfold Char.ofNatAux Char.toNat
  simp
  omega

theorem lowerAscii_ne_underscore {r : Char} (h : isUpperAscii r = true) : lowerAscii r ≠ '_' := by
  obtain ⟨hlowered, hlow, -⟩ := toNat_lowerAscii h
  intro heq
  rw [heq] at hlowered
  have : (95 : Nat) = r.toNat + 32 := hlowered
  omega

/-- The two loops agree exactly on marked words. -/
theorem snakeCaseFrom_eq_iff (prev : Option Char) (cs : List Char) :
    snakeCaseFrom prev cs = breakCapitals '_' id prev.isNone cs ↔ wordsMarked prev cs = true := by
  induction cs generalizing prev with
  | nil => simp [snakeCaseFrom, breakCapitals, wordsMarked]
  | cons r rest ih =>
    have hrest := ih (some r)
    rw [Option.isNone_some] at hrest
    cases prev with
    | none =>
      simp only [snakeCaseFrom, breakCapitals, wordsMarked, Option.isNone_none, Bool.not_true,
        Bool.and_false, Bool.false_eq_true, if_false, List.nil_append, Bool.true_and, id]
      rw [show (if isUpperAscii r = true then Char.ofNat (r.toNat + 32) else r) = lowerAscii r from rfl,
        List.cons.injEq, and_iff_right rfl]
      exact hrest
    | some p =>
      simp only [snakeCaseFrom, breakCapitals, wordsMarked, Option.isNone_some, Bool.not_false,
        Bool.and_true, id]
      rw [show (if isUpperAscii r = true then Char.ofNat (r.toNat + 32) else r) = lowerAscii r from rfl]
      by_cases hup : isUpperAscii r = true
      · by_cases hbreak : (isLowerAscii p || (rest.head?.any isLowerAscii && isUpperAscii p)) = true
        · simp only [hup, hbreak, Bool.true_and, if_true, List.cons_append, List.nil_append,
            List.cons.injEq, true_and, Bool.not_true, Bool.false_or]
          exact hrest
        · -- only the copy opens a word, and a lowered capital is not its separator
          simp only [Bool.not_eq_true] at hbreak
          simp only [hup, hbreak, Bool.true_and, Bool.false_eq_true, if_true, if_false, List.nil_append,
            List.cons_append, List.cons.injEq, Bool.not_true, Bool.false_or, Bool.false_and, iff_false]
          rintro ⟨hhead, -⟩
          exact lowerAscii_ne_underscore hup hhead
      · simp only [Bool.not_eq_true] at hup
        simp only [hup, Bool.false_and, Bool.false_eq_true, if_false, List.nil_append, List.cons.injEq,
          true_and, Bool.not_false, Bool.true_or]
        exact hrest

/-- The copies' snake-casing is the emitter's exactly on marked words. -/
theorem snakeCase_eq_toSnake_iff (s : String) : snakeCase s = toSnake s ↔ wordsMarked none s.toList = true := by
  unfold snakeCase toSnake
  rw [← snakeCaseFrom_eq_iff]
  exact ⟨String.ofList_injective, congrArg _⟩

/-! ## One byte for each character -/

theorem breakCapitals_map {α : Type} (put : Char → α) (first : Bool) (cs : List Char) :
    breakCapitals (put '_') put first cs = (breakCapitals '_' id first cs).map put := by
  induction cs generalizing first with
  | nil => rfl
  | cons r rest ih =>
    simp only [breakCapitals, ih, List.map_append, List.map_cons, id]
    split <;> simp

theorem toNat_lowerAscii_lt_iff (r : Char) : (lowerAscii r).toNat < 128 ↔ r.toNat < 128 := by
  by_cases h : isUpperAscii r = true
  · obtain ⟨hlowered, hlow, hhigh⟩ := toNat_lowerAscii h
    omega
  · unfold lowerAscii
    rw [if_neg h]

/-- Snake-casing adds and removes no character beyond ASCII. -/
theorem breakCapitals_ascii_iff (first : Bool) (cs : List Char) :
    (∀ c ∈ breakCapitals '_' id first cs, c.toNat < 128) ↔ ∀ c ∈ cs, c.toNat < 128 := by
  induction cs generalizing first with
  | nil => simp [breakCapitals]
  | cons r rest ih =>
    have hsep : ∀ c ∈ (if isUpperAscii r && !first then ['_'] else []), c.toNat < 128 := by
      intro c hc
      split at hc
      · rw [List.mem_singleton.mp hc]
        decide
      · exact absurd hc List.not_mem_nil
    simp only [breakCapitals, List.forall_mem_append, List.forall_mem_cons, id, toNat_lowerAscii_lt_iff, ih]
    exact and_iff_right hsep

theorem utf8_append (s t : String) : utf8 (s ++ t) = utf8 s ++ utf8 t := by
  unfold utf8
  rw [String.toList_append, List.flatMap_append]

/-- Writing a byte for each character is the encoding exactly on ASCII: any other character has more bytes
    than one. -/
theorem map_byte_eq_iff (cs : List Char) :
    (cs.map fun r => UInt8.ofNat r.toNat) = cs.flatMap String.utf8EncodeChar ↔ ∀ c ∈ cs, c.toNat < 128 := by
  have hlen : ∀ cs : List Char, cs.length ≤ (cs.flatMap String.utf8EncodeChar).length := by
    intro cs
    induction cs with
    | nil => exact Nat.le_refl _
    | cons c cs ih =>
      have hpos := Char.utf8Size_pos c
      rw [List.flatMap_cons, List.length_append, String.length_utf8EncodeChar, List.length_cons]
      omega
  induction cs with
  | nil => simp
  | cons c rest ih =>
    rw [List.map_cons, List.flatMap_cons, List.forall_mem_cons]
    by_cases hc : c.toNat < 128
    · have hone : c.utf8Size = 1 := Char.utf8Size_eq_one_iff.mpr (show c.toNat ≤ 127 by omega)
      rw [String.utf8EncodeChar_eq_singleton hone, List.singleton_append, List.cons.injEq]
      exact and_congr (iff_of_true rfl hc) ih
    · refine iff_of_false (fun h => ?_) fun h => hc h.1
      have hl := congrArg List.length h
      rw [List.length_cons, List.length_map, List.length_append, String.length_utf8EncodeChar] at hl
      have hone : c.utf8Size = 1 := by
        have hpos := Char.utf8Size_pos c
        have hrest := hlen rest
        omega
      exact hc (Nat.lt_succ_of_le (Char.utf8Size_eq_one_iff.mp hone))

/-- The sweeper's snake-casing encodes the other copies' exactly on ASCII names. -/
theorem snakeCaseSweep_eq_iff (s : String) : snakeCaseSweep s = utf8 (toSnake s) ↔ ∀ c ∈ s.toList, c.toNat < 128 := by
  have hmap : snakeCaseSweep s = (toSnake s).toList.map fun r => UInt8.ofNat r.toNat := by
    unfold snakeCaseSweep toSnake
    rw [String.toList_ofList]
    exact breakCapitals_map (fun r => UInt8.ofNat r.toNat) true s.toList
  unfold utf8
  rw [hmap, map_byte_eq_iff]
  unfold toSnake
  rw [String.toList_ofList]
  exact breakCapitals_ascii_iff true s.toList

/-! ## All five -/

/-- **All components agree where the entity lives**: the pair of the emitter and of the runtime SQL is the
    pair of introspection, of the sweeper, of the sandbox, and (up to case) of raw-SQL validation. -/
structure Agrees (C : Casing) (e : Entity) : Prop where
  introspection : physical e = (entitySchema e, entityPhysicalTable e)
  sweeper : resolvePhysical e = (utf8 (entitySchema e), utf8 (entityPhysicalTable e))
  sandbox : schemaNameFor e = (entitySchema e, entityPhysicalTable e)
  rawSql : (tableKeys C e).1 = C.toLower (entitySchema e ++ "." ++ entityPhysicalTable e)

theorem Casing.toLower_append (C : Casing) (s t : String) : C.toLower (s ++ t) = C.toLower s ++ C.toLower t := by
  unfold Casing.toLower
  rw [String.toList_append, List.map_append, String.ofList_append]

theorem Casing.toLower_atlantis (C : Casing) : C.toLower "atlantis." = "atlantis." := by
  unfold Casing.toLower
  have hmap : "atlantis.".toList.map C.lower = "atlantis.".toList.map Char.toLower := by
    apply List.map_congr_left
    intro c hc
    apply C.ascii
    have hascii : ("atlantis.".toList.all fun c => decide (c.toNat < 128)) = true := by decide
    exact of_decide_eq_true (List.all_eq_true.mp hascii c hc)
  rw [hmap]
  decide

/-- A dotted value is its two halves. -/
theorem eq_of_cutDot {s l r : String} (h : cutDot s = some (l, r)) : s = l ++ "." ++ r := by
  unfold cutDot at h
  simp only at h
  split at h
  case isFalse => cases h
  case isTrue hdot =>
    cases h
    have hsplit : ∀ cs : List Char, '.' ∈ cs →
        cs.takeWhile (· ≠ '.') ++ '.' :: (cs.dropWhile (· ≠ '.')).drop 1 = cs := by
      intro cs hdot
      induction cs with
      | nil => cases hdot
      | cons c cs ih =>
        by_cases hc : c = '.'
        · simp [hc]
        · simpa [hc] using ih ((List.mem_cons.mp hdot).resolve_left fun h => hc h.symm)
    apply String.toList_inj.mp
    simp only [String.toList_append, String.toList_ofList]
    exact ((List.append_assoc ..).trans (hsplit _ (List.contains_iff_mem.mp hdot))).symm

theorem cutDot_eq_none_iff (s : String) : cutDot s = none ↔ '.' ∉ s.toList := by
  unfold cutDot
  simp only [ite_eq_right_iff, reduceCtorEq, imp_false, List.contains_iff_mem]

/-- An entity without an override is found by all exactly when its name is plain. -/
theorem agrees_of_no_override (C : Casing) {e : Entity} (hnone : e.tableName = "") :
    Agrees C e ↔ PlainName e.name := by
  have hschema : entitySchema e = "atlantis" := by simp [entitySchema, hnone]
  have htable : entityPhysicalTable e = e.namespace_ ++ "_" ++ snakeCase e.name := by
    simp [entityPhysicalTable, hnone, Schema.tableName]
  have hphys : physical e = ("atlantis", e.namespace_ ++ "_" ++ toSnake e.name) := by simp [physical, hnone]
  have hsweep : resolvePhysical e = (utf8 "atlantis", utf8 (e.namespace_ ++ "_") ++ snakeCaseSweep e.name) := by
    simp [resolvePhysical, hnone]
  constructor
  · intro h
    have hsnake : snakeCase e.name = toSnake e.name := by
      have hpair := h.introspection
      rw [hphys, hschema, htable] at hpair
      exact ((String.append_right_inj _).mp (Prod.mk.inj hpair).2).symm
    have hascii : ∀ c ∈ e.name.toList, c.toNat < 128 := by
      have hpair := h.sweeper
      rw [hsweep, hschema, htable, utf8_append (e.namespace_ ++ "_")] at hpair
      have hbytes := List.append_cancel_left (Prod.mk.inj hpair).2
      rw [hsnake] at hbytes
      exact (snakeCaseSweep_eq_iff e.name).mp hbytes
    exact ⟨hascii, (snakeCase_eq_toSnake_iff e.name).mp hsnake⟩
  · rintro ⟨hascii, hmarked⟩
    have hsnake : snakeCase e.name = toSnake e.name := (snakeCase_eq_toSnake_iff e.name).mpr hmarked
    have hbytes : snakeCaseSweep e.name = utf8 (toSnake e.name) := (snakeCaseSweep_eq_iff e.name).mpr hascii
    constructor
    case introspection => rw [hphys, hschema, htable, hsnake]
    case sweeper => rw [hsweep, hschema, htable, hsnake, utf8_append (e.namespace_ ++ "_"), hbytes]
    case sandbox =>
      rw [hschema, htable, hsnake]
      simp [schemaNameFor, hnone]
    case rawSql =>
      have hkey : (tableKeys C e).1 = "atlantis." ++ C.toLower (e.namespace_ ++ "_" ++ toSnake e.name) := by
        simp [tableKeys, hnone]
      rw [hkey, hschema, htable, hsnake, show "atlantis" ++ "." = "atlantis." by decide,
        C.toLower_append "atlantis.", C.toLower_atlantis]

/-- A bare override is `public` to the emitter and `atlantis` to introspection. -/
theorem not_agrees_of_bare (C : Casing) {e : Entity} (hne : e.tableName ≠ "") (hcut : cutDot e.tableName = none) :
    ¬ Agrees C e := by
  intro h
  have hpair := h.introspection
  have hschema : entitySchema e = "public" := by simp [entitySchema, hne, hcut]
  have hphys : (physical e).1 = "atlantis" := by simp [physical, hne, hcut]
  rw [hpair] at hphys
  exact absurd (hschema.symm.trans hphys) (by decide)

/-- **The components agree on an entity of an accepted schema exactly when it has a schema-qualified override,
    or no override and a plain name.** -/
theorem agrees_iff (C : Casing) {ir : IR} (h : Validated ir) {e : Entity} (he : e ∈ ir.entities) :
    Agrees C e ↔ if e.tableName = "" then PlainName e.name else '.' ∈ e.tableName.toList := by
  split
  · rename_i hnone
    exact agrees_of_no_override C hnone
  · rename_i hnone
    cases hcut : cutDot e.tableName with
    | none =>
      have hdot := (cutDot_eq_none_iff e.tableName).mp hcut
      exact iff_of_false (not_agrees_of_bare C hnone hcut) hdot
    | some p =>
      obtain ⟨s, t⟩ := p
      have hdot : '.' ∈ e.tableName.toList := by
        by_contra hno
        rw [(cutDot_eq_none_iff e.tableName).mpr hno] at hcut
        cases hcut
      refine iff_of_true ?_ hdot
      -- an override with a schema is read alike by all
      have hshape := h.tableNameShape he hnone
      unfold Schema.tableNameShape at hshape
      rw [hcut] at hshape
      have hs : s ≠ "" := by
        rintro rfl
        exact absurd hshape (by simp [isTableSegment])
      have hschema : entitySchema e = s := by simp [entitySchema, hnone, hcut]
      have htable : entityPhysicalTable e = t := by simp [entityPhysicalTable, hnone, hcut]
      constructor
      case introspection => simp [physical, hnone, hcut, hs, hschema, htable]
      case sweeper => simp [resolvePhysical, hnone, hcut, hschema, htable]
      case sandbox => simp [schemaNameFor, hnone, hcut, hschema, htable]
      case rawSql =>
        rw [hschema, htable, ← eq_of_cutDot hcut]
        simp [tableKeys, hnone, hcut]

/-- Lower-casing that leaves everything beyond ASCII alone. -/
def asciiCasing : Casing where
  lower := Char.toLower
  ascii _ _ := rfl

/-- Two accepted entities nobody but the emitter finds: an acronym, and a bare override. -/
theorem apiKey_and_bare_override_disagree :
    ∃ ir : IR, Validated ir ∧ ∃ acronym ∈ ir.entities, ∃ bare ∈ ir.entities,
      (acronym.name = "APIKey" ∧ entityPhysicalTable acronym = "auth_api_key" ∧
        physical acronym = ("atlantis", "auth_a_p_i_key") ∧ ¬ Agrees asciiCasing acronym) ∧
      (bare.tableName = "vendors" ∧ entitySchema bare = "public" ∧ physical bare = ("atlantis", "vendors") ∧
        ¬ Agrees asciiCasing bare) := by
  refine ⟨⟨[keyTable "auth" "APIKey" "", keyTable "auth" "Vendor" "vendors"]⟩, by decide +kernel, keyTable "auth" "APIKey" "",
    by simp, keyTable "auth" "Vendor" "vendors", by simp, ⟨rfl, by decide +kernel, by decide +kernel, ?_⟩,
    ⟨rfl, by decide +kernel, by decide +kernel, ?_⟩⟩
  · rw [agrees_of_no_override asciiCasing rfl]
    decide +kernel
  · exact not_agrees_of_bare asciiCasing (by decide) (by decide +kernel)

/-- A CamelCase name and a schema-qualified override are found by all. -/
theorem productVariant_and_qualified_override_agree :
    ∃ ir : IR, Validated ir ∧ (∀ e ∈ ir.entities, Agrees asciiCasing e) ∧
      ir.entities.map Entity.name = ["Orders", "ProductVariant"] := by
  have hvalid : Validated ⟨[keyTable "shop" "Orders" "sales.ORDERS", keyTable "shop" "ProductVariant" ""]⟩ := by
    decide +kernel
  refine ⟨_, hvalid, ?_, rfl⟩
  intro e he
  refine (agrees_iff asciiCasing hvalid he).mpr ?_
  revert e
  decide +kernel

end Atlantis.Schema
