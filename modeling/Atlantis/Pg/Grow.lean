import Atlantis.Pg.Frame

/-!
# `Pg.Grow` — scripts that only add

Statements that only add things are the simplest to follow: they need the keys they add to be free, and take them. A
script of such statements can run only if no key is added twice (`run_grows`), and a script of `ADD COLUMN`s runs if and
only if that is so and the tables are there (`run_addColumns_ok`).
-/

namespace Atlantis.Pg

open Lib

/-- The statement is one of the two. -/
def Stmt.grows : Stmt → Bool
  | .addColumn _ _ => true
  | .addConstraint _ _ _ => true
  | _ => false

theorem Stmt.nodup_adds (s : Stmt) : s.adds.Nodup := by
  cases s with
  | addColumn t d =>
    have hinline : ((inlineConstraints t d).map fun nb => Key.inTable t (.constraint nb.1)).Nodup := by
      have hnames := nodup_inlineConstraints t d
      rw [List.Nodup, List.pairwise_map] at hnames ⊢
      exact hnames.imp fun hne heq => hne (by simpa using heq)
    simp [Stmt.adds, hinline]
  | addConstraint t n b => simp [Stmt.adds]
  | _ => exact List.nodup_nil

variable {mentions : String → String → Bool} {c c' : Catalog} {t : TableRef} {b : Constraint} {d d' : ColumnDecl}

/-- The constraint is a foreign key. -/
def Constraint.isForeignKey : Constraint → Bool
  | .foreignKey _ _ _ _ _ => true
  | _ => false

/-- The constraint is a foreign key of the column. -/
def Constraint.references (col : String) : Constraint → Bool
  | .foreignKey c _ _ _ _ => c == col
  | _ => false

theorem not_isForeignKey_inline {nb : String × Constraint} (h : nb ∈ inlineConstraints t d) :
    nb.2.isForeignKey = false := by
  unfold inlineConstraints at h
  rcases List.mem_append.mp h with h | h <;> split at h <;> simp_all [Constraint.isForeignKey]

/-- **One adding statement**: what it adds was not there, and nothing else appears or goes. -/
theorem exec_grows {s : Stmt} (hs : s.grows = true) (h : exec mentions c s = .ok c') :
    (∀ k ∈ s.adds, c.get k = none) ∧ ∀ k, (c'.get k).isSome ↔ (c.get k).isSome ∨ k ∈ s.adds := by
  cases s with
  | addColumn t d =>
    obtain ⟨hready, hget⟩ := exec_spec h trivial
    refine ⟨fun k hk => by simpa using hready (k, false) (List.mem_cons_of_mem _ (List.mem_map_of_mem hk)), fun k => ?_⟩
    rw [hget]
    by_cases hk : k ∈ (Stmt.addColumn t d).adds
    · obtain ⟨p, rfl, hsome⟩ := Stmt.mem_adds_addColumn.mp hk
      simp [Stmt.effect, hk, hsome]
    · rw [Stmt.effect_addColumn hk, or_iff_left hk]
  | addConstraint t n b =>
    obtain ⟨hready, hget⟩ := exec_spec h trivial
    have hfree := hready (.inTable t (.constraint n), false) (List.mem_cons_of_mem _ List.mem_cons_self)
    refine ⟨List.forall_mem_singleton.mpr (by simpa using hfree), fun k => ?_⟩
    rw [hget, Stmt.effect]
    by_cases hk : k = .inTable t (.constraint n)
    · simp [hk, Stmt.adds]
    · have hout : k ∉ (Stmt.addConstraint t n b).adds := fun hin => hk (List.mem_singleton.mp hin)
      rw [if_neg hk, or_iff_left hout]
      split
      · rw [Option.isSome_map]
      · rfl
  | _ => cases hs

/-- **A script of adding statements adds nothing twice.** -/
theorem run_grows {ss : List Stmt} (hs : ∀ s ∈ ss, s.grows = true) (h : run mentions ss c = .ok c') :
    (ss.flatMap Stmt.adds).Nodup ∧ (∀ k ∈ ss.flatMap Stmt.adds, c.get k = none) ∧
      ∀ k, (c'.get k).isSome ↔ (c.get k).isSome ∨ k ∈ ss.flatMap Stmt.adds := by
  refine foldlM_invariant (I := fun pre c' => (pre.flatMap Stmt.adds).Nodup ∧
    (∀ k ∈ pre.flatMap Stmt.adds, c.get k = none) ∧
    ∀ k, (c'.get k).isSome ↔ (c.get k).isSome ∨ k ∈ pre.flatMap Stmt.adds) ?_ ?_ h
  · simp
  · intro pre s rest c₁ c₂ hss ⟨hnodup, hfree, hthere⟩ hstep
    have hmem : s ∈ ss := by rw [hss]; simp
    obtain ⟨hnew, hgrown⟩ := exec_grows (hs s hmem) hstep
    -- what the statement adds was there neither before the script nor through an earlier statement
    have habsent : ∀ k ∈ s.adds, c.get k = none ∧ k ∉ pre.flatMap Stmt.adds := by
      intro k hk
      have hnone : ¬ (c₁.get k).isSome := by rw [hnew k hk]; simp
      rw [hthere, not_or] at hnone
      exact ⟨by simpa using hnone.1, hnone.2⟩
    rw [List.flatMap_append, List.flatMap_singleton]
    refine ⟨?_, ?_, ?_⟩
    · rw [List.nodup_append]
      refine ⟨hnodup, s.nodup_adds, fun a ha b hb heq => (habsent b hb).2 (heq ▸ ha)⟩
    · intro k hk
      rcases List.mem_append.mp hk with hk | hk
      · exact hfree k hk
      · exact (habsent k hk).1
    · intro k
      rw [hgrown, hthere, List.mem_append, or_assoc]

/-- Different columns share no key. -/
theorem disjoint_adds_addColumn {t' : TableRef} (h : t ≠ t' ∨ d.name ≠ d'.name) :
    List.Disjoint (Stmt.addColumn t d).adds (Stmt.addColumn t' d').adds := by
  intro k hk hk'
  obtain ⟨p, rfl, hp⟩ := Stmt.mem_adds_addColumn.mp hk
  obtain ⟨p', heq, hp'⟩ := Stmt.mem_adds_addColumn.mp hk'
  obtain ⟨rfl, rfl⟩ := Key.inTable.inj heq
  have hname : d.name ≠ d'.name := h.resolve_left fun hne => hne rfl
  cases p with
  | self | trigger n => cases hp
  | column n | notNull n | default n =>
    simp only [ColumnDecl.get, Option.isSome_ite] at hp hp'
    exact hname (hp.symm.trans hp')
  | constraint n =>
    obtain ⟨o, ho⟩ := Option.isSome_iff_exists.mp hp
    obtain ⟨o', ho'⟩ := Option.isSome_iff_exists.mp hp'
    obtain ⟨b, _, rfl⟩ := Option.map_eq_some_iff.mp ho
    obtain ⟨b', _, rfl⟩ := Option.map_eq_some_iff.mp ho'
    have hmem := ColumnDecl.get_constraint.mp ho
    have hmem' := ColumnDecl.get_constraint.mp ho'
    -- constraints written on different columns have different names
    unfold inlineConstraints at hmem hmem'
    rcases List.mem_append.mp hmem with hmem | hmem <;> rcases List.mem_append.mp hmem' with hmem' | hmem' <;>
      split at hmem <;> split at hmem' <;> simp only [List.mem_singleton, List.not_mem_nil, Prod.mk.injEq] at hmem hmem' <;>
      have heq := hmem.1.symm.trans hmem'.1
    · exact hname (by simpa [inlineUniqueName] using heq)
    · exact inlineUniqueName_ne_inlineCheckName t t _ _ heq
    · exact inlineUniqueName_ne_inlineCheckName t t _ _ heq.symm
    · exact hname (by simpa [inlineCheckName] using heq)

/-- The statements that add the given columns. -/
def addColumns (ds : List (TableRef × ColumnDecl)) : List Stmt := ds.map fun td => .addColumn td.1 td.2

theorem exists_addColumns {ss : List Stmt} (h : ∀ s ∈ ss, ∃ t d, s = .addColumn t d) : ∃ ds, ss = addColumns ds := by
  induction ss with
  | nil => exact ⟨[], rfl⟩
  | cons s ss ih =>
    obtain ⟨t, d, rfl⟩ := h s List.mem_cons_self
    obtain ⟨ds, rfl⟩ := ih fun s hs => h s (List.mem_cons_of_mem _ hs)
    exact ⟨(t, d) :: ds, rfl⟩

/-- **A script of `ADD COLUMN`s runs where the tables are there and no key is taken or added twice**; it
    leaves everything else as it was and adds no foreign key. -/
theorem run_addColumns_ok (mentions : String → String → Bool) {ds : List (TableRef × ColumnDecl)}
    (htables : ∀ td ∈ ds, (c.tables td.1).isSome)
    (hnodup : ((addColumns ds).flatMap Stmt.adds).Nodup)
    (hfree : ∀ k ∈ (addColumns ds).flatMap Stmt.adds, c.get k = none) :
    ∃ c', run mentions (addColumns ds) c = .ok c' ∧
      (∀ k, k ∉ (addColumns ds).flatMap Stmt.adds → c'.get k = c.get k) ∧
      ∀ t n b, c'.get (.inTable t (.constraint n)) = some (.constraint b) → b.isForeignKey = true →
        c.get (.inTable t (.constraint n)) = some (.constraint b) := by
  refine foldlM_total (I := fun (pre : List Stmt) (c' : Catalog) =>
    (∀ k, k ∉ pre.flatMap Stmt.adds → c'.get k = c.get k) ∧
    ∀ t n b, c'.get (.inTable t (.constraint n)) = some (.constraint b) → b.isForeignKey = true →
      c.get (.inTable t (.constraint n)) = some (.constraint b)) ⟨fun _ _ => rfl, fun _ _ _ h _ => h⟩ ?_
  intro pre s rest c₁ hss ⟨hI, hfks⟩
  have hmem : s ∈ addColumns ds := by rw [hss]; simp
  obtain ⟨⟨t, d⟩, htd, rfl⟩ := List.mem_map.mp hmem
  -- the keys of this statement are free before the script and not among those added so far
  have hnew : ∀ k ∈ (Stmt.addColumn t d).adds, c₁.get k = none := by
    intro k hk
    have hall : k ∈ (addColumns ds).flatMap Stmt.adds := List.mem_flatMap.mpr ⟨_, hmem, hk⟩
    have hout : k ∉ pre.flatMap Stmt.adds := by
      rw [hss, List.flatMap_append, List.flatMap_cons, List.nodup_append] at hnodup
      intro hpre
      exact hnodup.2.2 k hpre k (List.mem_append_left _ hk) rfl
    rw [hI k hout, hfree k hall]
  have hself : Key.inTable t .self ∉ pre.flatMap Stmt.adds := by
    intro hin
    obtain ⟨s', hs', hin⟩ := List.mem_flatMap.mp hin
    have hs'' : s' ∈ addColumns ds := by rw [hss]; exact List.mem_append_left _ hs'
    obtain ⟨td', _, rfl⟩ := List.mem_map.mp hs''
    obtain ⟨p, heq, hsome⟩ := Stmt.mem_adds_addColumn.mp hin
    obtain ⟨_, rfl⟩ := Key.inTable.inj heq
    cases hsome
  have hready : (Stmt.addColumn t d).Ready c₁ := by
    refine List.forall_mem_cons.mpr ⟨?_, List.forall_mem_map.mpr fun k hk => by rw [hnew k hk]; rfl⟩
    rw [hI _ hself]
    exact Catalog.isSome_tables.mp (htables (t, d) htd)
  obtain ⟨c₂, h₂⟩ := (@exec_ready mentions c₁ (.addColumn t d) trivial).mpr hready
  refine ⟨c₂, h₂, ?_, ?_⟩
  · intro k hk
    rw [List.flatMap_append, List.flatMap_singleton, List.mem_append, not_or] at hk
    rw [← hI k hk.1]
    exact exec_frame h₂ hk.2
  · intro t' n b hget hfk
    apply hfks t' n b ?_ hfk
    rw [(exec_spec h₂ trivial).2, Stmt.effect] at hget
    split at hget
    · rcases Option.or_eq_some_iff.mp hget with hinline | ⟨_, hold⟩
      · rw [not_isForeignKey_inline (ColumnDecl.get_constraint.mp hinline)] at hfk
        cases hfk
      · exact hold
    · exact hget

end Atlantis.Pg
