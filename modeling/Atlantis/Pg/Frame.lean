import Atlantis.Pg.Effect

/-!
# `Pg.Frame` — what a statement leaves as it was

The keys a statement can change are listed (`Stmt.Affects`), and under every other key the catalog is as before
(`exec_frame`).

So whoever follows one kind of object through a script has few statements to look at. What is there stays, but for the
statements that rewrite it (`exec_present`); a column stays until it or its table is dropped; a table or the name of an
index stays free until something is created there.
-/

namespace Atlantis.Pg

open Lib

variable {mentions : String → String → Bool} {c c' : Catalog} {t : TableRef} {k : Key} {s : Stmt} {o : Obj} {col schema n : String}
  {ss : List Stmt}

/-- The keys a statement can change. A drop has consequences elsewhere, so nothing is said about it. -/
def Stmt.Affects : Stmt → Key → Prop
  | .createSchema _, _ => False
  | .createTable t _ _, k => ∃ p, k = .inTable t p
  | .addColumn t d, k => k ∈ (Stmt.addColumn t d).adds
  | .setNotNull t col _, k => k = .inTable t (.notNull col)
  | .setType t col _, k => k = .inTable t (.column col)
  | .setDefault t col _, k => k = .inTable t (.default col)
  | .addConstraint t n b, k => k = .inTable t (.constraint n) ∨ ∃ col ∈ b.keyCols, k = .inTable t (.notNull col)
  | .dropConstraint t n, k => k = .inTable t (.constraint n)
  | .createIndex t n _, k => k = .index t.schema n
  | .dropIndex schema n, k => k = .index schema n
  | .createHypertable t _, k => k = .inTable t .self
  | .createFunction n _, k | .dropFunction n, k => k = .function n
  | .createTrigger t n _, k | .dropTrigger t n, k => k = .inTable t (.trigger n)
  | .dropTable _, _ | .dropColumn _ _, _ => True

/-- A statement does nothing, or what its effect says. -/
theorem exec_cases (h : exec mentions c s = .ok c') :
    (c' = c ∧ ¬ s.Acts c) ∨ s.Acts c ∧ s.Ready c ∧ ∀ k, c'.get k = s.effect mentions k (c.get k) := by
  by_cases ha : s.Acts c
  · exact .inr ⟨ha, exec_spec h ha⟩
  · rw [exec_idle ha] at h
    exact .inl ⟨(Except.ok.inj h).symm, ha⟩

/-- **A statement changes only the keys it affects.** -/
theorem exec_frame (h : exec mentions c s = .ok c') (hk : ¬ s.Affects k) : c'.get k = c.get k := by
  rcases exec_cases h with ⟨rfl, _⟩ | ⟨_, _, hget⟩
  · rfl
  · rw [hget]
    cases s with
    | createSchema _ => rfl
    | createTable t cols cons => exact Stmt.effect_outside rfl fun ht => hk (Key.exists_part ht)
    | dropTable _ | dropColumn _ _ => exact absurd trivial hk
    | addColumn t d => exact Stmt.effect_addColumn hk
    | addConstraint t n b =>
      have hkey : k ∉ b.keyCols.map fun col => .inTable t (.notNull col) := by
        intro hin
        obtain ⟨col, hcol, heq⟩ := List.mem_map.mp hin
        exact hk (.inr ⟨col, hcol, heq.symm⟩)
      rw [Stmt.effect, if_neg fun heq => hk (.inl heq), if_neg hkey]
    | _ => exact if_neg hk

theorem run_frame (h : run mentions ss c = .ok c') (hk : ∀ s ∈ ss, ¬ s.Affects k) : c'.get k = c.get k :=
  foldlM_invariant (I := fun _ x => x.get k = c.get k) rfl
    (fun _ s _ _ _ hsplit hI hstep => (exec_frame hstep (hk s (by rw [hsplit]; simp))).trans hI) h

/-- A statement of a script that ran has run. -/
theorem exists_step (h : run mentions ss c = .ok c') (hs : s ∈ ss) :
    ∃ pre post x y, ss = pre ++ s :: post ∧ run mentions pre c = .ok x ∧ exec mentions x s = .ok y ∧
      run mentions post y = .ok c' := by
  obtain ⟨pre, post, hsplit⟩ := List.append_of_mem hs
  rw [hsplit, run_append] at h
  obtain ⟨x, hpre, h⟩ := bind_ok h
  obtain ⟨y, hexec, hpost⟩ := bind_ok h
  exact ⟨pre, post, x, y, hsplit, hpre, hexec, hpost⟩

/-- An index is created where its name is free. -/
theorem get_createIndex {b : IndexBody} (h : exec mentions c (.createIndex t n b) = .ok c') :
    c'.get (.index t.schema n) = (c.get (.index t.schema n)).or (some (.index t b)) := by
  rw [(exec_spec h trivial).2]
  exact if_pos rfl

/-! ## What stays -/

/-- The keys under which a statement can change what is there. -/
def Stmt.Rewrites : Stmt → Key → Prop
  | .createTable _ _ _, _ | .addColumn _ _, _ | .createIndex _ _ _, _ => False
  | .addConstraint t _ b, k => ∃ col ∈ b.keyCols, k = .inTable t (.notNull col)
  | s, k => s.Affects k

/-- **What is there stays**, unless a statement rewrites it. -/
theorem exec_present (ho : c.get k = some o) (h : exec mentions c s = .ok c') (hs : ¬ s.Rewrites k) :
    c'.get k = some o := by
  rcases exec_cases h with ⟨rfl, _⟩ | ⟨ha, hready, hget⟩
  · exact ho
  · by_cases haff : s.Affects k
    · cases s with
      | createTable t cols cons =>
        obtain ⟨p, rfl⟩ := haff
        obtain ⟨tbl, htbl, _⟩ := Option.bind_eq_some_iff.mp ho
        rw [Catalog.tables_eq_none ha] at htbl
        cases htbl
      | addColumn t d =>
        have hfree := hready (k, false) (List.mem_cons_of_mem _ (List.mem_map_of_mem haff))
        rw [ho] at hfree
        cases hfree
      | addConstraint t n b =>
        obtain rfl := haff.resolve_right hs
        have hfree := hready _ (List.mem_cons_of_mem _ List.mem_cons_self)
        rw [ho] at hfree
        cases hfree
      | createIndex t n b =>
        obtain rfl : k = .index t.schema n := haff
        rw [get_createIndex h, ho]
        rfl
      | _ => exact absurd haff hs
    · rw [exec_frame h haff]
      exact ho

/-- **A column stays** until it or its table is dropped; it may get another type. -/
theorem exec_column {type : String} {identity : Bool}
    (ho : c.get (.inTable t (.column col)) = some (.column type identity)) (h : exec mentions c s = .ok c')
    (htable : s ≠ .dropTable t) (hcolumn : s ≠ .dropColumn t col) :
    ∃ type', c'.get (.inTable t (.column col)) = some (.column type' identity) := by
  by_cases hs : s.Rewrites (.inTable t (.column col))
  · rcases exec_cases h with ⟨rfl, _⟩ | ⟨_, _, hget⟩
    · exact ⟨type, ho⟩
    · rw [hget, ho]
      cases s with
      | setType t' col' type' => exact ⟨type', if_pos hs⟩
      | dropTable t' =>
        have ht : t ≠ t' := fun heq => htable (by rw [heq])
        exact ⟨type, by simp [Stmt.effect, Key.table, Obj.lostWithTable, Option.filter_some, ht]⟩
      | dropColumn t' col' =>
        have hne : ¬ (t = t' ∧ col = col') := fun heq => hcolumn (by rw [heq.1, heq.2])
        exact ⟨type, by simp [Stmt.effect, columnKeys, Key.lostWithColumn, Option.filter_some, hne]⟩
      | addConstraint t' n b =>
        obtain ⟨_, _, heq⟩ := hs
        cases heq
      | createTable _ _ _ | addColumn _ _ | createIndex _ _ _ | createSchema _ => exact hs.elim
      | _ => cases hs
  · exact ⟨type, exec_present ho h hs⟩

theorem exec_hasColumn (hcol : c.HasColumn t col) (h : exec mentions c s = .ok c') (htable : s ≠ .dropTable t)
    (hcolumn : s ≠ .dropColumn t col) : c'.HasColumn t col := by
  obtain ⟨tbl, htbl, hsome⟩ := hcol
  obtain ⟨y, hy⟩ := Option.isSome_iff_exists.mp hsome
  have ho : c.get (.inTable t (.column col)) = some (.column y.type y.identity) := by
    rw [Catalog.get_of_table htbl]
    simp [Table.get, hy]
  obtain ⟨type', htype⟩ := exec_column ho h htable hcolumn
  rw [hasColumn_iff, htype]
  rfl

/-- A table stays until it is dropped. -/
theorem exec_tables_isSome (htbl : (c.tables t).isSome) (h : exec mentions c s = .ok c') (hs : s ≠ .dropTable t) :
    (c'.tables t).isSome := by
  obtain ⟨tbl, htbl⟩ := Option.isSome_iff_exists.mp htbl
  have ho : c.get (.inTable t .self) = some (.table tbl.hypertable) := Catalog.get_of_table htbl .self
  rw [Catalog.isSome_tables]
  by_cases hrw : s.Rewrites (.inTable t .self)
  · rcases exec_cases h with ⟨rfl, _⟩ | ⟨_, _, hget⟩
    · rw [ho]
      rfl
    · rw [hget, ho]
      cases s with
      | createHypertable t' col => simp [Stmt.effect, show Key.inTable t .self = .inTable t' .self from hrw]
      | dropTable t' =>
        have ht : t ≠ t' := fun heq => hs (by rw [heq])
        simp [Stmt.effect, Key.table, Obj.lostWithTable, Option.filter_some, ht]
      | dropColumn t' col => simp [Stmt.effect, columnKeys, Key.lostWithColumn, Option.filter_some]
      | addConstraint t' n b =>
        obtain ⟨_, _, heq⟩ := hrw
        cases heq
      | createTable _ _ _ | addColumn _ _ | createIndex _ _ _ | createSchema _ => exact hrw.elim
      | _ => cases hrw
  · rw [exec_present ho h hrw]
    rfl

/-! ## What stays free -/

/-- The keys under which a statement can put something. -/
def Stmt.Puts : Stmt → Key → Prop
  | .createTable t _ _, k => ∃ p, k = .inTable t p
  | .addColumn t d, k => k ∈ (Stmt.addColumn t d).adds
  | .addConstraint t n _, k => k = .inTable t (.constraint n)
  | .createIndex t n _, k => k = .index t.schema n
  | .createFunction n _, k => k = .function n
  | .createTrigger t n _, k => k = .inTable t (.trigger n)
  | _, _ => False

/-- **What is free stays free**, unless a statement puts something there. -/
theorem exec_free (hnone : c.get k = none) (h : exec mentions c s = .ok c') (hs : ¬ s.Puts k) : c'.get k = none := by
  rcases exec_cases h with ⟨rfl, _⟩ | ⟨_, _, hget⟩
  · exact hnone
  · rw [hget, hnone]
    cases s with
    | createSchema _ => rfl
    | createTable t cols cons => exact Stmt.effect_outside rfl fun ht => hs (Key.exists_part ht)
    | addColumn t d => exact Stmt.effect_addColumn hs
    | createIndex t n _ | createFunction n _ | createTrigger t n _ => exact if_neg hs
    | addConstraint t n b =>
      exact (if_neg hs).trans (ite_self none)
    | _ => exact ite_self none

end Atlantis.Pg
