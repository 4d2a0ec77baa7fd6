import Atlantis.Pg.Frame

/-!
# `Pg.Footprint` — a table that comes with its indexes and functions

Creating a table under free names, with the indexes and functions that belong to it, changes what stands under these
names and nothing else. A statement that keeps off the names (`Stmt.Spares`) leaves what stands there (`run_spared`);
and if it adds no foreign key to the table, it does not look there (`Stmt.Spares.looks`). Conversely, what the creation
needs of the rest of the catalog — that the names are free, that the columns its foreign keys point to are there —
survives such statements, foreign keys or not.
-/

namespace Atlantis.Pg

open Lib

/-- The names a new table takes, and the columns of other tables that its foreign keys point to. -/
structure Footprint where
  table : TableRef
  indexes : List (String × String)
  functions : List String
  needs : List (TableRef × String)
  deriving DecidableEq, Repr

/-- The statement adds a foreign key to the table. -/
def Stmt.pointsTo (t : TableRef) : Stmt → Bool
  | .createTable _ _ cons => cons.any fun nb => nb.2.pointsTo t
  | .addConstraint _ _ b => b.pointsTo t
  | _ => false

/-- The statement keeps off the names and drops nothing that is needed. -/
def Stmt.Spares (fp : Footprint) : Stmt → Prop
  | .createSchema _ => True
  | .dropTable t => t ≠ fp.table ∧ ∀ x ∈ fp.needs, x.1 ≠ t
  | .dropColumn t col => t ≠ fp.table ∧ (t, col) ∉ fp.needs
  | .createIndex t n _ => t ≠ fp.table ∧ (t.schema, n) ∉ fp.indexes
  | .dropIndex schema n => (schema, n) ∉ fp.indexes
  | .createFunction n _ | .dropFunction n => n ∉ fp.functions
  | .createTrigger t _ fn => t ≠ fp.table ∧ fn ∉ fp.functions
  | .createTable t _ _ | .addColumn t _ | .setNotNull t _ _ | .setType t _ _ | .setDefault t _ _
  | .addConstraint t _ _ | .dropConstraint t _ | .createHypertable t _ | .dropTrigger t _ => t ≠ fp.table

/-- The names are free. -/
structure Footprint.Free (fp : Footprint) (c : Catalog) : Prop where
  table : c.tables fp.table = none
  indexes : ∀ x ∈ fp.indexes, c.indexes x.1 x.2 = none

instance (fp : Footprint) (c : Catalog) : Decidable (fp.Free c) :=
  decidable_of_iff ((c.tables fp.table).isNone = true ∧ ∀ x ∈ fp.indexes, (c.indexes x.1 x.2).isNone = true)
    ⟨fun h => ⟨Option.isNone_iff_eq_none.mp h.1, fun x hx => Option.isNone_iff_eq_none.mp (h.2 x hx)⟩,
      fun h => ⟨Option.isNone_iff_eq_none.mpr h.table, fun x hx => Option.isNone_iff_eq_none.mpr (h.indexes x hx)⟩⟩

/-- The columns the foreign keys point to are there. -/
def Footprint.Supplied (fp : Footprint) (c : Catalog) : Prop := ∀ x ∈ fp.needs, c.HasColumn x.1 x.2

/-- What stands under the key has a name of the footprint. -/
def Footprint.Has (fp : Footprint) : Key → Prop
  | .inTable t _ => t = fp.table
  | .index schema n => (schema, n) ∈ fp.indexes
  | .function n => n ∈ fp.functions

/-- What stands under the names goes with no other table, unless it is needed, and with no column of another table. -/
def Footprint.Closed (fp : Footprint) (c : Catalog) : Prop :=
  ∀ k o t, fp.Has k → c.get k = some o → t ≠ fp.table →
    ((∀ x ∈ fp.needs, x.1 ≠ t) → o.lostWithTable t = false) ∧ ∀ mentions col, k.lostWithColumn mentions t col o = false

variable {mentions : String → String → Bool} {c c' : Catalog} {t : TableRef} {s : Stmt} {fp : Footprint}
  {k : Key} {ss : List Stmt}

/-! ## Statements off a footprint -/

theorem Footprint.Free.exec (hfree : fp.Free c) (hs : s.Spares fp) (h : exec mentions c s = .ok c') : fp.Free c' where
  table := by
    have hget : c.get (.inTable fp.table .self) = none := by
      show (c.tables fp.table).bind _ = none
      rw [hfree.table]
      rfl
    refine Catalog.tables_eq_none ?_
    rw [exec_free hget h]
    · rfl
    · intro hputs
      cases s with
      | createTable t' cols cons =>
        obtain ⟨p, hp⟩ := hputs
        exact hs (Key.inTable.inj hp).1.symm
      | addColumn t' d =>
        obtain ⟨p, hp, hsome⟩ := Stmt.mem_adds_addColumn.mp hputs
        obtain ⟨_, rfl⟩ := Key.inTable.inj hp
        cases hsome
      | _ => cases hputs
  indexes := by
    intro x hx
    have hget : c.get (.index x.1 x.2) = none := Option.map_eq_none_iff.mpr (hfree.indexes x hx)
    refine Option.map_eq_none_iff.mp (exec_free hget h ?_)
    intro hputs
    cases s with
    | createIndex t m b =>
      obtain ⟨hschema, rfl⟩ := Key.index.inj hputs
      exact hs.2 (hschema ▸ hx)
    | createTable t' cols cons =>
      obtain ⟨_, heq⟩ := hputs
      cases heq
    | addColumn t' d =>
      obtain ⟨p, hp, _⟩ := Stmt.mem_adds_addColumn.mp hputs
      cases hp
    | _ => cases hputs

theorem Footprint.Supplied.exec (hsup : fp.Supplied c) (hs : s.Spares fp) (h : exec mentions c s = .ok c') :
    fp.Supplied c' := by
  intro x hx
  refine exec_hasColumn (hsup x hx) h ?_ ?_
  · rintro rfl
    exact hs.2 x hx rfl
  · rintro rfl
    exact hs.2 hx

theorem Footprint.Free.run (hfree : fp.Free c) (hss : ∀ s ∈ ss, s.Spares fp) (h : run mentions ss c = .ok c') :
    fp.Free c' :=
  foldlM_invariant (I := fun _ c => fp.Free c) hfree
    (fun _ s _ _ _ hsplit hI hstep => hI.exec (hss s (by rw [hsplit]; simp)) hstep) h

theorem Footprint.Supplied.run (hsup : fp.Supplied c) (hss : ∀ s ∈ ss, s.Spares fp)
    (h : run mentions ss c = .ok c') : fp.Supplied c' :=
  foldlM_invariant (I := fun _ c => fp.Supplied c) hsup
    (fun _ s _ _ _ hsplit hI hstep => hI.exec (hss s (by rw [hsplit]; simp)) hstep) h

/-! ## What stands under the names -/

theorem Footprint.Free.closed (h : fp.Free c) : fp.Closed c := by
  intro k o t hk ho _
  cases k with
  | inTable t' p =>
    obtain ⟨tbl, htbl, _⟩ := Option.bind_eq_some_iff.mp ho
    rw [show t' = fp.table from hk, h.table] at htbl
    cases htbl
  | index schema n =>
    obtain ⟨x, hx, _⟩ := Option.map_eq_some_iff.mp ho
    cases (h.indexes _ hk).symm.trans hx
  | function n =>
    obtain ⟨x, _, rfl⟩ := Option.map_eq_some_iff.mp ho
    exact ⟨fun _ => rfl, fun _ _ => rfl⟩

theorem Stmt.Spares.get_eq (hs : s.Spares fp) (hclosed : fp.Closed c) (h : exec mentions c s = .ok c') (hk : fp.Has k) :
    c'.get k = c.get k := by
  rcases exec_cases h with ⟨rfl, _⟩ | ⟨_, _, hget⟩
  · rfl
  rw [hget]
  have htable : ∀ {t}, t ≠ fp.table → k.table ≠ some t := by
    rintro t ht heq
    obtain ⟨p, rfl⟩ := Key.exists_part heq
    exact ht hk
  cases s with
  | createSchema _ => rfl
  | createTable t _ _ | addColumn t _ | setNotNull t _ _ | setType t _ _ | setDefault t _ _ | addConstraint t _ _
  | dropConstraint t _ | createHypertable t _ | dropTrigger t _ => exact Stmt.effect_outside rfl (htable hs)
  | createTrigger t _ _ => exact Stmt.effect_outside rfl (htable hs.1)
  | dropTable t =>
    rw [Stmt.effect, if_neg (htable hs.1)]
    exact filter_keep fun o ho => (hclosed k o t hk ho hs.1).1 hs.2
  | dropColumn t col =>
    have hcol : k ∉ columnKeys t col := by
      intro hin
      simp only [columnKeys, List.mem_cons, List.not_mem_nil, or_false] at hin
      rcases hin with rfl | rfl | rfl <;> exact htable hs.1 rfl
    rw [Stmt.effect, if_neg hcol]
    exact filter_keep fun o ho => (hclosed k o t hk ho hs.1).2 mentions col
  | createIndex t n b =>
    refine if_neg ?_
    rintro rfl
    exact hs.2 hk
  | dropIndex _ _ | createFunction _ _ | dropFunction _ =>
    refine if_neg ?_
    rintro rfl
    exact hs hk

/-- **Statements off a footprint leave what stands there.** -/
theorem run_spared (hclosed : fp.Closed c) (hss : ∀ s ∈ ss, s.Spares fp) (h : run mentions ss c = .ok c') :
    ∀ k, fp.Has k → c'.get k = c.get k := by
  refine foldlM_invariant (I := fun _ x => ∀ k, fp.Has k → x.get k = c.get k) (fun _ _ => rfl) ?_ h
  intro _ s _ x y hsplit hI hstep k hk
  have hx : fp.Closed x := fun k o t hk ho => hclosed k o t hk ((hI k hk).symm.trans ho)
  exact ((hss s (by rw [hsplit]; simp)).get_eq hx hstep hk).trans (hI k hk)

theorem Constraint.table_of_looks {b : Constraint} (hk : k ∈ b.looks t) :
    ∃ t' q, k = .inTable t' q ∧ (t' = t ∨ b.pointsTo t' = true) := by
  cases b with
  | primaryKey cols | unique cols =>
    obtain ⟨col, _, rfl⟩ := List.mem_map.mp hk
    exact ⟨t, _, rfl, .inl rfl⟩
  | foreignKey col target targetCol onDelete onUpdate =>
    simp only [Constraint.looks, List.mem_cons, List.not_mem_nil, or_false] at hk
    rcases hk with rfl | rfl
    · exact ⟨t, _, rfl, .inl rfl⟩
    · exact ⟨target, _, rfl, .inr (by simp [Constraint.pointsTo])⟩
  | check expr => cases hk

/-- **A statement off a footprint looks at nothing that stands there**, unless it points to the table. -/
theorem Stmt.Spares.looks (hs : s.Spares fp) (hpoints : s.pointsTo fp.table = false) {x : Key × Bool} (hx : x ∈ s.looks) :
    ¬ fp.Has x.1 := by
  have hcons : ∀ {t k b}, t ≠ fp.table → Constraint.pointsTo fp.table b = false → k ∈ b.looks t → ¬ fp.Has k := by
    intro t k b ht hb hk hhas
    obtain ⟨t', q, rfl, heq⟩ := Constraint.table_of_looks hk
    obtain rfl : t' = fp.table := hhas
    rcases heq with rfl | heq
    · exact ht rfl
    · rw [hb] at heq
      cases heq
  cases s with
  | createTable t cols cons =>
    rcases List.mem_cons.mp hx with rfl | hx
    · exact hs
    · obtain ⟨nb, hnb, hx⟩ := List.mem_flatMap.mp hx
      obtain ⟨k, hk, rfl⟩ := List.mem_map.mp hx
      exact hcons hs (by simpa using List.any_eq_false.mp hpoints nb hnb) hk
  | addConstraint t n b =>
    rcases List.mem_cons.mp hx with rfl | hx
    · exact hs
    · rcases List.mem_cons.mp hx with rfl | hx
      · exact hs
      · obtain ⟨k, hk, rfl⟩ := List.mem_map.mp hx
        exact hcons hs hpoints hk
  | addColumn t d =>
    rcases List.mem_cons.mp hx with rfl | hx
    · exact hs
    · obtain ⟨k, hk, rfl⟩ := List.mem_map.mp hx
      obtain ⟨q, rfl, _⟩ := Stmt.mem_adds_addColumn.mp hk
      exact hs
  | createTrigger t n fn =>
    simp only [Stmt.looks, List.mem_cons, List.not_mem_nil, or_false] at hx
    rcases hx with rfl | rfl | rfl
    · exact hs.1
    · exact hs.2
    · exact hs.1
  | createIndex t n b =>
    rcases List.mem_cons.mp hx with rfl | hx
    · exact hs.1
    · obtain ⟨col, _, rfl⟩ := List.mem_map.mp hx
      exact hs.1
  | dropTable t | dropColumn t col =>
    rw [List.mem_singleton.mp hx]
    exact hs.1
  | setNotNull t _ _ | setType t _ _ | setDefault t _ _ | dropConstraint t _ | createHypertable t _ | dropTrigger t _ =>
    rw [List.mem_singleton.mp hx]
    exact hs
  | createSchema _ | dropIndex _ _ | createFunction _ _ | dropFunction _ => cases hx

end Atlantis.Pg
