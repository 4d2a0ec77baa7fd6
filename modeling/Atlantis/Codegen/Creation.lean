import Atlantis.Codegen.Initial
import Atlantis.Pg.Footprint

/-!
# `Codegen.Creation` — where an entity is created

The statements that create an entity change what stands under its names and nothing else (`has_of_affects`), and beside
that they look only at the columns its references point to. So on two catalogs that agree under the names, and have these
columns, the creation leaves the same under the names (`run_emitEntityCreate_agree`).
-/

namespace Atlantis.Codegen

open Schema Pg Lib

/-- The names an entity takes, and the columns of other tables its references point to. -/
def footprint (e : Entity) : Footprint where
  table := qualifiedTable e
  indexes := e.indexes.map fun idx => (entitySchema e, indexName e idx)
  functions := if e.touchOnUpdateField = "" then [] else [triggerName e "touch_fn"]
  needs := ((e.fields.filterMap (·.ref)).map fun r => (fkTargetRef r, r.targetField)).filter (·.1 ≠ qualifiedTable e)

theorem mem_needs {e : Entity} {x : TableRef × String} : x ∈ (footprint e).needs ↔
    ∃ f ∈ e.fields, ∃ r, f.ref = some r ∧ (fkTargetRef r, r.targetField) = x ∧ x.1 ≠ qualifiedTable e := by
  unfold footprint
  simp only [List.mem_filter, List.mem_map, List.mem_filterMap, decide_eq_true_eq]
  constructor
  · rintro ⟨⟨r, ⟨f, hf, hr⟩, rfl⟩, hne⟩
    exact ⟨f, hf, r, hr, rfl, hne⟩
  · rintro ⟨f, hf, r, hr, rfl, hne⟩
    exact ⟨⟨r, ⟨f, hf, hr⟩, rfl⟩, hne⟩

theorem function_mem {e : Entity} (h : e.touchOnUpdateField ≠ "") : triggerName e "touch_fn" ∈ (footprint e).functions := by
  simp [footprint, h]

/-- The foreign keys of a table are the references of its entity. -/
theorem foreignKey_of_mem {e : Entity} {n col targetCol : String} {target : TableRef} {onDelete onUpdate : FkAction}
    (h : (n, Constraint.foreignKey col target targetCol onDelete onUpdate) ∈ entityConstraints e) :
    ∃ f ∈ e.fields, ∃ r, f.ref = some r ∧ fkTargetRef r = target ∧ r.targetField = targetCol := by
  cases entityConstraint_of_mem h with
  | reference f hf r hr => exact ⟨f, hf, r, hr, rfl, rfl⟩

theorem tableConstraints_subset {e : Entity} {nb : String × Constraint} (h : nb ∈ tableConstraints e) :
    nb ∈ entityConstraints e := List.mem_append_right _ h

/-! ## What the creation needs -/

variable {mentions : String → String → Bool} {c c₁ c' : Catalog} {e : Entity} {t : TableRef} {tbl : Table} {k : Key}
  {s : Stmt}

theorem hasColumn_of_check {target : TableRef} {targetCol col : String} {onDelete onUpdate : FkAction}
    (hne : target ≠ t) (h : c.checkConstraint t tbl (.foreignKey col target targetCol onDelete onUpdate) = .ok ()) :
    c.HasColumn target targetCol := by
  have hthere := checkConstraint_iff.mp h (.inTable target (.column targetCol)) (by simp [Constraint.looks])
  rw [Catalog.get_setTable_of_ne (by simp [hne])] at hthere
  exact hasColumn_iff.mpr hthere

theorem supplied_of_create (hfree : (footprint e).Free c) (h : run mentions (emitEntityCreate e) c = .ok c') :
    (footprint e).Supplied c := by
  unfold emitEntityCreate at h
  rw [List.cons_append, List.cons_append, run_cons] at h
  obtain ⟨c₂, hcreate, _⟩ := bind_ok h
  obtain ⟨tbl, hbuild, _⟩ := exec_createTable_inv hfree.table hcreate
  -- a table that was built found the columns its foreign keys point to
  obtain ⟨tbl₀, _, hcons⟩ := bind_ok hbuild
  intro x hx
  obtain ⟨f, hf, r, hr, rfl, hne⟩ := mem_needs.mp hx
  have hmem : (fkName e f.name, fkConstraintBody f.name r) ∈ tableConstraints e := by
    unfold tableConstraints fieldConstraints
    simp only [List.mem_append, List.mem_flatMap]
    exact .inl (.inl (.inl ⟨f, hf, .inl (by rw [hr]; exact List.mem_singleton_self _)⟩))
  obtain ⟨tbl₁, tbl₂, hstep⟩ := foldlM_step hmem hcons
  obtain ⟨_, hcheck, _⟩ := bind_ok hstep
  exact hasColumn_of_check hne hcheck

/-- Only columns that its references point to are looked up outside. -/
theorem looks_create (hs : s ∈ emitEntityCreate e) {x : Key × Bool} (hx : x ∈ s.looks) :
    (footprint e).Has x.1 ∨ ∃ y ∈ (footprint e).needs, x.1 = .inTable y.1 (.column y.2) := by
  cases createStmt_of_mem hs with
  | table =>
    rcases List.mem_cons.mp hx with rfl | hx
    · exact .inl rfl
    · obtain ⟨⟨n, b⟩, hnb, hx⟩ := List.mem_flatMap.mp hx
      obtain ⟨k, hk, rfl⟩ := List.mem_map.mp hx
      cases b with
      | primaryKey cols | unique cols =>
        obtain ⟨col, _, rfl⟩ := List.mem_map.mp hk
        exact .inl rfl
      | check expr => cases hk
      | foreignKey col target targetCol onDelete onUpdate =>
        simp only [Constraint.looks, List.mem_cons, List.not_mem_nil, or_false] at hk
        rcases hk with rfl | rfl
        · exact .inl rfl
        · obtain ⟨f, hf, r, hr, rfl, rfl⟩ := foreignKey_of_mem (tableConstraints_subset hnb)
          by_cases hself : fkTargetRef r = qualifiedTable e
          · exact .inl hself
          · exact .inr ⟨_, mem_needs.mpr ⟨f, hf, r, hr, rfl, hself⟩, rfl⟩
  | index idx _ =>
    rcases List.mem_cons.mp hx with rfl | hx
    · exact .inl rfl
    · obtain ⟨col, _, rfl⟩ := List.mem_map.mp hx
      exact .inl rfl
  | hypertable | dropTrigger =>
    rw [List.mem_singleton.mp hx]
    exact .inl rfl
  | function _ => cases hx
  | createTrigger htouch =>
    simp only [Stmt.looks, List.mem_cons, List.not_mem_nil, or_false] at hx
    rcases hx with rfl | rfl | rfl
    · exact .inl rfl
    · exact .inl (function_mem htouch)
    · exact .inl rfl

/-- **Catalogs that agree under the names of an entity**, and have what its references point to: the creation runs on both,
    and they agree there again. -/
theorem run_emitEntityCreate_agree (hK : ∀ k, (footprint e).Has k → c₁.get k = c.get k) (hsup : (footprint e).Supplied c)
    (hsup₁ : (footprint e).Supplied c₁) (h : run mentions (emitEntityCreate e) c = .ok c') :
    ∃ c₂, run mentions (emitEntityCreate e) c₁ = .ok c₂ ∧ ∀ k, (footprint e).Has k → c₂.get k = c'.get k := by
  refine (foldlM_simulation (R := fun (x x₁ : Catalog) => (∀ k, (footprint e).Has k → x₁.get k = x.get k) ∧
    (footprint e).Supplied x ∧ (footprint e).Supplied x₁) ⟨hK, hsup, hsup₁⟩ ?_ h).imp fun _ h₂ => ⟨h₂.1, h₂.2.1⟩
  rintro s hs x y x₁ ⟨hK, hsup, hsup₁⟩ hstep
  obtain ⟨y₁, hstep₁, hK'⟩ := exec_agree hK (fun z hz => by
    rcases looks_create hs hz with hhas | ⟨need, hneed, heq⟩
    · rw [hK _ hhas]
    · rw [heq, hasColumn_iff.mp (hsup need hneed), hasColumn_iff.mp (hsup₁ need hneed)]) hstep
  have hstays : ∀ {x y}, exec mentions x s = .ok y → (footprint e).Supplied x → (footprint e).Supplied y := by
    intro x y hstep hsup need hneed
    cases createStmt_of_mem hs <;> exact exec_hasColumn (hsup need hneed) hstep nofun nofun
  exact ⟨y₁, hstep₁, hK', hstays hstep hsup, hstays hstep₁ hsup₁⟩

/-! ## What the creation leaves -/

/-- **The creation changes nothing outside.** -/
theorem has_of_affects (hs : s ∈ emitEntityCreate e) (hk : s.Affects k) : (footprint e).Has k := by
  cases createStmt_of_mem hs with
  | table =>
    obtain ⟨p, rfl⟩ := hk
    rfl
  | index idx hidx =>
    obtain rfl : k = .index (entitySchema e) (indexName e idx) := hk
    exact List.mem_map_of_mem hidx
  | function htouch =>
    obtain rfl : k = .function (triggerName e "touch_fn") := hk
    exact function_mem htouch
  | hypertable | dropTrigger | createTrigger =>
    cases hk
    rfl

/-- What it leaves goes with the table alone. -/
theorem closed_of_create (hfree : (footprint e).Free c) (h : run mentions (emitEntityCreate e) c = .ok c') :
    (footprint e).Closed c' := by
  intro k o t hk ho ht
  cases k with
  | inTable t' p =>
    obtain rfl : t' = qualifiedTable e := hk
    obtain ⟨⟨tbl, htbl, hof⟩, _⟩ := run_emitEntityCreate_inv hfree.table h
    rw [Catalog.get_of_table htbl] at ho
    refine ⟨fun hneeds => ?_, fun mentions col => ?_⟩
    · cases p with
      | constraint n =>
        obtain ⟨b, hb, rfl⟩ := Option.map_eq_some_iff.mp ho
        cases b with
        | foreignKey col target targetCol onDelete onUpdate =>
          obtain ⟨f, hf, r, hr, rfl, rfl⟩ := foreignKey_of_mem ((hof.constraints n _).mp hb)
          have htarget : fkTargetRef r ≠ t := by
            by_cases hself : fkTargetRef r = qualifiedTable e
            · exact hself ▸ ht.symm
            · exact hneeds _ (mem_needs.mpr ⟨f, hf, r, hr, rfl, hself⟩)
          simpa [Obj.lostWithTable, Constraint.pointsTo] using htarget
        | _ => rfl
      | _ => exact (Table.not_lost ho (by simp)).1 t
    · have hne : qualifiedTable e ≠ t := ht.symm
      cases o <;> simp [Key.lostWithColumn, hne]
  | index schema n =>
    -- the name was free, so the index is one of the entity
    have hown : ∀ o, c'.get (.index schema n) = some o → ∃ b, o = .index (qualifiedTable e) b := by
      refine foldlM_invariant (I := fun _ (x : Catalog) => ∀ o, x.get (.index schema n) = some o →
        ∃ b, o = .index (qualifiedTable e) b) ?_ ?_ h
      · intro o ho
        obtain ⟨x, hx, _⟩ := Option.map_eq_some_iff.mp ho
        cases (hfree.indexes _ hk).symm.trans hx
      · intro _ s _ x y hsplit hI hstep o ho
        by_cases haff : s.Affects (.index schema n)
        · have hs : s ∈ emitEntityCreate e := by
            rw [hsplit]
            simp
          cases createStmt_of_mem hs with
          | index idx _ =>
            cases haff
            rw [get_createIndex hstep] at ho
            rcases Option.or_eq_some_iff.mp ho with ho | ⟨_, ho⟩
            · exact hI o ho
            · exact ⟨_, (Option.some.inj ho).symm⟩
          | table =>
            obtain ⟨p, hp⟩ := haff
            cases hp
          | _ => cases haff
        · rw [exec_frame hstep haff] at ho
          exact hI o ho
    obtain ⟨b, rfl⟩ := hown o ho
    have hne : qualifiedTable e ≠ t := ht.symm
    simp [Obj.lostWithTable, Key.lostWithColumn, hne]
  | function n =>
    obtain ⟨x, _, rfl⟩ := Option.map_eq_some_iff.mp ho
    exact ⟨fun _ => rfl, fun _ _ => rfl⟩

end Atlantis.Codegen
