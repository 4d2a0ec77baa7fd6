import Atlantis.Pg.Frame

/-!
# `Pg.Flags` — when a column becomes `NOT NULL` does not matter

Nothing but another `SET NOT NULL` or `DROP NOT NULL` on the column, or a key put on it, depends on whether a column is
`NOT NULL`. So a statement that runs after the flag was set also runs before, and ends in the same catalog but for the
flag (`exec_mark`): setting a flag can wait, and a flag that no statement of a script sets stays what it was.
-/

namespace Atlantis.Pg

open Lib

/-- The table with the flag of a column set. -/
def Table.setFlag (col : String) (on : Bool) (tbl : Table) : Table :=
  { tbl with columns := Function.update tbl.columns col ((tbl.columns col).map fun x => { x with notNull := on }) }

/-- The catalog with the flag of a column set, if the column is there. -/
def Catalog.mark (c : Catalog) (t : TableRef) (col : String) (on : Bool) : Catalog :=
  { c with tables := fun t' => (c.tables t').map fun tbl => if t' = t then tbl.setFlag col on else tbl }

/-- The statement does not give the column the other flag. -/
def Stmt.Respects (t : TableRef) (col : String) (on : Bool) : Stmt → Prop
  | .setNotNull t' n on' => t' = t → n = col → on' = on
  | .addConstraint t' _ b => t' = t → col ∈ b.keyCols → on = true
  | _ => True

variable {mentions : String → String → Bool} {c c' : Catalog} {t : TableRef} {col : String} {on : Bool} {s : Stmt}
  {ss : List Stmt}

/-- What is under a key once the flag is set. -/
def flagged (t : TableRef) (col : String) (on : Bool) (k : Key) (o : Option Obj) : Option Obj :=
  if k = .inTable t (.notNull col) then o.map fun _ => .notNull on else o

theorem get_mark (k : Key) : (c.mark t col on).get k = flagged t col on k (c.get k) := by
  unfold flagged
  cases k with
  | inTable t' p =>
    show ((c.tables t').map _).bind _ = if _ then ((c.tables t').bind _).map _ else (c.tables t').bind _
    cases c.tables t' with
    | none => simp
    | some tbl =>
      by_cases ht : t' = t
      · cases p with
        | column n | notNull n | default n => by_cases hn : n = col <;> simp [ht, hn, Table.get, Table.setFlag, Function.comp_def]
        | _ => simp [ht, Table.get, Table.setFlag]
      · simp [ht]
  | index _ _ | function _ => simp [Catalog.get, Catalog.mark]

theorem get_mark_isSome (k : Key) : ((c.mark t col on).get k).isSome = (c.get k).isSome := by
  rw [get_mark, flagged]
  split
  · exact Option.isSome_map
  · rfl

/-- The flag of a column that is there. -/
theorem exists_flag (hcol : c.HasColumn t col) : ∃ x, c.get (.inTable t (.notNull col)) = some (.notNull x) := by
  obtain ⟨tbl, htbl, hsome⟩ := hcol
  obtain ⟨y, hy⟩ := Option.isSome_iff_exists.mp hsome
  rw [Catalog.get_of_table htbl]
  simp [Table.get, hy]

theorem hasColumn_of_setNotNull (h : exec mentions c (.setNotNull t col on) = .ok c') : c.HasColumn t col :=
  hasColumn_iff.mpr ((exec_spec h trivial).1 _ List.mem_cons_self)

/-- Setting the flag is what `SET NOT NULL` does. -/
theorem exec_setNotNull (hcol : c.HasColumn t col) :
    exec mentions c (.setNotNull t col on) = .ok (c.mark t col on) := by
  have hready : (Stmt.setNotNull t col on).Ready c := List.forall_mem_singleton.mpr (hasColumn_iff.mp hcol)
  obtain ⟨c', h⟩ := (@exec_ready mentions c (.setNotNull t col on) trivial).mpr hready
  obtain ⟨x, hx⟩ := exists_flag hcol
  rw [h]
  congr 1
  apply Catalog.ext_get
  intro k
  rw [(exec_spec h trivial).2, get_mark, flagged]
  by_cases hk : k = .inTable t (.notNull col) <;> simp [Stmt.effect, hk, hx]

/-- **A statement that runs after the flag was set also runs before**, to the same catalog but for the flag. -/
theorem exec_mark (hcol : c.HasColumn t col) (hs : s.Respects t col on)
    (h : exec mentions (c.mark t col on) s = .ok c') : ∃ c₁, exec mentions c s = .ok c₁ ∧ c' = c₁.mark t col on := by
  refine exec_overlay (fun c k => get_mark k) (fun x _ => (get_mark_isSome x.1).symm) ?_ h
  intro ha hready k
  by_cases hk : k = .inTable t (.notNull col)
  · obtain ⟨x, hx⟩ := exists_flag hcol
    simp only [flagged, hk, if_true, hx, Option.map_some]
    cases s with
    | createTable t' cols cons =>
      have ht : t ≠ t' := by
        rintro rfl
        obtain ⟨tbl, htbl, _⟩ := hcol
        rw [Catalog.tables_eq_none ha] at htbl
        cases htbl
      simp [Stmt.effect, ht]
    | addColumn t' d =>
      by_cases ht : t = t' ∧ col = d.name
      · obtain ⟨rfl, rfl⟩ := ht
        have hfree := hready (.inTable t (.notNull d.name), false) (by simp [Stmt.looks, Stmt.adds])
        rw [hx] at hfree
        cases hfree
      · by_cases ht' : t = t' <;> simp_all [Stmt.effect, ColumnDecl.get]
    | dropTable t' => by_cases ht : t = t' <;> simp [Stmt.effect, Key.table, Obj.lostWithTable, Option.filter_some, ht]
    | dropColumn t' n =>
      by_cases ht : t = t' ∧ col = n <;> simp [Stmt.effect, columnKeys, Key.lostWithColumn, Option.filter_some, ht]
    | setNotNull t' n on' =>
      by_cases ht : t = t' ∧ col = n
      · simp [Stmt.effect, ht, hs ht.1.symm ht.2.symm]
      · simp [Stmt.effect, ht]
    | addConstraint t' n b =>
      by_cases ht : t = t' ∧ col ∈ b.keyCols
      · simp [Stmt.effect, ht, hs ht.1.symm ht.2]
      · have hout : Key.inTable t (.notNull col) ∉ b.keyCols.map fun col => .inTable t' (.notNull col) := by
          intro hin
          obtain ⟨n, hn, heq⟩ := List.mem_map.mp hin
          obtain ⟨rfl, hname⟩ := Key.inTable.inj heq
          exact ht ⟨rfl, Part.notNull.inj hname ▸ hn⟩
        simp only [Stmt.effect, if_neg hout, reduceCtorEq, Key.inTable.injEq, and_false, if_false, Option.map_some]
    | _ => simp [Stmt.effect]
  · simp only [flagged, if_neg hk]

/-- The statement sets no other flag on the column and does not drop it. -/
structure Stmt.Leaves (t : TableRef) (col : String) (on : Bool) (s : Stmt) : Prop where
  respects : s.Respects t col on
  dropTable : s ≠ .dropTable t
  dropColumn : s ≠ .dropColumn t col

/-- **Setting a flag can wait** until the end of a script. -/
theorem run_mark (hcol : c.HasColumn t col) (hss : ∀ s ∈ ss, s.Leaves t col on)
    (h : run mentions ss (c.mark t col on) = .ok c') :
    ∃ c₁, run mentions ss c = .ok c₁ ∧ c₁.HasColumn t col ∧ c' = c₁.mark t col on := by
  have hsim := foldlM_simulation (R := fun c (c₁ : Catalog) => c = c₁.mark t col on ∧ c₁.HasColumn t col) ⟨rfl, hcol⟩
    (fun s hs _ _ c₁ hR hstep => by
      obtain ⟨rfl, hcol⟩ := hR
      obtain ⟨c₂, h₂, rfl⟩ := exec_mark hcol (hss s hs).respects hstep
      exact ⟨c₂, h₂, rfl, exec_hasColumn hcol h₂ (hss s hs).dropTable (hss s hs).dropColumn⟩) h
  obtain ⟨c₁, h₁, hc', hcol₁⟩ := hsim
  exact ⟨c₁, h₁, hcol₁, hc'⟩

/-- **A flag that a script does not set** is at the end what it was. -/
theorem run_flag (hcol : c.HasColumn t col) (hflag : c.get (.inTable t (.notNull col)) = some (.notNull on))
    (hss : ∀ s ∈ ss, s.Leaves t col on) (h : run mentions ss c = .ok c') :
    c'.get (.inTable t (.notNull col)) = some (.notNull on) := by
  have hself : c.mark t col on = c := by
    apply Catalog.ext_get
    intro k
    rw [get_mark, flagged]
    split
    · rename_i hk
      rw [hk, hflag]
      rfl
    · rfl
  have hmarked := h
  rw [← hself] at hmarked
  obtain ⟨c₁, h₁, hcol₁, hc'⟩ := run_mark hcol hss hmarked
  cases h.symm.trans h₁
  obtain ⟨x, hx⟩ := exists_flag hcol₁
  rw [hc', get_mark, flagged, if_pos rfl, hx]
  rfl

/-- A flag that one statement of a script sets, and no statement sets otherwise. -/
theorem run_flag_of_mem {s : Stmt} (hs : s ∈ ss) (hss : ∀ s ∈ ss, s.Leaves t col on)
    (hset : ∀ {c₀ c₁ : Catalog}, exec mentions c₀ s = .ok c₁ →
      c₁.HasColumn t col ∧ c₁.get (.inTable t (.notNull col)) = some (.notNull on))
    (h : run mentions ss c = .ok c') : c'.get (.inTable t (.notNull col)) = some (.notNull on) := by
  obtain ⟨pre, post, c₀, c₁, rfl, _, hexec, hpost⟩ := exists_step h hs
  obtain ⟨hcol, hflag⟩ := hset hexec
  exact run_flag hcol hflag (fun s hs => hss s (List.mem_append_right _ (List.mem_cons_of_mem _ hs))) hpost

end Atlantis.Pg
