import Atlantis.Codegen.Initial
import Atlantis.Codegen.Script
import Atlantis.Pg.Uniques

/-!
# `Codegen.UniqueHistory` — unique constraints over whole histories

A `UNIQUE` gets its name when it is made: from the physical table when it is written on a column, from the
computed table name and the column order of the day otherwise. It is dropped by a name that is computed
afresh, from the last schema. In between the schema may have listed the columns in another order — the diff
sees no change there — or the table may have a name of its own; then the drop finds nothing under its name
and the constraint stays.

`Applied` are the catalogs that a history of schemas leads to. Along histories whose drops find what they
are meant to drop (`DropsFound`), the unique constraints of the table are those of the last schema.
-/

namespace Atlantis.Codegen

open Schema Pg Lib

/-! ## What a schema declares -/

/-- The column sets an entity declares unique. -/
def declaredUniques (e : Entity) : List (List String) :=
  (e.fields.filter (·.unique)).map (fun f => [f.name]) ++ e.uniques.map UniqueSpec.fields

variable {ctx : DiffCtx} {ord : RangeOrder} {mentions : String → String → Bool} {old new : IR} {e oldE newE : Entity}
  {n col id : String} {cols d : List String} {t : TableRef} {s : Stmt} {c c' : Catalog}

theorem mem_declaredUniques : d ∈ declaredUniques e ↔
    (∃ f ∈ e.fields, f.unique = true ∧ d = [f.name]) ∨ ∃ u ∈ e.uniques, d = u.fields := by
  unfold declaredUniques
  simp only [List.mem_append, List.mem_map, List.mem_filter, and_assoc, eq_comm]

/-- **The table of the entity has exactly the unique constraints it declares**, each once. The order of the
    columns does not matter, as it does not to the diff. -/
structure UniquesFollow (e : Entity) (c : Catalog) : Prop where
  only : ∀ n cols, c.uniqueAt (qualifiedTable e) n = some cols → ∃ d ∈ declaredUniques e, cols.Perm d
  each : ∀ d ∈ declaredUniques e, ∃ n cols, c.uniqueAt (qualifiedTable e) n = some cols ∧ cols.Perm d
  once : ∀ n n' cols cols', c.uniqueAt (qualifiedTable e) n = some cols →
    c.uniqueAt (qualifiedTable e) n' = some cols' → cols.Perm cols' → n = n'

/-- No key column is declared unique once more, and no column set twice. -/
structure PlainUniques (e : Entity) : Prop where
  keys : ∀ f ∈ e.fields, f.unique = true → f.primary = false
  apart : e.uniques.Pairwise fun u u' => ¬ sameColumns u u'

/-! ## The names -/

/-- Names of unique constraints end like this. -/
def KeyName (n : String) : Prop := ∃ s, n = s ++ "_key"

theorem KeyName.ne_fkName (h : KeyName n) (e : Entity) (field : String) : n ≠ fkName e field := by
  obtain ⟨s, rfl⟩ := h
  intro heq
  have hlast := congrArg (fun s : String => s.toList.reverse.take 4) heq
  simp [fkName] at hlast

theorem keyName_of_gained (h : (n, cols) ∈ gainedUniques oldE newE) : KeyName n := by
  rcases mem_gainedUniques.mp h with ⟨f, _, _, _, rfl, _⟩ | ⟨f, _, _, _, rfl, _⟩ | ⟨u, _, _, rfl, _⟩
  · exact ⟨_, rfl⟩
  · exact ⟨_, rfl⟩
  · exact ⟨_, rfl⟩

/-! ## The script -/

section Script

/-- Two versions of an entity that stays in its table, in schemas whose entities have tables of their own. -/
structure Stays (old new : IR) (oldE newE : Entity) : Prop extends Versions old new oldE newE where
  table : oldE.tableName = newE.tableName
  oldApart : TablesApart old
  newApart : TablesApart new

variable (h : Stays old new oldE newE)

include h

theorem Stays.qualifiedTable_eq : qualifiedTable oldE = qualifiedTable newE :=
  qualifiedTable_congr h.tableName_eq h.table

/-- No other entity has the table. -/
theorem Stays.eq_of_table {oldE' newE' : Entity} (hv : Versions old new oldE' newE')
    (ht : qualifiedTable newE' = qualifiedTable newE ∨ qualifiedTable oldE' = qualifiedTable newE) :
    oldE' = oldE ∧ newE' = newE := by
  refine h.eq_of_id hv ?_
  rcases ht with ht | ht
  · rw [h.newApart.inj hv.newMem h.newMem ht]
  · rw [← h.qualifiedTable_eq] at ht
    rw [← hv.id, h.oldApart.inj hv.oldMem h.oldMem ht, h.id]

/-- What a statement of the up script can do to the unique constraints of the table. -/
structure UpUniques (oldE newE : Entity) (s : Stmt) : Prop where
  adds : ∀ x ∈ s.addsUnique (qualifiedTable newE), x ∈ gainedUniques oldE newE
  names : ∀ n ∈ s.dropsName (qualifiedTable newE),
    n ∈ (lostUniques oldE newE).map Prod.fst ∨ ∃ e field, n = fkName e field
  columns : ∀ col ∈ s.dropsColumn (qualifiedTable newE), ∃ f ∈ oldE.fields, f.name = col ∧ fieldByName newE col = none
  keeps : s ≠ .dropTable (qualifiedTable newE)

/-- **What a statement of the up script does.** -/
theorem Stays.upUniques {s : Stmt} (hs : s ∈ emitUp old new (ComputeDiff ctx ord old new)) : UpUniques oldE newE s := by
  rcases List.mem_append.mp hs with hs | hs
  · obtain ⟨n, _, rfl⟩ := List.mem_map.mp hs
    exact ⟨nofun, nofun, nofun, nofun⟩
  obtain ⟨ch, hch, hs⟩ := List.mem_flatMap.mp hs
  cases upStmt_of_mem h.oldValid h.newValid (emissionOrder_perm.mem_iff.mp hch) hs with
  | create e s _ _ _ hs => cases createStmt_of_mem hs <;> exact ⟨nofun, nofun, nofun, nofun⟩
  | drop e s ho hn hs =>
    rcases dropStmt_of_mem hs with rfl | ⟨_, rfl⟩
    · refine ⟨nofun, nofun, nofun, fun heq => ?_⟩
      obtain ⟨hmem, hid⟩ := entityByID_mem ho
      have ht : qualifiedTable e = qualifiedTable oldE := (Stmt.dropTable.inj heq).trans h.qualifiedTable_eq.symm
      rw [← hid, h.oldApart.inj hmem h.oldMem ht, h.id, h.newByID] at hn
      cases hn
    · exact ⟨nofun, nofun, nofun, nofun⟩
  | addColumn oldE' newE' f hv _ hf hnot _ _ =>
    refine ⟨fun x hx => ?_, nofun, nofun, nofun⟩
    obtain ⟨⟨ht, hu⟩, heq⟩ := List.mem_ite_nil_right.mp hx
    obtain ⟨rfl, rfl⟩ := h.eq_of_table hv (.inl ht)
    rw [List.mem_singleton.mp heq]
    exact mem_gainedUniques.mpr (.inl ⟨f, hf, (Bool.and_eq_true_iff.mp hu).1, fieldByName_eq_none.mpr hnot, rfl, rfl⟩)
  | dropColumn oldE' newE' f hv _ hf hnot =>
    refine ⟨nofun, nofun, fun col hcol => ?_, nofun⟩
    obtain ⟨ht, heq⟩ := List.mem_ite_nil_right.mp hcol
    obtain ⟨rfl, rfl⟩ := h.eq_of_table hv (.inr ht)
    rw [List.mem_singleton.mp heq]
    exact ⟨f, hf, rfl, fieldByName_eq_none.mpr hnot⟩
  | addUnique oldE' newE' n cols hv _ hgained =>
    refine ⟨fun x hx => ?_, nofun, nofun, nofun⟩
    obtain ⟨ht, heq⟩ := List.mem_ite_nil_right.mp hx
    obtain ⟨rfl, rfl⟩ := h.eq_of_table hv (.inl ht)
    rw [List.mem_singleton.mp heq]
    exact hgained
  | dropUnique oldE' newE' x hv _ hlost =>
    refine ⟨nofun, fun n hn => ?_, nofun, nofun⟩
    obtain ⟨ht, heq⟩ := List.mem_ite_nil_right.mp hn
    obtain ⟨rfl, rfl⟩ := h.eq_of_table hv (.inl ht)
    rw [List.mem_singleton.mp heq]
    exact .inl (List.mem_map_of_mem hlost)
  | dropForeignKey oldE' newE' name _ _ =>
    refine ⟨nofun, fun n hn => ?_, nofun, nofun⟩
    obtain ⟨_, hn⟩ := List.mem_ite_nil_right.mp hn
    exact .inr ⟨oldE', name, List.mem_singleton.mp hn⟩
  | addForeignKey | tighten | loosen | setType | setDefault | createIndex | dropIndex =>
    exact ⟨nofun, nofun, nofun, nofun⟩

/-- What the changes of the entity do, the up script does. -/
theorem Stays.mem_emitUp {α : Type} {g : Stmt → List α} {x : α} {ch : Change} (hch : ch ∈ diffEntity ctx ord oldE newE)
    (hx : x ∈ (emitChange new old ch).up.flatMap g) : x ∈ (emitUp old new (ComputeDiff ctx ord old new)).flatMap g := by
  obtain ⟨s, hs, hx⟩ := List.mem_flatMap.mp hx
  have hemitted : ch ∈ emissionOrder new (ComputeDiff ctx ord old new) := by
    rw [mem_emissionOrder, entityID_of_mem_diffEntity hch, diffID, h.oldByID, h.newByID]
    exact hch
  exact List.mem_flatMap.mpr ⟨s, List.mem_append_right _ (List.mem_flatMap.mpr ⟨ch, hemitted, hs⟩), hx⟩

omit h in
/-- Different column sets have different keys. -/
theorem PlainUniques.nodup_keys {ir : IR} {e : Entity} (hplain : PlainUniques e) (hvalid : Validated ir)
    (he : e ∈ ir.entities) : (e.uniques.map uniqueSpecKey).Nodup := by
  rw [List.Nodup, List.pairwise_map]
  refine hplain.apart.imp_of_mem ?_
  intro u u' hu hu' hne heq
  exact hne ((uniqueSpecKey_eq_iff hvalid hvalid he he hu hu').mp heq)

/-- The script adds the unique constraints that are to be added. -/
theorem Stays.mem_addsUnique (hplain : PlainUniques newE) {x : String × List String} :
    x ∈ (emitUp old new (ComputeDiff ctx ord old new)).flatMap (Stmt.addsUnique (qualifiedTable newE)) ↔
      x ∈ gainedUniques oldE newE := by
  constructor
  · intro hx
    obtain ⟨s, hs, hx⟩ := List.mem_flatMap.mp hx
    exact (h.upUniques hs).adds x hx
  intro hx
  have hN := h.newByID
  have hnewL := h.newValid.lowered h.newMem
  obtain ⟨n, cols⟩ := x
  rcases mem_gainedUniques.mp hx with ⟨f, hf, hu, hfo, rfl, rfl⟩ | ⟨f, hf, hu, ⟨g, hfo, hg⟩, rfl, rfl⟩ |
    ⟨u, hu, hnot, rfl, rfl⟩
  · refine h.mem_emitUp (@mem_diffEntity_of_field ctx ord oldE newE ⟨.fieldAdded,
      if f.notNull && f.default.isNone then .backfillRequired else .additive, newE.id, f.name⟩ f.name ?_) ?_
    · unfold diffFieldNamed
      rw [hfo, fieldByName_of_mem hnewL hf]
      exact List.mem_cons_self
    · simp only [emitChange, hN, withField, findField_of_mem hnewL hf, emitFieldAdd, List.flatMap_cons]
      apply List.mem_append_left
      simp [Stmt.addsUnique, columnDecl, hu, hplain.keys f hf hu]
  · refine h.mem_emitUp (@mem_diffEntity_of_field ctx ord oldE newE
      ⟨.fieldUniqueAdded, .backfillRequired, newE.id, f.name⟩ f.name ?_) ?_
    · unfold diffFieldNamed
      rw [hfo, fieldByName_of_mem hnewL hf]
      simp [diffField, diffFieldUnique, hu, hg]
    · simp [emitChange, hN, withEntity, emitUnique, Stmt.addsUnique]
  · refine @Stays.mem_emitUp ctx ord _ _ _ _ h _ _ _ ⟨.compositeUniqueAdded u, .backfillRequired, newE.id, ""⟩ ?_ ?_
    · have hadded : u ∈ addedUniques ord oldE newE := by
        refine mem_unseen.mpr ⟨lastWith_of_nodup (hplain.nodup_keys h.newValid h.newMem) hu, ?_⟩
        intro u' hu' heq
        exact hnot u' hu' ((uniqueSpecKey_eq_iff h.oldValid h.newValid h.oldMem h.newMem hu' hu).mp heq)
      simp [diffEntity, diffUniques, hadded]
    · simp [emitChange, hN, withEntity, emitCompositeUnique, Stmt.addsUnique]

/-- Of the names of unique constraints it drops those that are to be dropped. -/
theorem Stays.mem_dropsName (hplain : PlainUniques oldE) {n : String} (hkey : KeyName n) :
    n ∈ (emitUp old new (ComputeDiff ctx ord old new)).flatMap (Stmt.dropsName (qualifiedTable newE)) ↔
      n ∈ (lostUniques oldE newE).map Prod.fst := by
  constructor
  · intro hn
    obtain ⟨s, hs, hn⟩ := List.mem_flatMap.mp hn
    exact ((h.upUniques hs).names n hn).resolve_right fun ⟨e, field, heq⟩ => hkey.ne_fkName e field heq
  intro hn
  obtain ⟨⟨n, cols⟩, hx, rfl⟩ := List.mem_map.mp hn
  have hN := h.newByID
  have hnewL := h.newValid.lowered h.newMem
  rcases mem_lostUniques.mp hx with ⟨f, hf, hu, ⟨g, hfo, hg⟩, rfl, rfl⟩ | ⟨u, hu, hnot, rfl, rfl⟩
  · refine h.mem_emitUp (@mem_diffEntity_of_field ctx ord oldE newE
      ⟨.fieldUniqueRemoved, .additive, newE.id, f.name⟩ f.name ?_) ?_
    · unfold diffFieldNamed
      rw [hfo, fieldByName_of_mem hnewL hf]
      simp [diffField, diffFieldUnique, hu, hg]
    · simp [emitChange, hN, withEntity, emitUnique, Stmt.dropsName]
  · refine @Stays.mem_emitUp ctx ord _ _ _ _ h _ _ _ ⟨.compositeUniqueRemoved u, .additive, newE.id, ""⟩ ?_ ?_
    · have hremoved : u ∈ removedUniques ord oldE newE := by
        refine mem_unseen.mpr ⟨lastWith_of_nodup (hplain.nodup_keys h.oldValid h.oldMem) hu, ?_⟩
        intro u' hu' heq
        exact hnot u' hu' ((uniqueSpecKey_eq_iff h.newValid h.oldValid h.newMem h.oldMem hu' hu).mp heq)
      simp [diffEntity, diffUniques, hremoved]
    · simp [emitChange, hN, withEntity, emitCompositeUnique, Stmt.dropsName, Option.or]

/-- It drops the columns of the fields that are gone. -/
theorem Stays.mem_dropsColumn :
    col ∈ (emitUp old new (ComputeDiff ctx ord old new)).flatMap (Stmt.dropsColumn (qualifiedTable newE)) ↔
      ∃ f ∈ oldE.fields, f.name = col ∧ fieldByName newE col = none := by
  constructor
  · intro hcol
    obtain ⟨s, hs, hcol⟩ := List.mem_flatMap.mp hcol
    exact (h.upUniques hs).columns col hcol
  rintro ⟨f, hf, rfl, hnone⟩
  have holdL := h.oldValid.lowered h.oldMem
  refine h.mem_emitUp (@mem_diffEntity_of_field ctx ord oldE newE
    ⟨.fieldRemoved, ctx.classifyRemoval newE.id (newE.id ++ "." ++ f.name), newE.id, f.name⟩ f.name ?_) ?_
  · unfold diffFieldNamed
    rw [hnone, fieldByName_of_mem holdL hf]
    exact List.mem_singleton.mpr rfl
  · simp [emitChange, h.oldByID, withField, findField_of_mem holdL hf, emitFieldDrop, Stmt.dropsColumn,
      h.qualifiedTable_eq]

end Script

/-! ## One step of a history -/

/-- **The drops find what they are meant to drop**: every unique constraint that the step means to drop is in
    the table under the name the step drops, and nothing is added under such a name. -/
structure DropsFound (oldE newE : Entity) (c : Catalog) : Prop where
  found : ∀ x ∈ lostUniques oldE newE, ∃ cols, c.uniqueAt (qualifiedTable newE) x.1 = some cols ∧ cols.Perm x.2
  free : ∀ x ∈ lostUniques oldE newE, x.1 ∉ (gainedUniques oldE newE).map Prod.fst

/-- All unique constraints of the table have names of the usual form. -/
def KeyNames (e : Entity) (c : Catalog) : Prop := ∀ n cols, c.uniqueAt (qualifiedTable e) n = some cols → KeyName n

/-- Fields have names of their own, and composite uniques more columns than one. -/
def Composite (e : Entity) : Prop := (e.fields.map Field.name).Nodup ∧ ∀ u ∈ e.uniques, u.fields.length ≠ 1

/-- A column set of one column is declared by its field. -/
theorem declared_singleton {n : String} (he : Composite e) :
    (∃ d ∈ declaredUniques e, [n].Perm d) ↔ ∃ f, fieldByName e n = some f ∧ f.unique = true := by
  constructor
  · rintro ⟨d, hd, hperm⟩
    rcases mem_declaredUniques.mp hd with ⟨f, hf, hu, rfl⟩ | ⟨u, hu, rfl⟩
    · obtain rfl : n = f.name := by simpa using (List.perm_singleton.mp hperm)
      exact ⟨f, lastWith_of_nodup he.1 hf, hu⟩
    · exact absurd hperm.length_eq.symm (he.2 u hu)
  · rintro ⟨f, hf, hu⟩
    obtain ⟨hmem, rfl⟩ := lastWith_mem hf
    exact ⟨_, mem_declaredUniques.mpr (.inl ⟨f, hmem, hu, rfl⟩), .refl _⟩

/-- A column set of another length is declared by a composite unique. -/
theorem declared_composite {cols : List String} (hlen : cols.length ≠ 1) :
    (∃ d ∈ declaredUniques e, cols.Perm d) ↔ ∃ u ∈ e.uniques, cols.Perm u.fields := by
  constructor
  · rintro ⟨d, hd, hperm⟩
    rcases mem_declaredUniques.mp hd with ⟨f, _, _, rfl⟩ | ⟨u, hu, rfl⟩
    · exact absurd hperm.length_eq hlen
    · exact ⟨u, hu, hperm⟩
  · rintro ⟨u, hu, hperm⟩
    exact ⟨_, mem_declaredUniques.mpr (.inr ⟨u, hu, rfl⟩), hperm⟩

/-- **What is added** is what is declared now and was not before. -/
theorem gained_iff {d : List String} (hold : Composite oldE) (hnew : Composite newE) :
    (∃ n, (n, d) ∈ gainedUniques oldE newE) ↔ d ∈ declaredUniques newE ∧ ¬ ∃ d₀ ∈ declaredUniques oldE, d.Perm d₀ := by
  constructor
  · rintro ⟨n, hx⟩
    rw [mem_declaredUniques]
    rcases mem_gainedUniques.mp hx with ⟨f, hf, hu, hfo, _, rfl⟩ | ⟨f, hf, hu, ⟨g, hfo, hg⟩, _, rfl⟩ |
      ⟨u, hu, hnot, _, rfl⟩
    · rw [declared_singleton hold]
      exact ⟨.inl ⟨f, hf, hu, rfl⟩, by simp [hfo]⟩
    · rw [declared_singleton hold]
      exact ⟨.inl ⟨f, hf, hu, rfl⟩, by simp [hfo, hg]⟩
    · rw [declared_composite (hnew.2 u hu)]
      refine ⟨.inr ⟨u, hu, rfl⟩, ?_⟩
      rintro ⟨u', hu', hperm⟩
      exact hnot u' hu' hperm.symm
  · rintro ⟨hd, hnot⟩
    simp only [mem_gainedUniques]
    rcases mem_declaredUniques.mp hd with ⟨f, hf, hu, rfl⟩ | ⟨u, hu, rfl⟩
    · rw [declared_singleton hold] at hnot
      cases hfo : fieldByName oldE f.name with
      | none => exact ⟨_, .inl ⟨f, hf, hu, hfo, rfl, rfl⟩⟩
      | some g => exact ⟨_, .inr (.inl ⟨f, hf, hu, ⟨g, hfo, by simpa [hfo] using hnot⟩, rfl, rfl⟩)⟩
    · rw [declared_composite (hnew.2 u hu)] at hnot
      exact ⟨_, .inr (.inr ⟨u, hu, fun u' hu' hperm => hnot ⟨u', hu', hperm.symm⟩, rfl, rfl⟩)⟩

/-- Column sets are added under one name. -/
theorem gained_once {ir : IR} (hvalid : Validated ir) (he : newE ∈ ir.entities) (hplain : PlainUniques newE)
    {n' : String} {cols' : List String} (hx : (n, cols) ∈ gainedUniques oldE newE)
    (hx' : (n', cols') ∈ gainedUniques oldE newE) (hperm : cols.Perm cols') : n = n' := by
  have hlen : ∀ {f : Field} {u : UniqueSpec}, u ∈ newE.uniques → ¬ [f.name].Perm u.fields :=
    fun hu hp => (hvalid.lowered he).2.2.2.2 _ hu hp.length_eq.symm
  have hname : ∀ {f g : Field}, [f.name].Perm [g.name] → f.name = g.name :=
    fun hp => by simpa using List.perm_singleton.mp hp
  rcases mem_gainedUniques.mp hx with ⟨f, hf, _, hfo, rfl, rfl⟩ | ⟨f, hf, _, ⟨g, hfo, _⟩, rfl, rfl⟩ |
    ⟨u, hu, _, rfl, rfl⟩ <;>
  rcases mem_gainedUniques.mp hx' with ⟨f', hf', _, hfo', rfl, rfl⟩ | ⟨f', hf', _, ⟨g', hfo', _⟩, rfl, rfl⟩ |
    ⟨u', hu', _, rfl, rfl⟩
  · rw [hname hperm]
  · rw [hname hperm, hfo'] at hfo
    cases hfo
  · exact absurd hperm (hlen hu')
  · rw [hname hperm, hfo'] at hfo
    cases hfo
  · rw [hname hperm]
  · exact absurd hperm (hlen hu')
  · exact absurd hperm.symm (hlen hu)
  · exact absurd hperm.symm (hlen hu)
  · have hkey := (uniqueSpecKey_eq_iff hvalid hvalid he he hu hu').mpr hperm
    rw [List.inj_on_of_nodup_map (hplain.nodup_keys hvalid he) hu hu' hkey]

section Declared

variable (h : Stays old new oldE newE)

include h

theorem Stays.composite : Composite oldE ∧ Composite newE := by
  obtain ⟨_, _, hold, _, hold'⟩ := h.oldValid.lowered h.oldMem
  obtain ⟨_, _, hnew, _, hnew'⟩ := h.newValid.lowered h.newMem
  exact ⟨⟨hold, hold'⟩, hnew, hnew'⟩

omit h in
/-- What was declared before is declared now, or is to be dropped, or has lost a column. -/
theorem declared_old (hold : Composite oldE) (hnew : Composite newE) (hd : d ∈ declaredUniques oldE) :
    (∃ d' ∈ declaredUniques newE, d.Perm d') ∨ (∃ n, (n, d) ∈ lostUniques oldE newE) ∨
      ∃ f ∈ oldE.fields, fieldByName newE f.name = none ∧ f.name ∈ d := by
  refine or_iff_not_imp_left.mpr fun hnot => ?_
  simp only [mem_lostUniques]
  rcases mem_declaredUniques.mp hd with ⟨f, hf, hu, rfl⟩ | ⟨u, hu, rfl⟩
  · rw [declared_singleton hnew] at hnot
    cases hfn : fieldByName newE f.name with
    | none => exact .inr ⟨f, hf, hfn, List.mem_singleton.mpr rfl⟩
    | some g =>
      obtain ⟨hmem, hname⟩ := lastWith_mem hfn
      have hfo : fieldByName oldE g.name = some f := by
        rw [hname]
        exact lastWith_of_nodup hold.1 hf
      exact .inl ⟨_, .inl ⟨g, hmem, by simpa [hfn] using hnot, ⟨f, hfo, hu⟩, rfl, by rw [hname]⟩⟩
  · rw [declared_composite (hold.2 u hu)] at hnot
    exact .inl ⟨_, .inr ⟨u, hu, fun u' hu' hperm => hnot ⟨u', hu', hperm.symm⟩, rfl, rfl⟩⟩

/-- What is declared now is over fields. -/
theorem Stays.declared_columns (hd : d ∈ declaredUniques newE) (hcol : col ∈ d) :
    fieldByName newE col ≠ none := by
  rw [Ne, fieldByName_eq_none, not_not]
  rcases mem_declaredUniques.mp hd with ⟨f, hf, _, rfl⟩ | ⟨u, hu, rfl⟩
  · rw [List.mem_singleton.mp hcol]
    exact List.mem_map_of_mem hf
  · obtain ⟨f, hf, rfl⟩ := (h.newValid.unique_fields h.newMem hu).2 col hcol
    exact List.mem_map_of_mem hf

end Declared

/-- **What a step leaves**: the constraints it adds, and those that lose neither their name nor a column. -/
theorem Stays.uniqueAt_step (h : Stays old new oldE newE) (htbl : (c.tables (qualifiedTable newE)).isSome)
    (hnames : KeyNames newE c) (hplain : PlainUniques oldE) (hplain' : PlainUniques newE)
    (hdrops : DropsFound oldE newE c)
    (hrun : run mentions (emitUp old new (ComputeDiff ctx ord old new)) c = .ok c') :
    (c'.tables (qualifiedTable newE)).isSome ∧
    ∀ n cols, c'.uniqueAt (qualifiedTable newE) n = some cols ↔ (n, cols) ∈ gainedUniques oldE newE ∨
      c.uniqueAt (qualifiedTable newE) n = some cols ∧ n ∉ (lostUniques oldE newE).map Prod.fst ∧
        ∀ f ∈ oldE.fields, fieldByName newE f.name = none → f.name ∉ cols := by
  have hapart : ∀ n cols, (n, cols) ∈ (emitUp old new (ComputeDiff ctx ord old new)).flatMap
      (Stmt.addsUnique (qualifiedTable newE)) →
      n ∉ (emitUp old new (ComputeDiff ctx ord old new)).flatMap (Stmt.dropsName (qualifiedTable newE)) ∧
      ∀ col ∈ (emitUp old new (ComputeDiff ctx ord old new)).flatMap (Stmt.dropsColumn (qualifiedTable newE)),
        col ∉ cols := by
    intro n cols hadd
    rw [h.mem_addsUnique hplain'] at hadd
    simp only [h.mem_dropsName hplain (keyName_of_gained hadd), h.mem_dropsColumn]
    constructor
    · intro hdrop
      obtain ⟨x, hx, rfl⟩ := List.mem_map.mp hdrop
      exact hdrops.free x hx (List.mem_map.mpr ⟨_, hadd, rfl⟩)
    · rintro col ⟨f, _, _, hnone⟩ hin
      exact h.declared_columns ((gained_iff h.composite.1 h.composite.2).mp ⟨_, hadd⟩).1 hin hnone
  obtain ⟨htbl', hstep⟩ := run_uniques htbl (fun s hs => (h.upUniques hs).keeps) hapart hrun
  refine ⟨htbl', fun n cols => ?_⟩
  rw [hstep n cols, h.mem_addsUnique hplain']
  refine or_congr_right (and_congr_right fun hbefore => ?_)
  simp only [h.mem_dropsName hplain (hnames n cols hbefore), h.mem_dropsColumn]
  refine and_congr_right fun _ => ⟨fun hcols f hf hnone => hcols _ ⟨f, hf, rfl, hnone⟩, ?_⟩
  rintro hcols _ ⟨f, hf, rfl, hnone⟩
  exact hcols f hf hnone

/-- **A step keeps the unique constraints with the schema.** -/
theorem Stays.uniquesFollow (h : Stays old new oldE newE) (htbl : (c.tables (qualifiedTable newE)).isSome)
    (hnames : KeyNames newE c) (hplain : PlainUniques oldE) (hplain' : PlainUniques newE)
    (hdrops : DropsFound oldE newE c) (hfollow : UniquesFollow oldE c)
    (hrun : run mentions (emitUp old new (ComputeDiff ctx ord old new)) c = .ok c') :
    (c'.tables (qualifiedTable newE)).isSome ∧ KeyNames newE c' ∧ UniquesFollow newE c' := by
  obtain ⟨htbl', hstep⟩ := h.uniqueAt_step htbl hnames hplain hplain' hdrops hrun
  obtain ⟨hold, hnew⟩ := h.composite
  have hgain := fun d => @gained_iff oldE newE d hold hnew
  have honly := hfollow.only
  have heach := hfollow.each
  have honce := hfollow.once
  rw [h.qualifiedTable_eq] at honly heach honce
  -- a constraint with the columns of one that is to be dropped is the one that is dropped
  have hlost : ∀ {n cols x}, c.uniqueAt (qualifiedTable newE) n = some cols → x ∈ lostUniques oldE newE →
      cols.Perm x.2 → n ∈ (lostUniques oldE newE).map Prod.fst := by
    intro n cols x hn hx hperm
    obtain ⟨cols', hfound, hperm'⟩ := hdrops.found x hx
    rw [honce n x.1 cols cols' hn hfound (hperm.trans hperm'.symm)]
    exact List.mem_map_of_mem hx
  -- and conversely, a dropped name belongs to columns that are to be dropped
  have hlostCols : ∀ {n cols}, c.uniqueAt (qualifiedTable newE) n = some cols →
      n ∈ (lostUniques oldE newE).map Prod.fst → ∃ x ∈ lostUniques oldE newE, cols.Perm x.2 := by
    intro n cols hn hin
    obtain ⟨x, hx, rfl⟩ := List.mem_map.mp hin
    obtain ⟨cols', hfound, hperm⟩ := hdrops.found x hx
    rw [hn] at hfound
    cases hfound
    exact ⟨x, hx, hperm⟩
  refine ⟨htbl', ?_, ?_, ?_, ?_⟩
  · intro n cols hn
    rcases (hstep n cols).mp hn with hgained | ⟨hbefore, _⟩
    · exact keyName_of_gained hgained
    · exact hnames n cols hbefore
  · intro n cols hn
    rcases (hstep n cols).mp hn with hgained | ⟨hbefore, hname, hcols⟩
    · exact ⟨cols, ((hgain cols).mp ⟨n, hgained⟩).1, .refl _⟩
    · obtain ⟨d, hd, hperm⟩ := honly n cols hbefore
      rcases declared_old hold hnew hd with ⟨d', hd', hperm'⟩ | ⟨m, hm⟩ | ⟨f, hf, hnone, hin⟩
      · exact ⟨d', hd', hperm.trans hperm'⟩
      · exact absurd (hlost hbefore hm hperm) hname
      · exact absurd (hperm.mem_iff.mpr hin) (hcols f hf hnone)
  · intro d hd
    by_cases hbefore : ∃ d₀ ∈ declaredUniques oldE, d.Perm d₀
    · obtain ⟨d₀, hd₀, hperm⟩ := hbefore
      obtain ⟨n, cols, hbefore, hperm₀⟩ := heach d₀ hd₀
      have hcols := hperm₀.trans hperm.symm
      refine ⟨n, cols, (hstep n cols).mpr (.inr ⟨hbefore, ?_, ?_⟩), hcols⟩
      · intro hin
        obtain ⟨x, hx, hpermx⟩ := hlostCols hbefore hin
        -- what is to be dropped is not declared now
        have hdeclared : ∃ d ∈ declaredUniques newE, x.2.Perm d := ⟨d, hd, hpermx.symm.trans hcols⟩
        obtain ⟨n, cols⟩ := x
        rcases mem_lostUniques.mp hx with ⟨f, hf, hu, _, rfl, rfl⟩ | ⟨u, hu, hnot, rfl, rfl⟩
        · have hfn : fieldByName newE f.name = some f := lastWith_of_nodup hnew.1 hf
          rw [declared_singleton hnew] at hdeclared
          simp [hfn, hu] at hdeclared
        · rw [declared_composite (hold.2 u hu)] at hdeclared
          obtain ⟨u', hu', hperm⟩ := hdeclared
          exact hnot u' hu' hperm.symm
      · intro f _ hnone hin
        exact h.declared_columns hd (hcols.mem_iff.mp hin) hnone
    · obtain ⟨n, hgained⟩ := (hgain d).mpr ⟨hd, hbefore⟩
      exact ⟨n, d, (hstep n d).mpr (.inl hgained), .refl _⟩
  · intro n n' cols cols' hn hn' hperm
    have hnew : ∀ {n n' cols cols'}, (n, cols) ∈ gainedUniques oldE newE →
        c.uniqueAt (qualifiedTable newE) n' = some cols' → ¬ cols.Perm cols' := by
      intro n n' cols cols' hgained hbefore hp
      obtain ⟨d, hd, hpd⟩ := honly n' cols' hbefore
      exact ((hgain cols).mp ⟨n, hgained⟩).2 ⟨d, hd, hp.trans hpd⟩
    rcases (hstep n cols).mp hn with hgained | ⟨hbefore, _⟩ <;>
      rcases (hstep n' cols').mp hn' with hgained' | ⟨hbefore', _⟩
    · exact gained_once h.newValid h.newMem hplain' hgained hgained' hperm
    · exact absurd hperm (hnew hgained hbefore')
    · exact absurd hperm.symm (hnew hgained' hbefore)
    · exact honce n n' cols cols' hbefore hbefore' hperm

/-! ## The first schema -/

/-- An entity that has nothing yet. -/
def blank (e : Entity) : Entity := { e with fields := [], uniques := [] }

/-- When the table of an entity is created it gains all its unique constraints. -/
theorem mem_entityConstraints_unique (hplain : PlainUniques e) :
    (n, Constraint.unique cols) ∈ entityConstraints e ↔ (n, cols) ∈ gainedUniques (blank e) e := by
  rw [mem_gainedUniques]
  constructor
  · intro h
    cases entityConstraint_of_mem h with
    | unique f hf hunique _ => exact .inl ⟨f, hf, hunique, rfl, rfl, rfl⟩
    | composite u hu => exact .inr (.inr ⟨u, hu, nofun, rfl, rfl⟩)
  · unfold entityConstraints declared tableConstraints
    simp only [List.mem_append, List.mem_flatMap, List.mem_map]
    rintro (⟨f, hf, hunique, _, rfl, rfl⟩ | ⟨_, _, _, ⟨_, hg, _⟩, _⟩ | ⟨u, hu, _, rfl, rfl⟩)
    · refine .inl ⟨columnDecl f, ⟨f, hf, rfl⟩, ?_⟩
      simp [inlineConstraints, columnDecl, hunique, hplain.keys f hf hunique]
    · cases hg
    · exact .inr (.inl (.inr ⟨u, hu, rfl⟩))

/-- **The initial migration** leaves the unique constraints the entity declares. -/
theorem TableOf.uniquesFollow {ir : IR} {tbl : Table} (hvalid : Validated ir) (he : e ∈ ir.entities)
    (hplain : PlainUniques e) (htbl : c.tables (qualifiedTable e) = some tbl) (hof : TableOf e tbl) :
    KeyNames e c ∧ UniquesFollow e c := by
  have hat : ∀ n cols, c.uniqueAt (qualifiedTable e) n = some cols ↔ (n, cols) ∈ gainedUniques (blank e) e := by
    intro n cols
    rw [Catalog.uniqueAt_eq_some, Catalog.get_of_table htbl, ← mem_entityConstraints_unique hplain, ← hof.constraints]
    simp [Table.get]
  obtain ⟨_, _, hnames, _, hlen⟩ := hvalid.lowered he
  have hgain := fun d => @gained_iff (blank e) e d ⟨.nil, fun _ h => absurd h List.not_mem_nil⟩ ⟨hnames, hlen⟩
  refine ⟨fun n cols hn => keyName_of_gained ((hat n cols).mp hn), ?_, ?_, ?_⟩
  · intro n cols hn
    exact ⟨cols, ((hgain cols).mp ⟨n, (hat n cols).mp hn⟩).1, .refl _⟩
  · intro d hd
    have hnone : ¬ ∃ d₀ ∈ declaredUniques (blank e), d.Perm d₀ := by
      rintro ⟨d₀, hd₀, -⟩
      exact absurd hd₀ List.not_mem_nil
    obtain ⟨n, hgained⟩ := (hgain d).mpr ⟨hd, hnone⟩
    exact ⟨n, d, (hat n d).mpr hgained, .refl _⟩
  · intro n n' cols cols' hn hn' hperm
    exact gained_once hvalid he hplain ((hat n cols).mp hn) ((hat n' cols').mp hn') hperm

/-! ## Histories -/

/-- The catalogs a history of schemas leads to: the initial migration of the first, then the migration from
    each schema to the next. The entity is there throughout, in its table; `Start` and `Step` restrict the
    first schema and the steps. -/
inductive Applied (mentions : String → String → Bool) (id table : String) (Start : IR → Prop)
    (Step : IR → IR → Catalog → Prop) : IR → Catalog → Prop where
  | initial {ir : IR} {e : Entity} {stmts : List Stmt} {c : Catalog} : Validated ir → entityByID ir id = some e →
      e.tableName = table → emitInitial ir = .ok stmts → run mentions stmts Catalog.empty = .ok c → Start ir →
      Applied mentions id table Start Step ir c
  | migrate {ir ir' : IR} {e' : Entity} {c c' : Catalog} (ctx : DiffCtx) (ord : RangeOrder) :
      Applied mentions id table Start Step ir c → Validated ir' → entityByID ir' id = some e' → e'.tableName = table →
      run mentions (emitUp ir ir' (ComputeDiff ctx ord ir ir')) c = .ok c' → Step ir ir' c →
      Applied mentions id table Start Step ir' c'

/-- Every entity has a table of its own, and the entity declares no uniqueness twice. -/
structure SoundSchema (id : String) (ir : IR) : Prop where
  apart : TablesApart ir
  plain : ∀ e, entityByID ir id = some e → PlainUniques e

/-- And the step finds what it means to drop. -/
structure SoundStep (id : String) (ir ir' : IR) (c : Catalog) : Prop where
  schema : SoundSchema id ir'
  drops : ∀ e e', entityByID ir id = some e → entityByID ir' id = some e' → DropsFound e e' c

/-- What the proof carries along a history. -/
structure HistoryInv (id table : String) (ir : IR) (c : Catalog) (e : Entity) : Prop where
  valid : Validated ir
  byID : entityByID ir id = some e
  table : e.tableName = table
  apart : TablesApart ir
  plain : PlainUniques e
  there : (c.tables (qualifiedTable e)).isSome
  names : KeyNames e c
  follow : UniquesFollow e c

theorem historyInv {mentions : String → String → Bool} {table : String} {ir : IR}
    (h : Applied mentions id table (SoundSchema id) (SoundStep id) ir c) : ∃ e, HistoryInv id table ir c e := by
  induction h with
  | @initial ir e stmts c hvalid hbyID htable hemit hrun hstart =>
    obtain ⟨hmem, _⟩ := entityByID_mem hbyID
    obtain ⟨htables, _⟩ := emitInitial_inv hvalid hstart.apart hemit hrun
    obtain ⟨tbl, htbl, hof⟩ := htables.each e hmem
    have hplain := hstart.plain e hbyID
    obtain ⟨hnames, hfollow⟩ := hof.uniquesFollow hvalid hmem hplain htbl
    exact ⟨e, hvalid, hbyID, htable, hstart.apart, hplain, by rw [htbl]; rfl, hnames, hfollow⟩
  | @migrate ir ir' e' c c' ctx ord _ hvalid hbyID htable hrun hstep ih =>
    obtain ⟨e, hinv⟩ := ih
    obtain ⟨hmem, hid⟩ := entityByID_mem hinv.byID
    obtain ⟨hmem', hid'⟩ := entityByID_mem hbyID
    have hstays : Stays ir ir' e e' := ⟨⟨hinv.valid, hvalid, hmem, hmem', hid.trans hid'.symm⟩,
      hinv.table.trans htable.symm, hinv.apart, hstep.schema.apart⟩
    have hplain := hstep.schema.plain e' hbyID
    have hthere := hinv.there
    have hnames := hinv.names
    unfold KeyNames at hnames
    rw [hstays.qualifiedTable_eq] at hthere hnames
    obtain ⟨hthere', hnames', hfollow'⟩ := hstays.uniquesFollow hthere hnames hinv.plain hplain
      (hstep.drops e e' hinv.byID hbyID) hinv.follow hrun
    exact ⟨e', hvalid, hbyID, htable, hstep.schema.apart, hplain, hthere', hnames', hfollow'⟩

/-- **Unique constraints follow the schema over whole histories** in which every step finds what it means to
    drop under the name it drops. -/
theorem uniquesFollow_of_applied {mentions : String → String → Bool} {id table : String} {ir : IR} {c : Catalog}
    {e : Entity} (h : Applied mentions id table (SoundSchema id) (SoundStep id) ir c) (he : entityByID ir id = some e) :
    UniquesFollow e c := by
  obtain ⟨e', hinv⟩ := historyInv h
  have heq : e' = e := Option.some.inj (hinv.byID.symm.trans he)
  rw [← heq]
  exact hinv.follow

/-! ## Where they do not -/

/-- Seats, in the given table, with the given uniqueness. -/
def seats (table : String) (codeUnique : Bool) (uniques : List UniqueSpec) : Entity where
  name := "Seat"
  namespace_ := "shop"
  fields := [idField, { name := "code", type := .simple "text", unique := codeUnique },
    { name := "line", type := .simple "int" }, { name := "place", type := .simple "int" }]
  uniques := uniques
  tableName := table

/-- The migration between two versions of the seats. -/
def seatsUp (old new : Entity) : List Stmt := emitUp ⟨[old]⟩ ⟨[new]⟩ (ComputeDiff {} insertionOrder ⟨[old]⟩ ⟨[new]⟩)

/-- The initial migration of the seats. -/
def seatsInitial (e : Entity) : List Stmt :=
  .createSchema "atlantis" :: (foreignSchemas [e]).map .createSchema ++ emitEntityCreate e

/-- What a script leads to. -/
def seatsRun (stmts : List Stmt) (c : Catalog) : Except Err Catalog := run (fun _ _ => false) stmts c

/-- **Constraints that stay behind**: a composite unique that was listed in another order before it was
    removed, and a column made non-unique in a table with a name of its own. -/
theorem uniques_stay_behind :
    (∃ c, Applied (fun _ _ => false) "shop.Seat" "" (fun _ => True) (fun _ _ _ => True) ⟨[seats "" false []]⟩ c ∧
      ¬ UniquesFollow (seats "" false []) c) ∧
    ∃ c, Applied (fun _ _ => false) "shop.Seat" "legacy.seats" (fun _ => True) (fun _ _ _ => True)
        ⟨[seats "legacy.seats" false []]⟩ c ∧ ¬ UniquesFollow (seats "legacy.seats" false []) c := by
  -- what is left is not declared
  have hleft : ∀ {table n cols c}, c.uniqueAt (qualifiedTable (seats table false [])) n = some cols →
      ¬ UniquesFollow (seats table false []) c := by
    intro table n cols c hn hfollow
    obtain ⟨d, hd, _⟩ := hfollow.only n cols hn
    cases hd
  constructor
  · obtain ⟨c₀, h₀, c₁, h₁, c₂, h₂, hn⟩ :
        ∃ c₀, seatsRun (seatsInitial (seats "" false [⟨["line", "place"]⟩])) Catalog.empty = .ok c₀ ∧
        ∃ c₁, seatsRun (seatsUp (seats "" false [⟨["line", "place"]⟩]) (seats "" false [⟨["place", "line"]⟩])) c₀ = .ok c₁ ∧
        ∃ c₂, seatsRun (seatsUp (seats "" false [⟨["place", "line"]⟩]) (seats "" false [])) c₁ = .ok c₂ ∧
          c₂.uniqueAt (qualifiedTable (seats "" false [])) "shop_seat_line_place_key" = some ["line", "place"] := by
      decide +kernel
    refine ⟨c₂, ?_, hleft hn⟩
    refine Applied.migrate {} insertionOrder ?_ (by decide +kernel) rfl rfl h₂ trivial
    refine Applied.migrate {} insertionOrder ?_ (by decide +kernel) rfl rfl h₁ trivial
    exact .initial (by decide +kernel) rfl rfl (by decide +kernel) h₀ trivial
  · obtain ⟨c₀, h₀, c₁, h₁, hn⟩ : ∃ c₀, seatsRun (seatsInitial (seats "legacy.seats" true [])) Catalog.empty = .ok c₀ ∧
        ∃ c₁, seatsRun (seatsUp (seats "legacy.seats" true []) (seats "legacy.seats" false [])) c₀ = .ok c₁ ∧
          c₁.uniqueAt (qualifiedTable (seats "legacy.seats" false [])) "seats_code_key" = some ["code"] := by
      decide +kernel
    refine ⟨c₁, ?_, hleft hn⟩
    refine Applied.migrate {} insertionOrder ?_ (by decide +kernel) rfl rfl h₁ trivial
    exact .initial (by decide +kernel) rfl rfl (by decide +kernel) h₀ trivial

theorem soundSchema_single {e : Entity} (h : PlainUniques e) : SoundSchema id ⟨[e]⟩ where
  apart := List.pairwise_singleton ..
  plain := by
    intro e' he'
    rw [List.mem_singleton.mp (entityByID_mem he').1]
    exact h

/-- In a table with the computed name, a unique column and a composite unique go as they came. -/
theorem uniquesFollow_of_applied_seats :
    ∃ c, Applied (fun _ _ => false) "shop.Seat" "" (SoundSchema "shop.Seat") (SoundStep "shop.Seat")
        ⟨[seats "" false []]⟩ c ∧ UniquesFollow (seats "" false []) c := by
  let old := seats "" true [⟨["line", "place"]⟩]
  obtain ⟨c₀, h₀, c₁, h₁, hfound⟩ : ∃ c₀, seatsRun (seatsInitial old) Catalog.empty = .ok c₀ ∧
      ∃ c₁, seatsRun (seatsUp old (seats "" false [])) c₀ = .ok c₁ ∧
      ∀ x ∈ lostUniques old (seats "" false []), ∃ cols, c₀.uniqueAt (qualifiedTable (seats "" false [])) x.1 = some cols ∧
        cols.Perm x.2 := by
    decide +kernel
  have happlied : Applied (fun _ _ => false) "shop.Seat" "" (SoundSchema "shop.Seat") (SoundStep "shop.Seat")
      ⟨[seats "" false []]⟩ c₁ := by
    refine Applied.migrate {} insertionOrder (.initial (by decide +kernel) rfl rfl (by decide +kernel) h₀
      (soundSchema_single ⟨by decide +kernel, List.pairwise_singleton ..⟩)) (by decide +kernel) rfl rfl h₁ ?_
    refine ⟨soundSchema_single ⟨by decide +kernel, .nil⟩, ?_⟩
    intro e e' he he'
    rw [List.mem_singleton.mp (entityByID_mem he).1, List.mem_singleton.mp (entityByID_mem he').1]
    exact ⟨hfound, by decide +kernel⟩
  exact ⟨c₁, happlied, uniquesFollow_of_applied happlied rfl⟩

end Atlantis.Codegen
