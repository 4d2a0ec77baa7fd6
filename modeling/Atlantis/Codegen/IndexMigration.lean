import Atlantis.Codegen.Emission
import Atlantis.Lib.Fold

/-!
# `Codegen.IndexMigration` — when index migrations converge

The diff tells indexes apart by `indexKey`, the database by `indexName`, and the second sees less: direction,
predicate and operator class are in the key but not in the name. For one entity the script first creates
the added indexes — a no-op where the name is taken — and then drops the removed ones, by name.

So the outcome is a matter of names. `IndexesSettle` says which names must not meet, and
`indexStmts_converge_iff` that nothing else matters: the catalog ends up with exactly the new indexes if and
only if the names are apart.
-/

namespace Atlantis.Codegen

open Schema Pg

/-- The change adds or removes an index. -/
def ChangeKind.isIndex : ChangeKind → Bool
  | .indexAdded _ => true
  | .indexRemoved _ => true
  | _ => false

/-- The index statements of one entity, in the order the up script has them. -/
def indexStmts (oldIR newIR : IR) (d : Diff) (id : String) : List Stmt :=
  ((emissionOrder newIR d).filter fun ch => ch.kind.isIndex && ch.entityID == id).flatMap
    fun ch => (emitChange newIR oldIR ch).up

/-- The catalog holds exactly the indexes of `e`. -/
def HoldsIndexes (e : Entity) (ix : Indexes) : Prop :=
  ∀ s n x, ix s n = some x ↔
    s = entitySchema e ∧ ∃ idx ∈ e.indexes, indexName e idx = n ∧ x = (qualifiedTable e, indexBody idx)

/-- The removed indexes, in no particular order. -/
def dropped (oldE newE : Entity) : List Index :=
  (mapValues indexKey oldE.indexes).filter fun idx => !(newE.indexes.map indexKey).contains (indexKey idx)

/-- **The names are apart**: no new index carries the name of a removed one; an old and a new index of one
    name, or two new ones, are the same index; and every index, old or new, is accounted for under its name by
    an index of the other side or by one that is removed or added. -/
structure IndexesSettle (oldE newE : Entity) : Prop where
  notDropped : ∀ i ∈ newE.indexes, ∀ r ∈ dropped oldE newE, indexName newE r ≠ indexName newE i
  kept : ∀ i ∈ newE.indexes, ∀ o ∈ oldE.indexes, indexName newE o = indexName newE i → indexBody o = indexBody i
  apart : ∀ i ∈ newE.indexes, ∀ j ∈ newE.indexes, indexName newE i = indexName newE j → indexBody i = indexBody j
  reached : ∀ i ∈ newE.indexes, (∃ o ∈ oldE.indexes, indexName newE o = indexName newE i) ∨
    ∃ a ∈ dropped newE oldE, indexName newE a = indexName newE i
  cleared : ∀ o ∈ oldE.indexes, (∃ i ∈ newE.indexes, indexName newE i = indexName newE o) ∨
    ∃ r ∈ dropped oldE newE, indexName newE r = indexName newE o

/-! ## The script of one entity -/

variable {ctx : DiffCtx} {ord : RangeOrder} {oldIR newIR : IR} {oldE newE : Entity}

theorem mem_addedIndexes {idx : Index} : idx ∈ addedIndexes ord oldE newE ↔ idx ∈ dropped newE oldE := by
  unfold addedIndexes dropped
  rw [List.mem_filter, List.mem_filter, (ord.perm _ _).mem_iff]

theorem mem_removedIndexes {idx : Index} : idx ∈ removedIndexes ord oldE newE ↔ idx ∈ dropped oldE newE := by
  unfold removedIndexes dropped
  rw [List.mem_filter, List.mem_filter, (ord.perm _ _).mem_iff]

theorem FieldDelta.isIndex {oldF newF : Field} {kind : ChangeKind} {cls : ChangeClass}
    (h : FieldDelta oldF newF kind cls) : kind.isIndex = false := by
  cases h <;> rfl

/-- Index changes come from `diffIndexes` alone, and they are additive. -/
theorem filter_diffEntity_isIndex (cls : ChangeClass) :
    ((diffEntity ctx ord oldE newE).filter (·.cls = cls)).filter (fun ch => ch.kind.isIndex && ch.entityID == newE.id)
      = if cls = .additive then diffIndexes ord oldE newE else [] := by
  have hnone : ∀ {l : List Change}, (∀ ch ∈ l, ch.kind.isIndex = false) →
      (l.filter (·.cls = cls)).filter (fun ch => ch.kind.isIndex && ch.entityID == newE.id) = [] := by
    intro l h
    rw [List.filter_filter, List.filter_eq_nil_iff]
    intro ch hch
    simp [h ch hch]
  have hfields : ∀ ch ∈ diffFields ctx oldE newE, ch.kind.isIndex = false := by
    intro ch hch
    obtain ⟨name, _, h⟩ := List.mem_flatMap.mp hch
    unfold diffFieldNamed at h
    split at h
    · rw [List.mem_singleton.mp h]
      rfl
    · unfold diffFieldAdded at h
      rcases List.mem_cons.mp h with rfl | h
      · rfl
      · rw [(List.mem_ite_nil_right.mp h).2 |> List.mem_singleton.mp]
        rfl
    · exact (mem_diffField h).1.isIndex
    · cases h
  have htable : ∀ ch ∈ diffTableName oldE newE, ch.kind.isIndex = false := by
    unfold diffTableName; split <;> simp [ChangeKind.isIndex]
  have huniques : ∀ ch ∈ diffUniques ord oldE newE, ch.kind.isIndex = false := by
    unfold diffUniques
    simp +contextual [or_imp, forall_and, ChangeKind.isIndex]
  have htimeout : ∀ ch ∈ diffQueryTimeout oldE newE, ch.kind.isIndex = false := by
    unfold diffQueryTimeout; split <;> simp [ChangeKind.isIndex]
  unfold diffEntity
  simp only [List.filter_append, hnone htable, hnone hfields, hnone huniques, hnone htimeout, List.nil_append,
    List.append_nil]
  unfold diffIndexes
  cases cls <;> simp [List.filter_map, Function.comp_def, ChangeKind.isIndex]

/-- **The script**: create what is added, then drop what is removed. -/
theorem indexStmts_eq (ho : entityByID oldIR newE.id = some oldE) (hn : entityByID newIR newE.id = some newE) :
    indexStmts oldIR newIR (ComputeDiff ctx ord oldIR newIR) newE.id
      = (addedIndexes ord oldE newE).map (emitIndexCreate newE)
        ++ (removedIndexes ord oldE newE).map (emitIndexDrop newE) := by
  have hdiff : diffID ctx ord oldIR newIR newE.id = diffEntity ctx ord oldE newE := by
    unfold diffID
    rw [ho, hn]
  have hp : ∀ ch : Change, (ch.kind.isIndex && ch.entityID == newE.id) = true →
      ch.kind ≠ .entityAdded ∧ ch.entityID = newE.id := by
    intro ch h
    rw [Bool.and_eq_true, beq_iff_eq] at h
    refine ⟨fun hk => ?_, h.2⟩
    rw [hk] at h
    exact absurd h.1 (by simp [ChangeKind.isIndex])
  unfold indexStmts
  rw [filter_emissionOrder hp, hdiff, filter_diffEntity_isIndex, filter_diffEntity_isIndex, filter_diffEntity_isIndex,
    if_pos rfl, if_neg (by decide), if_neg (by decide), List.append_nil, List.append_nil]
  unfold diffIndexes
  rw [List.flatMap_append, List.flatMap_map, List.flatMap_map]
  simp only [emitChange, hn, ho, withEntity, Option.or, ← List.map_eq_flatMap]

/-! ## What it does -/

variable {ix : Indexes} {s n : String}

/-- Creating indexes of the entity: a name keeps what it has, or takes the first index that wants it. -/
theorem run_create (is : List Index) :
    ix.run (is.map (emitIndexCreate newE)) s n
      = (ix s n).or (if s = entitySchema newE then
          (is.find? fun i => indexName newE i = n).map fun i => (qualifiedTable newE, indexBody i) else none) := by
  have hstmts : is.map (emitIndexCreate newE)
      = (is.map fun i => (qualifiedTable newE, indexName newE i, indexBody i)).map
        fun a => .createIndex a.1 a.2.1 a.2.2 := by
    rw [List.map_map]
    rfl
  have hschema : (qualifiedTable newE).schema = entitySchema newE := rfl
  rw [hstmts, Indexes.run_creates, List.find?_map, Option.map_map]
  congr 1
  by_cases hs : s = entitySchema newE
  · rw [if_pos hs]
    simp only [Function.comp_def, hschema, hs, true_and]
  · have hne : ¬ entitySchema newE = s := fun h => hs h.symm
    simp [Function.comp_def, hschema, hs, hne]

/-- Dropping indexes clears their names. -/
theorem run_drop (is : List Index) :
    ix.run (is.map (emitIndexDrop newE)) s n
      = if s = entitySchema newE ∧ ∃ i ∈ is, indexName newE i = n then none else ix s n := by
  induction is generalizing ix with
  | nil => simp [Indexes.run]
  | cons i is ih =>
    show (ix.erase (entitySchema newE) (indexName newE i)).run _ s n = _
    rw [ih]
    unfold Indexes.erase
    by_cases hs : s = entitySchema newE
    · by_cases hname : n = indexName newE i
      · simp [hs, hname]
      · have hne : ¬ indexName newE i = n := fun h => hname h.symm
        simp [hs, hname, hne]
    · simp [hs]

/-- An index names no other columns in the database. -/
theorem columns_indexBody (idx : Index) : (indexBody idx).columns = idx.plainColumns := by
  have hlist : ∀ fields : List IndexField,
      (indexFieldList fields).filterMap (fun i => if i.isExpr then none else some i.text)
        = (fields.filter (!·.isExpr)).map IndexField.name := by
    intro fields
    induction fields with
    | nil => rfl
    | cons f fields ih =>
      unfold indexFieldList at ih ⊢
      cases hf : f.isExpr <;> simp [hf, ih]
  cases idx with
  | btree fields => exact hlist fields
  | partialBtree fields filter unique => exact hlist fields
  | hnsw field ops => rfl
  | gin field => rfl

/-- The table of `e` is there, with the columns of `e`. -/
def HasColumns (e : Entity) (c : Catalog) : Prop :=
  ∃ tbl, c.tables (qualifiedTable e) = some tbl ∧ ∀ f ∈ e.fields, (tbl.columns f.name).isSome

section Converge

variable {script : List Stmt}
  (hscript : script = (addedIndexes ord oldE newE).map (emitIndexCreate newE)
    ++ (removedIndexes ord oldE newE).map (emitIndexDrop newE))

include hscript

/-- The catalog after the script, name by name. -/
theorem run_indexStmts (s n : String) : ix.run script s n
      = if s = entitySchema newE ∧ ∃ r ∈ dropped oldE newE, indexName newE r = n then none
        else (ix s n).or (if s = entitySchema newE then
          ((addedIndexes ord oldE newE).find? fun i => indexName newE i = n).map
            fun i => (qualifiedTable newE, indexBody i) else none) := by
  rw [hscript, Indexes.run_append, run_drop, run_create]
  simp only [mem_removedIndexes]

variable (hname : tableName oldE = tableName newE) (htable : qualifiedTable oldE = qualifiedTable newE)
  (hix : HoldsIndexes oldE ix)

include hname htable hix

omit hscript in
/-- The old catalog under the names and the table of the new entity. -/
theorem holds_old (s n : String) (x : TableRef × IndexBody) : ix s n = some x ↔
    s = entitySchema newE ∧ ∃ o ∈ oldE.indexes, indexName newE o = n ∧ x = (qualifiedTable newE, indexBody o) := by
  have hschema : entitySchema oldE = entitySchema newE := congrArg TableRef.schema htable
  rw [hix s n x, hschema, htable]
  simp only [indexName_congr hname]

/-- Where the catalog converges, the names are apart. -/
theorem settle_of_converge (h : HoldsIndexes newE (ix.run script)) : IndexesSettle oldE newE := by
  have hold := holds_old hname htable hix
  -- a new index is there, so nothing of its name was dropped
  have hpresent : ∀ i ∈ newE.indexes, (¬ ∃ r ∈ dropped oldE newE, indexName newE r = indexName newE i) ∧
      (ix (entitySchema newE) (indexName newE i)).or
        (((addedIndexes ord oldE newE).find? fun a => indexName newE a = indexName newE i).map
          fun a => (qualifiedTable newE, indexBody a)) = some (qualifiedTable newE, indexBody i) := by
    intro i hi
    have hthere := (h (entitySchema newE) (indexName newE i) _).mpr ⟨rfl, i, hi, rfl, rfl⟩
    rw [run_indexStmts hscript] at hthere
    split at hthere
    · cases hthere
    · rename_i hnot
      exact ⟨fun hr => hnot ⟨rfl, hr⟩, by simpa using hthere⟩
  refine ⟨?_, ?_, ?_, ?_, ?_⟩
  · intro i hi r hr heq
    exact (hpresent i hi).1 ⟨r, hr, heq⟩
  · intro i hi o hoi heq
    have hthere := (hpresent i hi).2
    rw [(hold _ _ _).mpr ⟨rfl, o, hoi, heq, rfl⟩] at hthere
    exact (Prod.mk.inj (Option.some.inj hthere)).2
  · intro i hi j hj heq
    have hthere := (hpresent i hi).2
    rw [heq, (hpresent j hj).2] at hthere
    exact (Prod.mk.inj (Option.some.inj hthere)).2.symm
  · intro i hi
    cases hxi : ix (entitySchema newE) (indexName newE i) with
    | some x =>
      obtain ⟨_, o, hoi, heq, _⟩ := (hold _ _ _).mp hxi
      exact .inl ⟨o, hoi, heq⟩
    | none =>
      have hthere := (hpresent i hi).2
      rw [hxi, Option.none_or, Option.map_eq_some_iff] at hthere
      obtain ⟨a, ha, _⟩ := hthere
      refine .inr ⟨a, mem_addedIndexes.mp (List.mem_of_find?_eq_some ha), ?_⟩
      simpa using List.find?_some ha
  · intro o hoi
    by_cases hr : ∃ r ∈ dropped oldE newE, indexName newE r = indexName newE o
    · exact .inr hr
    · have hthere : ix.run script (entitySchema newE) (indexName newE o)
          = some (qualifiedTable newE, indexBody o) := by
        rw [run_indexStmts hscript, if_neg (fun hc => hr hc.2), (hold _ _ _).mpr ⟨rfl, o, hoi, rfl, rfl⟩,
          Option.some_or]
      obtain ⟨_, i, hi, heq, _⟩ := (h _ _ _).mp hthere
      exact .inl ⟨i, hi, heq⟩

/-- Where the names are apart, the catalog converges. -/
theorem converge_of_settle (hs : IndexesSettle oldE newE) : HoldsIndexes newE (ix.run script) := by
  have hold := holds_old hname htable hix
  intro s n x
  rw [run_indexStmts hscript]
  constructor
  · intro hx
    split at hx
    · cases hx
    rename_i hnot
    cases hxi : ix s n with
    | some y =>
      rw [hxi, Option.some_or] at hx
      cases hx
      obtain ⟨rfl, o, hoi, heq, rfl⟩ := (hold _ _ _).mp hxi
      rcases hs.cleared o hoi with ⟨i, hi, hio⟩ | ⟨r, hr, hro⟩
      · refine ⟨rfl, i, hi, hio.trans heq, ?_⟩
        rw [hs.kept i hi o hoi hio.symm]
      · exact absurd ⟨rfl, r, hr, hro.trans heq⟩ hnot
    | none =>
      rw [hxi, Option.none_or] at hx
      split at hx
      · rename_i hschema
        obtain ⟨a, ha, rfl⟩ := Option.map_eq_some_iff.mp hx
        have hmem := mem_addedIndexes.mp (List.mem_of_find?_eq_some ha)
        refine ⟨hschema, a, mem_of_mem_mapValues (List.mem_filter.mp hmem).1, ?_, rfl⟩
        simpa using List.find?_some ha
      · cases hx
  · rintro ⟨rfl, i, hi, rfl, rfl⟩
    have hnot : ¬ (entitySchema newE = entitySchema newE ∧
        ∃ r ∈ dropped oldE newE, indexName newE r = indexName newE i) :=
      fun ⟨_, r, hr, heq⟩ => hs.notDropped i hi r hr heq
    rw [if_neg hnot, if_pos rfl]
    cases hxi : ix (entitySchema newE) (indexName newE i) with
    | some y =>
      obtain ⟨_, o, hoi, heq, rfl⟩ := (hold _ _ _).mp hxi
      rw [Option.some_or, hs.kept i hi o hoi heq]
    | none =>
      -- no old index has the name, so an added one does, and the first of them is this one
      rcases hs.reached i hi with ⟨o, hoi, heq⟩ | ⟨a, ha, heq⟩
      · rw [(hold _ _ _).mpr ⟨rfl, o, hoi, heq, rfl⟩] at hxi
        cases hxi
      · cases hfind : (addedIndexes ord oldE newE).find? fun a => indexName newE a = indexName newE i with
        | none =>
          have hnone := List.find?_eq_none.mp hfind a (mem_addedIndexes.mpr ha)
          exact absurd (by simpa using heq) hnone
        | some a' =>
          have hmem := mem_addedIndexes.mp (List.mem_of_find?_eq_some hfind)
          have heq' : indexName newE a' = indexName newE i := by simpa using List.find?_some hfind
          have hbody := hs.apart a' (mem_of_mem_mapValues (List.mem_filter.mp hmem).1) i hi heq'
          rw [Option.none_or, Option.map_some, hbody]

end Converge

/-- **Index migrations converge exactly when the names are apart**, for every order of the map ranges. -/
theorem indexStmts_converge_iff {mentions : String → String → Bool} {c : Catalog} (hold : Validated oldIR)
    (hnew : Validated newIR) (ho : oldE ∈ oldIR.entities) (hn : newE ∈ newIR.entities) (hid : oldE.id = newE.id)
    (htable : qualifiedTable oldE = qualifiedTable newE) (hcols : HasColumns newE c)
    (hix : HoldsIndexes oldE c.indexes) :
    (∃ c', run mentions (indexStmts oldIR newIR (ComputeDiff ctx ord oldIR newIR) newE.id) c = .ok c' ∧
      HoldsIndexes newE c'.indexes) ↔ IndexesSettle oldE newE := by
  have hname : tableName oldE = tableName newE := tableName_congr (hold.lowered ho) (hnew.lowered hn) hid
  have hbyOld : entityByID oldIR newE.id = some oldE := hid ▸ entityByID_of_mem hold ho
  have hbyNew : entityByID newIR newE.id = some newE := entityByID_of_mem hnew hn
  have hscript := @indexStmts_eq ctx ord oldIR newIR oldE newE hbyOld hbyNew
  generalize indexStmts oldIR newIR (ComputeDiff ctx ord oldIR newIR) newE.id = script at hscript ⊢
  have hconverge : HoldsIndexes newE (c.indexes.run script) ↔ IndexesSettle oldE newE :=
    ⟨settle_of_converge hscript hname htable hix, converge_of_settle hscript hname htable hix⟩
  -- with the new columns in place no statement of it fails
  have hrun : run mentions script c = .ok { c with indexes := c.indexes.run script } := by
    obtain ⟨tbl, htbl, hfields⟩ := hcols
    apply run_indexes
    intro s hs
    rw [hscript] at hs
    rcases List.mem_append.mp hs with h | h
    · obtain ⟨idx, hidx, rfl⟩ := List.mem_map.mp h
      refine .inl ⟨_, _, _, tbl, rfl, htbl, ?_⟩
      intro col hcol
      rw [columns_indexBody] at hcol
      have hadded := mem_of_mem_mapValues (List.mem_filter.mp (mem_addedIndexes.mp hidx)).1
      obtain ⟨f, hf, rfl⟩ := hnew.index_fields hn hadded hcol
      exact hfields f hf
    · obtain ⟨idx, _, rfl⟩ := List.mem_map.mp h
      exact .inr ⟨_, _, rfl⟩
  rw [hrun, ← hconverge]
  constructor
  · rintro ⟨c', hrun, hholds⟩
    cases hrun
    exact hholds
  · intro hholds
    exact ⟨_, rfl, hholds⟩

/-! ## Where they do not -/

/-- An order with the given indexes. -/
def orderEntity (indexes : List Index) : Entity where
  name := "Order"
  namespace_ := "shop"
  fields := [idField, { name := "created_at", type := .simple "timestamptz", notNull := true }]
  indexes := indexes

def createdAtIndex (desc : Bool) : Index := .btree [{ name := "created_at", desc := desc }]

/-- The catalog of `orderEntity` with its one index ascending. -/
def orderCatalog : Catalog where
  tables := fun t => if t = ⟨"atlantis", "shop_order"⟩ then
    some { Table.empty with columns := fun _ => some ⟨"BIGINT", true, none, false⟩ } else none
  indexes := fun s n => if s = "atlantis" ∧ n = "shop_order_created_at_idx" then
    some (⟨"atlantis", "shop_order"⟩, indexBody (createdAtIndex false)) else none
  functions := fun _ => none

theorem qualifiedTable_orderEntity (indexes : List Index) :
    qualifiedTable (orderEntity indexes) = ⟨"atlantis", "shop_order"⟩ := by
  show TableRef.mk "atlantis" (tableName (orderEntity [])) = _
  rw [show tableName (orderEntity []) = "shop_order" by decide +kernel]

theorem orderCatalog_hasColumns (indexes : List Index) : HasColumns (orderEntity indexes) orderCatalog := by
  unfold HasColumns
  rw [qualifiedTable_orderEntity]
  exact ⟨_, rfl, fun f _ => rfl⟩

theorem orderCatalog_holdsIndexes :
    HoldsIndexes (orderEntity [createdAtIndex false]) orderCatalog.indexes := by
  intro s n x
  have hschema : entitySchema (orderEntity [createdAtIndex false]) = "atlantis" := rfl
  have hname : indexName (orderEntity [createdAtIndex false]) (createdAtIndex false)
      = "shop_order_created_at_idx" := by decide +kernel
  rw [hschema, qualifiedTable_orderEntity]
  have hmem : ∀ idx, idx ∈ (orderEntity [createdAtIndex false]).indexes ↔ idx = createdAtIndex false :=
    fun idx => List.mem_singleton
  simp only [hmem, exists_eq_left, hname]
  unfold orderCatalog
  by_cases h : s = "atlantis" ∧ n = "shop_order_created_at_idx"
  · simp [h, eq_comm]
  · simp only [if_neg h, reduceCtorEq, false_iff]
    exact fun hx => h ⟨hx.1, hx.2.1.symm⟩

/-- Turning an index around loses it: the new one is not created, since the name is taken, and then the old
    one is dropped. -/
theorem indexStmts_lose_reversed_index :
    Validated ⟨[orderEntity [createdAtIndex false]]⟩ ∧ Validated ⟨[orderEntity [createdAtIndex true]]⟩ ∧
    HoldsIndexes (orderEntity [createdAtIndex false]) orderCatalog.indexes ∧
    HasColumns (orderEntity [createdAtIndex true]) orderCatalog ∧
    ∃ c', run (fun _ _ => false)
        (indexStmts ⟨[orderEntity [createdAtIndex false]]⟩ ⟨[orderEntity [createdAtIndex true]]⟩
          (ComputeDiff {} insertionOrder ⟨[orderEntity [createdAtIndex false]]⟩ ⟨[orderEntity [createdAtIndex true]]⟩)
          "shop.Order") orderCatalog = .ok c' ∧
      c'.indexes "atlantis" "shop_order_created_at_idx" = none ∧
      ¬ HoldsIndexes (orderEntity [createdAtIndex true]) c'.indexes := by
  have hlost : ∀ c' : Catalog, c'.indexes "atlantis" "shop_order_created_at_idx" = none →
      ¬ HoldsIndexes (orderEntity [createdAtIndex true]) c'.indexes := by
    intro c' hgone hholds
    have hthere := (hholds "atlantis" "shop_order_created_at_idx" _).mpr
      ⟨rfl, createdAtIndex true, List.mem_singleton.mpr rfl, by decide +kernel, rfl⟩
    cases hgone.symm.trans hthere
  simp only [and_iff_left_of_imp (hlost _)]
  exact ⟨by decide +kernel, by decide +kernel, orderCatalog_holdsIndexes, orderCatalog_hasColumns _, by decide +kernel⟩

/-- The entity with a second index, under a name of its own. -/
def orderEntityTwo : Entity := orderEntity [createdAtIndex false, .btree [{ name := "id" }]]

/-- The second index arrives and the first one stays. -/
theorem indexStmts_converge_iff_second_index :
    IndexesSettle (orderEntity [createdAtIndex false]) orderEntityTwo ∧
    ∃ c', run (fun _ _ => false)
        (indexStmts ⟨[orderEntity [createdAtIndex false]]⟩ ⟨[orderEntityTwo]⟩
          (ComputeDiff {} insertionOrder ⟨[orderEntity [createdAtIndex false]]⟩ ⟨[orderEntityTwo]⟩)
          orderEntityTwo.id) orderCatalog = .ok c' ∧
      HoldsIndexes orderEntityTwo c'.indexes := by
  have hsettle : IndexesSettle (orderEntity [createdAtIndex false]) orderEntityTwo :=
    ⟨by decide +kernel, by decide +kernel, by decide +kernel, by decide +kernel, by decide +kernel⟩
  have hold : Validated ⟨[orderEntity [createdAtIndex false]]⟩ := by decide +kernel
  have hnew : Validated ⟨[orderEntityTwo]⟩ := by decide +kernel
  have hcols : HasColumns orderEntityTwo orderCatalog := orderCatalog_hasColumns _
  have hmem : orderEntityTwo ∈ (IR.mk [orderEntityTwo]).entities := List.mem_singleton.mpr rfl
  refine ⟨hsettle, ?_⟩
  apply (indexStmts_converge_iff hold hnew (List.mem_singleton.mpr rfl) hmem rfl rfl hcols
    orderCatalog_holdsIndexes).mpr
  exact hsettle

end Atlantis.Codegen
