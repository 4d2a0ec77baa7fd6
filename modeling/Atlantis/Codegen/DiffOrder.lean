import Atlantis.Codegen.Creation
import Atlantis.Codegen.Script
import Atlantis.Lib.Reorder

/-!
# `Codegen.DiffOrder` — added entities where the diff has them

The up script creates the added entities first, each after those it references. The diff has its changes by entity
ID. An added entity can be created later than the up script does it: its creation changes nothing but what stands under
its names (`Codegen.Creation`), and every other change keeps off them (`UpStmt.spares`). Only a change that adds a foreign
key to the new table has to come after it.

So a script that runs as emitted also runs in the order of the diff, to the same catalog, if no new reference points
from an entity to an added one with a later ID (`diffOrder_of_emissionOrder`).
-/

namespace Atlantis.Codegen

open Schema Pg Lib

/-- The old schema has the field. -/
def hadField (old : IR) (e : Entity) (name : String) : Bool :=
  (entityByID old e.id).any fun oldE => (oldE.fields.map Field.name).contains name

theorem Versions.hadField_eq_false {old new : IR} {oldE newE : Entity} {name : String}
    (hv : Versions old new oldE newE) : hadField old newE name = false ↔ name ∉ oldE.fields.map Field.name := by
  unfold hadField
  rw [hv.oldByID]
  simp

/-- **No new reference looks ahead**: none goes from an entity to an added one with a later ID. -/
def OrderFits (old new : IR) : Prop :=
  ∀ e ∈ new.entities, ∀ f ∈ e.fields, hadField old e f.name = false → ∀ r ∈ f.ref,
    entityByID old r.targetID = none → r.targetID ≤ e.id

instance (old new : IR) : Decidable (OrderFits old new) := by
  unfold OrderFits
  exact inferInstance

/-- Different entities live in different tables, and those that are added take names of their own. -/
@[mk_iff]
structure AddsApart (old new : IR) (c : Catalog) : Prop where
  tables : ∀ a ∈ old.entities ++ new.entities, ∀ b ∈ old.entities ++ new.entities, a.id ≠ b.id →
    qualifiedTable a ≠ qualifiedTable b
  indexes : ∀ e ∈ new.entities, entityByID old e.id = none → ∀ b ∈ old.entities ++ new.entities, b.id ≠ e.id →
    ∀ i ∈ e.indexes, ∀ j ∈ b.indexes, indexName e i ≠ indexName b j
  functions : ∀ e ∈ new.entities, entityByID old e.id = none → ∀ b ∈ old.entities ++ new.entities, b.id ≠ e.id →
    triggerName e "touch_fn" ≠ triggerName b "touch_fn"
  free : ∀ e ∈ new.entities, entityByID old e.id = none → (footprint e).Free c

instance (old new : IR) (c : Catalog) : Decidable (AddsApart old new c) :=
  decidable_of_iff' _ (addsApart_iff old new c)

/-! ## Other changes keep off -/

variable {ctx : DiffCtx} {ord : RangeOrder} {old new : IR} {mentions : String → String → Bool} {c c' : Catalog}
  {ch : Change} {s : Stmt} {e b : Entity}

theorem AddsApart.id_of_table (h : AddsApart old new c) (ha : e ∈ old.entities ++ new.entities)
    (hb : b ∈ old.entities ++ new.entities) (heq : qualifiedTable e = qualifiedTable b) : e.id = b.id := by
  by_contra hne
  exact h.tables e ha b hb hne heq

theorem footprint_function (h : AddsApart old new c) (he : e ∈ new.entities) (hadded : entityByID old e.id = none)
    (hb : b ∈ old.entities ++ new.entities) (hne : b.id ≠ e.id) :
    triggerName b "touch_fn" ∉ (footprint e).functions := by
  show _ ∉ if _ then _ else _
  split
  · simp
  · simpa using (h.functions e he hadded b hb hne).symm

theorem footprint_index (h : AddsApart old new c) (he : e ∈ new.entities) (hadded : entityByID old e.id = none)
    (hb : b ∈ old.entities ++ new.entities) (hne : b.id ≠ e.id) {idx : Index} (hidx : idx ∈ b.indexes) {schema : String} :
    (schema, indexName b idx) ∉ (footprint e).indexes := by
  intro hmem
  obtain ⟨i, hi, heq⟩ := List.mem_map.mp hmem
  exact h.indexes e he hadded b hb hne i hi idx hidx (Prod.mk.inj heq).2

/-- **Every other change keeps off the names of an added entity**, and drops nothing it references. -/
theorem UpStmt.spares (h : AddsApart old new c) (hnew : Validated new) (hs : UpStmt old new ch s)
    (he : e ∈ new.entities) (hadded : entityByID old e.id = none) (hne : ch.entityID ≠ e.id) :
    s.Spares (footprint e) := by
  have heAll : e ∈ old.entities ++ new.entities := List.mem_append_right _ he
  -- an entity with the ID of the change has another table
  have htable : ∀ {b : Entity}, b ∈ old.entities ++ new.entities → b.id = ch.entityID →
      qualifiedTable b ≠ (footprint e).table := fun hb hid => h.tables _ hb e heAll (hid ▸ hne)
  -- what the entity needs belongs to an entity of the new schema
  have hneeds : ∀ {x : TableRef × String}, x ∈ (footprint e).needs →
      ∃ target ∈ new.entities, qualifiedTable target = x.1 ∧ x.2 ∈ target.fields.map Field.name := by
    intro x hx
    obtain ⟨f, hf, r, hr, rfl, _⟩ := mem_needs.mp hx
    obtain ⟨target, htarget, _, htbl, tf, htf, hname⟩ := exists_target hnew he hf hr
    exact ⟨target, htarget, htbl, hname ▸ List.mem_map_of_mem htf⟩
  cases hs with
  | create b s ho hn _ hs =>
    obtain ⟨hb, hid⟩ := entityByID_mem hn
    have hbAll : b ∈ old.entities ++ new.entities := List.mem_append_right _ hb
    have hfn := footprint_function h he hadded hbAll (hid ▸ hne)
    cases createStmt_of_mem hs with
    | table | hypertable | dropTrigger => exact htable hbAll hid
    | index idx hidx => exact ⟨htable hbAll hid, footprint_index h he hadded hbAll (hid ▸ hne) hidx⟩
    | function _ => exact hfn
    | createTrigger => exact ⟨htable hbAll hid, hfn⟩
  | drop b s ho hn hs =>
    obtain ⟨hb, hid⟩ := entityByID_mem ho
    have hbAll : b ∈ old.entities ++ new.entities := List.mem_append_left _ hb
    rcases dropStmt_of_mem hs with rfl | ⟨_, rfl⟩
    · refine ⟨htable hbAll hid, ?_⟩
      intro x hx heq
      obtain ⟨target, htarget, htbl, _⟩ := hneeds hx
      have hsame := h.id_of_table (List.mem_append_right _ htarget) hbAll (htbl.trans heq)
      have hfound := entityByID_of_mem hnew htarget
      rw [hsame, hid, hn] at hfound
      cases hfound
    · exact footprint_function h he hadded hbAll (hid ▸ hne)
  | addColumn oldE newE f hv hid | addForeignKey oldE newE f r hv hid | tighten oldE newE f hv hid
  | loosen oldE newE f hv hid | setType oldE newE n type hv hid | setDefault oldE newE n d hv hid
  | addUnique oldE newE n cols hv hid | dropUnique oldE newE x hv hid => exact htable (List.mem_append_right _ hv.newMem) hid
  | dropColumn oldE newE f hv hid _ hname =>
    have holdAll : oldE ∈ old.entities ++ new.entities := List.mem_append_left _ hv.oldMem
    refine ⟨htable holdAll (hv.id.trans hid), ?_⟩
    intro hx
    obtain ⟨target, htarget, htbl, hcol⟩ := hneeds hx
    have hsame := h.id_of_table (List.mem_append_right _ htarget) holdAll htbl
    have hfound := entityByID_of_mem hnew htarget
    rw [hsame, hv.id, hv.newByID] at hfound
    cases hfound
    exact hname hcol
  | dropForeignKey oldE newE name hv hid => exact htable (List.mem_append_left _ hv.oldMem) (hv.id.trans hid)
  | createIndex oldE newE idx hv hid hidx =>
    have hnewAll : newE ∈ old.entities ++ new.entities := List.mem_append_right _ hv.newMem
    exact ⟨htable hnewAll hid, footprint_index h he hadded hnewAll (hid ▸ hne) hidx⟩
  | dropIndex oldE newE idx hv hid hidx =>
    show (_, indexName newE idx) ∉ _
    rw [← indexName_congr hv.tableName_eq idx]
    exact footprint_index h he hadded (List.mem_append_left _ hv.oldMem) (hv.id.trans hid ▸ hne) hidx

/-- A foreign key to the table of an added entity is a reference to the entity. -/
theorem AddsApart.targetID (h : AddsApart old new c) (hnew : Validated new) (hb : b ∈ new.entities) {f : Field}
    (hf : f ∈ b.fields) {r : Ref} (hr : f.ref = some r) (he : e ∈ new.entities)
    (htarget : fkTargetRef r = qualifiedTable e) : r.targetID = e.id := by
  obtain ⟨target, hmem, hid, htbl, _⟩ := exists_target hnew hb hf hr
  rw [← hid]
  exact h.id_of_table (List.mem_append_right _ hmem) (List.mem_append_right _ he) (htbl.trans htarget)

/-- **A foreign key to an added entity**, in the class in which entities are added, comes from a new reference. -/
theorem UpStmt.pointsTo (h : AddsApart old new c) (hold : Validated old) (hnew : Validated new)
    (hs : UpStmt old new ch s) (hcls : ch.cls = .additive) (he : e ∈ new.entities) (hadded : entityByID old e.id = none)
    (hpoints : s.pointsTo (qualifiedTable e) = true) :
    ∃ b ∈ new.entities, b.id = ch.entityID ∧ ∃ f ∈ b.fields, hadField old b f.name = false ∧ ∃ r, f.ref = some r ∧
      r.targetID = e.id := by
  cases hs with
  | create b s ho hn _ hs =>
    obtain ⟨hb, hid⟩ := entityByID_mem hn
    -- only the `CREATE TABLE` itself adds foreign keys
    have hcons : ∃ nb ∈ tableConstraints b, nb.2.pointsTo (qualifiedTable e) = true := by
      cases createStmt_of_mem hs with
      | table => exact List.any_eq_true.mp hpoints
      | index _ _ | hypertable | function _ | dropTrigger | createTrigger => cases hpoints
    obtain ⟨⟨n, body⟩, hnb, hbody⟩ := hcons
    cases body with
    | primaryKey _ | unique _ | check _ => cases hbody
    | foreignKey col target targetCol onDelete onUpdate =>
      obtain ⟨f, hf, r, hr, rfl, _⟩ := foreignKey_of_mem (tableConstraints_subset hnb)
      have htarget : fkTargetRef r = qualifiedTable e := by simpa [Constraint.pointsTo] using hbody
      refine ⟨b, hb, hid, f, hf, ?_, r, hr, h.targetID hnew hb hf hr he htarget⟩
      unfold hadField
      rw [hid, ho]
      rfl
  | addForeignKey oldE newE f r hv hid hf hr hkept =>
    have htarget : fkTargetRef r = qualifiedTable e := by
      simpa [emitFKAdd, Stmt.pointsTo, fkConstraintBody, Constraint.pointsTo] using hpoints
    have htargetID := h.targetID hnew hv.newMem hf hr he htarget
    refine ⟨newE, hv.newMem, hid, f, hf, ?_, r, hr, htargetID⟩
    rw [hv.hadField_eq_false]
    intro hhad
    -- the field was there, so the target did not change and the old schema has it
    obtain ⟨oldF, holdF, o, ho, hsame⟩ := hkept hhad hcls
    obtain ⟨target, htargetMem, htid, _⟩ := exists_target hold hv.oldMem holdF ho
    have hfound := entityByID_of_mem hold htargetMem
    rw [htid, hsame, htargetID, hadded] at hfound
    cases hfound
  | drop b s ho hn hs =>
    rcases dropStmt_of_mem hs with rfl | ⟨_, rfl⟩ <;> cases hpoints
  | addColumn | dropColumn | tighten | loosen | setType | setDefault | addUnique | dropUnique | dropForeignKey | createIndex
  | dropIndex => cases hpoints

/-! ## The order of the diff -/

theorem sorted_mergedNames (a b : List String) : (mergedNames a b).Pairwise (· ≤ ·) := by
  unfold mergedNames sortStrings
  exact List.pairwise_insertionSort _ _

/-- The diff has its changes by the IDs of their entities. -/
theorem sorted_allChanges : (allChanges ctx ord old new).Pairwise fun a b => a.entityID ≤ b.entityID := by
  unfold allChanges
  rw [List.pairwise_flatMap]
  constructor
  · intro id _
    rw [List.pairwise_iff_forall_sublist]
    intro a b hab
    have ha := entityID_of_mem_diffID (hab.subset (List.mem_cons_self))
    have hb := entityID_of_mem_diffID (hab.subset (List.mem_cons_of_mem _ List.mem_cons_self))
    rw [ha, hb]
  · refine (sorted_mergedNames _ _).imp ?_
    intro id id' hle a ha b hb
    rw [entityID_of_mem_diffID ha, entityID_of_mem_diffID hb]
    exact hle

/-- An added entity has no other change. -/
theorem entityID_ne_of_added {x y : Change} (hx : x ∈ allChanges ctx ord old new) (hy : y ∈ allChanges ctx ord old new)
    (hk : y.kind = .entityAdded) (hne : x ≠ y) : x.entityID ≠ y.entityID := by
  intro hid
  obtain ⟨ho, hn, hy'⟩ := entityAdded_of_mem hy hk
  obtain ⟨e, he⟩ := Option.isSome_iff_exists.mp hn
  rw [mem_allChanges, hid] at hx
  unfold diffID at hx
  rw [ho, he, List.mem_singleton] at hx
  exact hne (hx.trans hy'.symm)

/-- Run the statements of one change. -/
def upStep (mentions : String → String → Bool) (old new : IR) (c : Catalog) (ch : Change) : Except Err Catalog :=
  run mentions (emitChange new old ch).up c

/-- The names that the change takes, if it adds an entity, are free. -/
def FreeFor (new : IR) (c : Catalog) (ch : Change) : Prop :=
  ch.kind = .entityAdded → ∀ e, entityByID new ch.entityID = some e → (footprint e).Free c

theorem up_of_added {y : Change} (hy : y ∈ allChanges ctx ord old new) (hk : y.kind = .entityAdded) :
    ∃ e ∈ new.entities, entityByID new y.entityID = some e ∧ e.id = y.entityID ∧ entityByID old e.id = none ∧
      (emitChange new old y).up = emitEntityCreate e := by
  obtain ⟨ho, hn, hy'⟩ := entityAdded_of_mem hy hk
  obtain ⟨e, he⟩ := Option.isSome_iff_exists.mp hn
  obtain ⟨hmem, hid⟩ := entityByID_mem he
  refine ⟨e, hmem, he, hid, hid ▸ ho, ?_⟩
  rw [hy']
  simp only [emitChange, he, withEntity]

variable (hold : Validated old) (hnew : Validated new) (hapart : AddsApart old new c)

include hold hnew hapart

/-- Every other change leaves the names of an added entity free. -/
theorem keeps_added {x y : Change} (hx : x ∈ allChanges ctx ord old new) (hy : y ∈ allChanges ctx ord old new)
    (hne : x ≠ y) : Keeps (upStep mentions old new) (FreeFor new) x y := by
  intro c₀ c₁ hfree hrun hk e he
  obtain ⟨e', hmem, he', hid, hadded, _⟩ := up_of_added hy hk
  cases he.symm.trans he'
  refine (hfree hk e he).run ?_ hrun
  intro s hs
  exact (upStmt_of_mem hold hnew hx hs).spares hapart hnew hmem hadded (hid ▸ entityID_ne_of_added hx hy hk hne)

/-- **A change that adds no foreign key to an added entity** can come before it. -/
theorem passes_added {x y : Change} (hx : x ∈ allChanges ctx ord old new) (hy : y ∈ allChanges ctx ord old new)
    (hk : y.kind = .entityAdded) (hne : x ≠ y)
    (hpoints : ∀ e, entityByID new y.entityID = some e → ∀ s ∈ (emitChange new old x).up,
      s.pointsTo (qualifiedTable e) = false) : Passes (upStep mentions old new) (FreeFor new) x y where
  keeps := keeps_added hold hnew hapart hx hy hne
  swap := by
    intro c₀ c₁ c₂ hfree hyrun hxrun
    obtain ⟨e, hmem, he, hid, hadded, hup⟩ := up_of_added hy hk
    have hspares : ∀ s ∈ (emitChange new old x).up, s.Spares (footprint e) := by
      intro s hs
      exact (upStmt_of_mem hold hnew hx hs).spares hapart hnew hmem hadded (hid ▸ entityID_ne_of_added hx hy hk hne)
    have hfree₀ := hfree hk e he
    unfold upStep at hyrun hxrun ⊢
    rw [hup] at hyrun ⊢
    have houtside : ∀ {c c'}, run mentions (emitEntityCreate e) c = .ok c' → ∀ k, ¬ (footprint e).Has k → c'.get k = c.get k :=
      fun hrun k hk => run_frame hrun fun s hs haff => hk (has_of_affects hs haff)
    -- the other change does not see the entity, and leaves what stands under its names
    obtain ⟨c₃, hx₃, hoff⟩ := run_agree (fun s hs x hx => (hspares s hs).looks (hpoints e he s hs) hx)
      (fun k hk => (houtside hyrun k hk).symm) hxrun
    have hsup₀ := supplied_of_create hfree₀ hyrun
    obtain ⟨c₄, h₄, hon⟩ := run_emitEntityCreate_agree (run_spared hfree₀.closed hspares hx₃) hsup₀
      (hsup₀.run hspares hx₃) hyrun
    have heq : c₄ = c₂ := by
      refine Catalog.ext_get fun k => ?_
      by_cases hk : (footprint e).Has k
      · exact (hon k hk).trans (run_spared (closed_of_create hfree₀ hyrun) hspares hxrun k hk).symm
      · exact (houtside h₄ k hk).trans (hoff k hk)
    exact ⟨c₃, hx₃, heq ▸ h₄⟩

/-- **The additive changes in the order of the diff** run where they run as emitted. -/
theorem additive_of_reorder (hfits : OrderFits old new)
    (h : (reorderEntityAddsByFKDependency new (ComputeDiff ctx ord old new).additive).foldlM (upStep mentions old new) c
      = .ok c') : (ComputeDiff ctx ord old new).additive.foldlM (upStep mentions old new) c = .ok c' := by
  have hmem : ∀ ch ∈ (ComputeDiff ctx ord old new).additive, ch ∈ allChanges ctx ord old new ∧ ch.cls = .additive := by
    intro ch hch
    simpa [ComputeDiff] using hch
  have honce : (ComputeDiff ctx ord old new).additive.Pairwise fun a b => b.kind.adds = true → a ≠ b := addsOnce.filter _
  have hsorted : (ComputeDiff ctx ord old new).additive.Pairwise fun a b => a.entityID ≤ b.entityID :=
    sorted_allChanges.filter _
  have hfree : ∀ ch ∈ (ComputeDiff ctx ord old new).additive, FreeFor new c ch := by
    intro ch hch hk e he
    obtain ⟨e', he'mem, he', _, hadded, _⟩ := up_of_added (hmem ch hch).1 hk
    cases he.symm.trans he'
    exact hapart.free e he'mem hadded
  have hperm : (reorderEntityAddsByFKDependency new (ComputeDiff ctx ord old new).additive).Perm
      (ComputeDiff ctx ord old new).additive := reorder_class_perm .additive
  generalize (ComputeDiff ctx ord old new).additive = l at h hmem honce hsorted hfree hperm ⊢
  have hpass : l.Pairwise fun x y => decide (y.kind = .entityAdded) = true →
      x ≠ y ∧ Passes (upStep mentions old new) (FreeFor new) x y := by
    refine (hsorted.and honce).imp_of_mem ?_
    rintro x y hx hy ⟨hle, honce⟩ hk
    have hk : y.kind = .entityAdded := of_decide_eq_true hk
    have hne : x ≠ y := honce (by rw [hk]; rfl)
    obtain ⟨hx, hcls⟩ := hmem x hx
    have hy := (hmem y hy).1
    refine ⟨hne, passes_added hold hnew hapart hx hy hk hne ?_⟩
    -- a reference to the added entity would have the diff after it
    intro e he s hs
    obtain ⟨hmem, hid⟩ := entityByID_mem he
    have hadded : entityByID old e.id = none := hid ▸ (entityAdded_of_mem hy hk).1
    rw [Bool.eq_false_iff]
    intro hpoints
    obtain ⟨b, hb, hbid, f, hf, hhad, r, hr, htarget⟩ :=
      (upStmt_of_mem hold hnew hx hs).pointsTo hapart hold hnew hcls hmem hadded hpoints
    have hback := hfits b hb f hf hhad r hr (htarget ▸ hadded)
    rw [htarget, hbid, hid] at hback
    exact entityID_ne_of_added hx hy hk hne (le_antisymm hle hback)
  -- the added entities come first, or everything stays where it is
  have hcases : reorderEntityAddsByFKDependency new l = l ∨
      ∃ first, reorderEntityAddsByFKDependency new l = first ++ l.filter (·.kind ≠ .entityAdded) := by
    unfold reorderEntityAddsByFKDependency
    dsimp only
    split
    · exact .inl rfl
    · split
      · exact .inl rfl
      · exact .inr ⟨_, rfl⟩
  rcases hcases with heq | ⟨first, heq⟩
  · rwa [heq] at h
  · rw [heq] at h hperm
    have hsplit : (l.filter (fun ch => decide (ch.kind = .entityAdded))
        ++ l.filter fun ch => decide (ch.kind ≠ .entityAdded)).Perm l := by
      have hparts := List.filter_append_perm (fun ch : Change => decide (ch.kind = .entityAdded)) l
      simpa only [← decide_not] using hparts
    have hfirst := (List.perm_append_right_iff _).mp (hperm.trans hsplit.symm)
    refine foldlM_of_front hfirst hpass (fun x hx y hy hne => ?_) (fun y hy _ => hfree y hy) ?_
    · exact keeps_added hold hnew hapart (hmem x hx).1 (hmem y hy).1 hne
    · simpa only [← decide_not] using h

/-- **A script that runs as emitted runs in the order of the diff**, to the same catalog. -/
theorem diffOrder_of_emissionOrder (hfits : OrderFits old new)
    (h : run mentions (emitUp old new (ComputeDiff ctx ord old new)) c = .ok c') :
    ((ComputeDiff ctx ord old new).additive ++ (ComputeDiff ctx ord old new).backfillRequired
      ++ (ComputeDiff ctx ord old new).breaking).foldlM (upStep mentions old new) c = .ok c' := by
  have hothers : ∀ cls : ChangeClass, cls ≠ .additive →
      reorderEntityAddsByFKDependency new ((allChanges ctx ord old new).filter (·.cls = cls))
        = (allChanges ctx ord old new).filter (·.cls = cls) := by
    -- there are no added entities in the class, so nothing moves
    intro cls hcls
    unfold reorderEntityAddsByFKDependency
    rw [List.filter_eq_nil_iff.mpr fun ch hch hk => ?_]
    · rfl
    obtain ⟨hmem, hch⟩ := List.mem_filter.mp hch
    have hadd := congrArg Change.cls (entityAdded_of_mem hmem (of_decide_eq_true hk)).2.2
    have hclass : ch.cls = cls := by simpa using hch
    exact hcls (hclass.symm.trans hadd)
  unfold emitUp emissionOrder at h
  rw [run_append, run_createSchemas] at h
  replace h : run mentions _ c = .ok c' := h
  rw [run_flatMap] at h
  obtain ⟨c₂, h, hbreaking⟩ := foldlM_append_iff.mp h
  obtain ⟨c₁, hadditive, hbackfill⟩ := foldlM_append_iff.mp h
  have hadditive := additive_of_reorder hold hnew hapart hfits hadditive
  have hb : reorderEntityAddsByFKDependency new (ComputeDiff ctx ord old new).backfillRequired
      = (ComputeDiff ctx ord old new).backfillRequired := hothers .backfillRequired nofun
  have hr : reorderEntityAddsByFKDependency new (ComputeDiff ctx ord old new).breaking
      = (ComputeDiff ctx ord old new).breaking := hothers .crossCallerBreaking nofun
  rw [hb] at hbackfill
  rw [hr] at hbreaking
  exact foldlM_append_iff.mpr ⟨_, foldlM_append_iff.mpr ⟨_, hadditive, hbackfill⟩, hbreaking⟩

end Atlantis.Codegen
