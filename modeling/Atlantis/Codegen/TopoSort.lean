import Atlantis.Codegen.Emission
import Atlantis.Lib.Fold

/-!
# `Codegen.TopoSort` — entities after what they reference

`topoSortEntities` is a depth-first search that appends an entity once everything it references is done. The
order it returns holds every entity once, and each one after the others it references. The search never
appends an entity that is still on its stack, which is what makes the entries different.
-/

namespace Atlantis.Codegen

open Schema Pg Lib

variable {entities out : List Entity}

/-- The references of `e` lead to entities of `known`, as far as they lead to other entities at all. -/
def RefsIn (entities : List Entity) (e : Entity) (known : List Entity) : Prop :=
  ∀ r ∈ e.fields.filterMap (·.ref), r.targetID ≠ e.id →
    ∀ x, lastWith Entity.id r.targetID entities = some x → x ∈ known

/-- Every entity once, and after what it references. -/
structure Ordered (entities out : List Entity) : Prop where
  nodup : (out.map Entity.id).Nodup
  mem : ∀ e ∈ out, lastWith Entity.id e.id entities = some e
  after : ∀ before e rest, out = before ++ e :: rest → RefsIn entities e before

theorem Ordered.nil : Ordered entities [] where
  nodup := List.nodup_nil
  mem := nofun
  after := by
    intro before e rest h
    simp at h

theorem Ordered.snoc {e : Entity} (h : Ordered entities out) (hid : e.id ∉ out.map Entity.id)
    (he : lastWith Entity.id e.id entities = some e) (hrefs : RefsIn entities e out) :
    Ordered entities (out ++ [e]) where
  nodup := by
    rw [List.map_append, List.nodup_append]
    refine ⟨h.nodup, by simp, ?_⟩
    intro a ha b hb heq
    rw [List.map_singleton, List.mem_singleton] at hb
    exact hid (hb ▸ heq ▸ ha)
  mem := by
    intro x hx
    rcases List.mem_append.mp hx with hx | hx
    · exact h.mem x hx
    · rw [List.mem_singleton.mp hx]
      exact he
  after := by
    intro before x rest hsplit
    rcases List.eq_nil_or_concat rest with rfl | ⟨rest', y, rfl⟩
    · obtain ⟨rfl, hx⟩ := List.append_inj' hsplit rfl
      rw [← (List.cons.inj hx).1]
      exact hrefs
    · have hsplit' : out ++ [e] = (before ++ x :: rest') ++ [y] := by simpa using hsplit
      obtain ⟨hout, _⟩ := List.append_inj' hsplit' rfl
      exact h.after before x rest' hout

/-- **One visit** extends the order, touches nothing on the stack, and reaches the entity visited. -/
theorem topoVisit_spec {fuel : Nat} {gray : List String} {out' : List Entity} {id : String}
    (h : topoVisit entities fuel gray out id = .ok out') (hout : Ordered entities out) :
    Ordered entities out' ∧ (∃ l, out' = out ++ l ∧ ∀ x ∈ l, x.id ∉ gray) ∧
      ∀ e, lastWith Entity.id id entities = some e → e ∈ out' := by
  induction fuel generalizing gray out out' id with
  | zero => cases h
  | succ fuel ih =>
    unfold topoVisit at h
    split at h
    · cases h
    rename_i hgray
    split at h
    · -- already done
      rename_i hdone
      cases h
      refine ⟨hout, ⟨[], by simp, nofun⟩, ?_⟩
      intro e he
      obtain ⟨x, hx, hxid⟩ := List.mem_map.mp (List.contains_iff_mem.mp hdone)
      have hxe := hout.mem x hx
      rw [hxid, he] at hxe
      rw [Option.some.inj hxe]
      exact hx
    rename_i hnew
    cases hbyID : lastWith Entity.id id entities with
    | none =>
      rw [hbyID] at h
      cases h
      exact ⟨hout, ⟨[], by simp, nofun⟩, nofun⟩
    | some e =>
      rw [hbyID] at h
      obtain ⟨out₁, hfold, h⟩ := bind_ok h
      cases h
      have heid : e.id = id := (lastWith_mem hbyID).2
      have hinv : Ordered entities out₁ ∧ (∃ l, out₁ = out ++ l ∧ ∀ x ∈ l, x.id ∉ id :: gray) ∧
          ∀ r ∈ e.fields.filterMap (·.ref), r.targetID ≠ id →
            ∀ x, lastWith Entity.id r.targetID entities = some x → x ∈ out₁ := by
        refine foldlM_invariant (I := fun (pre : List Ref) (out₁ : List Entity) =>
          Ordered entities out₁ ∧ (∃ l, out₁ = out ++ l ∧ ∀ x ∈ l, x.id ∉ id :: gray) ∧
          ∀ r ∈ pre, r.targetID ≠ id → ∀ x, lastWith Entity.id r.targetID entities = some x → x ∈ out₁)
          ⟨hout, ⟨[], by simp, nofun⟩, nofun⟩ ?_ hfold
        intro pre r rest out₁ out₂ _ hI hstep
        obtain ⟨hord, ⟨l, rfl, hl⟩, hpre⟩ := hI
        split at hstep
        · rename_i hskip
          cases hstep
          refine ⟨hord, ⟨l, rfl, hl⟩, ?_⟩
          intro r' hr' hne x hx
          rcases List.mem_append.mp hr' with hr' | hr'
          · exact hpre r' hr' hne x hx
          · rw [List.mem_singleton.mp hr'] at hne hx
            rcases hskip with hself | hnone
            · exact absurd hself hne
            · rw [hx] at hnone
              cases hnone
        · obtain ⟨hord₂, ⟨l₂, rfl, hl₂⟩, hreach⟩ := ih hstep hord
          refine ⟨hord₂, ⟨l ++ l₂, by rw [List.append_assoc], ?_⟩, ?_⟩
          · intro x hx
            rcases List.mem_append.mp hx with hx | hx
            · exact hl x hx
            · exact hl₂ x hx
          · intro r' hr' hne x hx
            rcases List.mem_append.mp hr' with hr' | hr'
            · exact List.mem_append_left _ (hpre r' hr' hne x hx)
            · rw [List.mem_singleton.mp hr'] at hx
              exact hreach x hx
      obtain ⟨hord, ⟨l, rfl, hl⟩, hrefs⟩ := hinv
      have hid : e.id ∉ (out ++ l).map Entity.id := by
        rw [List.map_append, List.mem_append, not_or, heid]
        refine ⟨fun hmem => hnew (List.contains_iff_mem.mpr hmem), fun hmem => ?_⟩
        obtain ⟨x, hx, hxid⟩ := List.mem_map.mp hmem
        exact hl x hx (hxid ▸ List.mem_cons_self)
      have hknown : RefsIn entities e (out ++ l) := fun r hr hne => hrefs r hr (heid ▸ hne)
      refine ⟨hord.snoc hid (heid ▸ hbyID) hknown, ⟨l ++ [e], by simp, ?_⟩, ?_⟩
      · intro x hx
        rcases List.mem_append.mp hx with hx | hx
        · exact fun hg => hl x hx (List.mem_cons_of_mem _ hg)
        · rw [List.mem_singleton.mp hx, heid]
          exact fun hg => hgray (List.contains_iff_mem.mpr hg)
      · intro x hx
        cases hx
        simp

/-- **The order**: every entity once, after what it references. -/
theorem topoSortEntities_spec {order : List Entity} (hn : (entities.map Entity.id).Nodup)
    (h : topoSortEntities entities = .ok order) : order.Perm entities ∧ Ordered entities order := by
  have hinv : Ordered entities order ∧
      ∀ id ∈ sortStrings (entities.map Entity.id).dedup, ∀ e, lastWith Entity.id id entities = some e → e ∈ order := by
    refine foldlM_invariant (I := fun (pre : List String) (out : List Entity) => Ordered entities out ∧
      ∀ id ∈ pre, ∀ e, lastWith Entity.id id entities = some e → e ∈ out) ⟨Ordered.nil, nofun⟩ ?_ h
    intro pre id rest out out' _ hI hstep
    obtain ⟨hord, ⟨l, rfl, _⟩, hreach⟩ := topoVisit_spec hstep hI.1
    refine ⟨hord, ?_⟩
    intro id' hid' e he
    rcases List.mem_append.mp hid' with hid' | hid'
    · exact List.mem_append_left _ (hI.2 id' hid' e he)
    · rw [List.mem_singleton.mp hid'] at he
      exact hreach e he
  refine ⟨?_, hinv.1⟩
  rw [List.perm_ext_iff_of_nodup hinv.1.nodup.of_map hn.of_map]
  intro e
  constructor
  · intro he
    exact (lastWith_mem (hinv.1.mem e he)).1
  · intro he
    apply hinv.2 e.id ?_ e (lastWith_of_nodup hn he)
    rw [mem_sortStrings, List.mem_dedup]
    exact List.mem_map_of_mem he

/-! ## Emission order -/

/-- Sorting added entities to the front loses and repeats nothing. -/
theorem reorder_perm {newIR : IR} {changes : List Change}
    (hids : ((changes.filter (·.kind = .entityAdded)).map Change.entityID).Nodup)
    (hin : ∀ ch ∈ changes, ch.kind = .entityAdded → (entityByID newIR ch.entityID).isSome) :
    (reorderEntityAddsByFKDependency newIR changes).Perm changes := by
  unfold reorderEntityAddsByFKDependency
  dsimp only
  split
  · exact .refl _
  split
  · exact .refl _
  rename_i sorted hsort
  have hsplit : (changes.filter (·.kind = .entityAdded) ++ changes.filter (·.kind ≠ .entityAdded)).Perm changes := by
    have hperm := List.filter_append_perm (fun ch : Change => decide (ch.kind = .entityAdded)) changes
    simpa only [← decide_not] using hperm
  refine List.Perm.trans (List.Perm.append_right _ ?_) hsplit
  generalize hadds : changes.filter (·.kind = .entityAdded) = adds at hids hsort ⊢
  have hfound : ∀ ch ∈ adds, ∃ e, entityByID newIR ch.entityID = some e ∧ e.id = ch.entityID := by
    intro ch hch
    rw [← hadds, List.mem_filter] at hch
    obtain ⟨e, he⟩ := Option.isSome_iff_exists.mp (hin ch hch.1 (by simpa using hch.2))
    exact ⟨e, he, (entityByID_mem he).2⟩
  -- the entities to be sorted carry the IDs of the changes, in their order
  have hentities : (adds.filterMap fun ch => entityByID newIR ch.entityID).map Entity.id
      = adds.map Change.entityID := by
    clear hadds hids hsort
    induction adds with
    | nil => rfl
    | cons ch adds ih =>
      obtain ⟨e, he, hid⟩ := hfound ch List.mem_cons_self
      have hrest := ih fun ch hch => hfound ch (List.mem_cons_of_mem _ hch)
      simp only [List.filterMap_cons, he, List.map_cons, hid, hrest]
  obtain ⟨hperm, _⟩ := topoSortEntities_spec (hentities ▸ hids) hsort
  refine (hperm.filterMap _).trans ?_
  -- and looking the IDs up again gives the changes back
  have hback : ∀ l : List Change, (∀ ch ∈ l, ch ∈ adds) →
      (l.filterMap fun ch => entityByID newIR ch.entityID).filterMap
        (fun e => lastWith Change.entityID e.id adds) = l := by
    intro l hl
    induction l with
    | nil => rfl
    | cons ch l ih =>
      have hch := hl ch List.mem_cons_self
      obtain ⟨e, he, hid⟩ := hfound ch hch
      have hlast : lastWith Change.entityID e.id adds = some ch := by
        rw [hid]
        exact lastWith_of_nodup hids hch
      have hrest := ih fun ch hch => hl ch (List.mem_cons_of_mem _ hch)
      simp only [List.filterMap_cons, he, hlast, hrest]
  rw [hback adds fun _ h => h]

/-- The three classes are the parts of one list. -/
theorem classes_perm (l : List Change) : (l.filter (·.cls = .additive) ++ l.filter (·.cls = .backfillRequired)
    ++ l.filter (·.cls = .crossCallerBreaking)).Perm l := by
  induction l with
  | nil => exact .refl _
  | cons ch l ih =>
    cases hcls : ch.cls with
    | additive => simpa [hcls] using ih
    | backfillRequired =>
      simp only [List.filter_cons, hcls, reduceCtorEq, decide_false, decide_true, if_true, if_false,
        Bool.false_eq_true, List.append_assoc, List.cons_append] at ih ⊢
      exact List.perm_middle.trans (ih.cons ch)
    | crossCallerBreaking =>
      simp only [List.filter_cons, hcls, reduceCtorEq, decide_false, decide_true, if_true, if_false,
        Bool.false_eq_true] at ih ⊢
      exact List.perm_middle.trans (ih.cons ch)

variable {ctx : DiffCtx} {ord : RangeOrder} {oldIR newIR : IR}

/-- An added entity is one that only the new schema has. -/
theorem entityAdded_of_mem {ch : Change} (h : ch ∈ allChanges ctx ord oldIR newIR) (hk : ch.kind = .entityAdded) :
    entityByID oldIR ch.entityID = none ∧ (entityByID newIR ch.entityID).isSome ∧
      ch = ⟨.entityAdded, .additive, ch.entityID, ""⟩ := by
  rw [mem_allChanges] at h
  unfold diffID at h
  split at h
  · rw [List.mem_singleton.mp h] at hk
    cases hk
  · rename_i ho hn
    rw [ho, hn]
    exact ⟨rfl, rfl, List.mem_singleton.mp h⟩
  · cases mem_diffEntity h with
    | field oldF newF kind cls _ _ hd =>
      cases hk
      cases hd
    | _ => cases hk
  · cases h

/-- Sorting the added entities of a class to the front loses and repeats nothing. -/
theorem reorder_class_perm (cls : ChangeClass) :
    (reorderEntityAddsByFKDependency newIR ((allChanges ctx ord oldIR newIR).filter (·.cls = cls))).Perm
      ((allChanges ctx ord oldIR newIR).filter (·.cls = cls)) := by
  apply reorder_perm
  · -- additions are determined by their entity
    apply List.Nodup.map_on ?_ (((addsOnce.filter _).filter _).imp_of_mem fun _ hb hne => hne ?_)
    swap
    · rw [of_decide_eq_true (List.mem_filter.mp hb).2]
      rfl
    intro a ha b hb heq
    obtain ⟨ha, hka⟩ := List.mem_filter.mp ha
    obtain ⟨hb, hkb⟩ := List.mem_filter.mp hb
    rw [(entityAdded_of_mem (List.mem_filter.mp ha).1 (by simpa using hka)).2.2,
      (entityAdded_of_mem (List.mem_filter.mp hb).1 (by simpa using hkb)).2.2, heq]
  · intro ch hch hk
    exact (entityAdded_of_mem (List.mem_filter.mp hch).1 hk).2.1

/-- **Everything the diff finds is emitted, once.** -/
theorem emissionOrder_perm :
    (emissionOrder newIR (ComputeDiff ctx ord oldIR newIR)).Perm (allChanges ctx ord oldIR newIR) := by
  unfold emissionOrder ComputeDiff
  exact (((reorder_class_perm _).append (reorder_class_perm _)).append (reorder_class_perm _)).trans (classes_perm _)

theorem addsOnce_emissionOrder : (emissionOrder newIR (ComputeDiff ctx ord oldIR newIR)).Pairwise
    fun a b => b.kind.adds = true → a ≠ b := by
  refine (emissionOrder_perm.pairwise_iff ?_).mpr addsOnce
  rintro a _ hne hadds rfl
  exact hne hadds rfl

theorem mem_emissionOrder {ch : Change} : ch ∈ emissionOrder newIR (ComputeDiff ctx ord oldIR newIR) ↔
    ch ∈ diffID ctx ord oldIR newIR ch.entityID := by
  rw [emissionOrder_perm.mem_iff, mem_allChanges]

/-- The changes in the order of the diff. -/
def diffOrder (d : Diff) : List Change := d.additive ++ d.backfillRequired ++ d.breaking

theorem mem_diffOrder {ch : Change} :
    ch ∈ diffOrder (ComputeDiff ctx ord oldIR newIR) ↔ ch ∈ allChanges ctx ord oldIR newIR :=
  (classes_perm _).mem_iff

/-- And so are those of a field that either version has. -/
theorem mem_diffEntity_of_field {oldE newE : Entity} {ch : Change} {name : String}
    (h : ch ∈ diffFieldNamed ctx oldE newE name) : ch ∈ diffEntity ctx ord oldE newE := by
  have hname : name ∈ mergedNames (oldE.fields.map Field.name) (newE.fields.map Field.name) := by
    rw [mem_mergedNames]
    by_contra hnot
    rw [not_or] at hnot
    unfold diffFieldNamed at h
    rw [fieldByName_eq_none.mpr hnot.1, fieldByName_eq_none.mpr hnot.2] at h
    cases h
  have hfields : ch ∈ diffFields ctx oldE newE := List.mem_flatMap.mpr ⟨name, hname, h⟩
  unfold diffEntity
  simp [hfields]

end Atlantis.Codegen
