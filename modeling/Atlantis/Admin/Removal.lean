import Atlantis.Admin.PlanBinding
import Atlantis.Codegen.Script
import Atlantis.Custom.Lower
import Atlantis.Proto.History

/-!
# `Admin.Removal` — which removals are breaking

A plan that removes an entity or a field asks whether anyone but the submitting caller is concerned. `classifyRemoval`
takes the answer from two tables: who declares the entity (`buildEntityOwnership`), and what the other callers refer to
(`buildCrossCallerRefs` with `scanDeclTouches`). Both are built from the files of the new schema, and the second holds
the names of entities as they are written.

So the classes are decided by less than they seem to be. An entity that is removed is in no file any more, has no owner,
and its removal is breaking whoever declared it (`classifyRemoval_entity`). A field that is removed cannot be the target
of a `references` in files that are accepted, and `touches(…)` is about entities, so its removal is breaking exactly when
the entity is declared by someone else (`classifyRemoval_field`).

`removal_breaking_iff` compares this with what a removal does to the other callers.
-/

namespace Atlantis.Admin

open Schema Codegen Proto Custom Lib

/-! ## Whom a removal concerns -/

/-- A file declares an entity. -/
def Declares (f : File) (id : String) : Prop := ∃ d ∈ f.decls, d.entity.id = id

instance (f : File) (id : String) : Decidable (Declares f id) := inferInstanceAs (Decidable (∃ d ∈ f.decls, _))

/-- Another caller's `references` to the entity that a change is about or, where a field is removed, to the field. -/
def Referenced (others : List File) (ch : Change) : Prop :=
  ∃ f ∈ others, ∃ d ∈ f.decls, ∃ fl ∈ d.entity.fields, ∃ r ∈ fl.ref,
    r.targetID = ch.entityID ∧ (ch.kind = .fieldRemoved → r.targetField = ch.field)

instance (others : List File) (ch : Change) : Decidable (Referenced others ch) :=
  inferInstanceAs (Decidable (∃ f ∈ others, ∃ d ∈ f.decls, ∃ fl ∈ d.entity.fields, ∃ r ∈ fl.ref, _))

/-- A query or procedure of another caller names the entity, in a `touches(…)` or as the target of a typed step. -/
def Named (ir : IR) (others : List File) (id : String) : Prop := ∃ f ∈ others, ∃ d ∈ f.customs, id ∈ d.names ir

instance (ir : IR) (others : List File) (id : String) : Decidable (Named ir others id) :=
  inferInstanceAs (Decidable (∃ f ∈ others, ∃ d ∈ f.customs, _))

section

variable (caller : String) (declarers : String → List String) (prior lowered : IR) (others : List File)

/-- An entity of the checkpoint was declared by another caller. The checkpoint does not say by whom; `declarers` does. -/
def WasAnothers (id : String) : Prop := ∃ d ∈ declarers id, d ≠ caller

instance (id : String) : Decidable (WasAnothers caller declarers id) :=
  inferInstanceAs (Decidable (∃ d ∈ declarers id, _))

/-- **A removal concerns another caller**: the entity is, or was, declared by one, or one refers to what is removed, in
    the schema that was in force or in the new one. -/
def ConcernsAnother (ch : Change) : Prop :=
  (∃ f ∈ others, Declares f ch.entityID) ∨ WasAnothers caller declarers ch.entityID ∨ Referenced others ch ∨
    Named prior others ch.entityID ∨ Named lowered others ch.entityID

instance (ch : Change) : Decidable (ConcernsAnother caller declarers prior lowered others ch) :=
  inferInstanceAs (Decidable (_ ∨ _ ∨ _ ∨ _ ∨ _))

/-- A removal the tables are enough for. An entity: it was declared by another caller, or a name resolved to it. A field:
    its entity is declared by another caller, one whose name has no colon that would hide it; or it neither is nor was,
    and no query or procedure of another caller names the entity. -/
def Decided (ch : Change) : Prop :=
  if ch.kind = .entityRemoved then WasAnothers caller declarers ch.entityID ∨ Named prior others ch.entityID
  else
    (∃ f ∈ others, Declares f ch.entityID ∧ callerOfPath f.path ≠ caller) ∨
      ((¬ ∃ f ∈ others, Declares f ch.entityID) ∧ ¬ WasAnothers caller declarers ch.entityID ∧
        ¬ Named prior others ch.entityID ∧ ¬ Named lowered others ch.entityID)

instance (ch : Change) : Decidable (Decided caller declarers prior lowered others ch) := by
  unfold Decided
  infer_instance

end

/-! ## Accepted files -/

section

variable {ord : RangeOrder} {prior : Option FullIR} {caller name : String} {own others : List File} {lowered : IR}

/-- What acceptance says. -/
structure Accepted (caller : String) (own others : List File) (lowered : IR) : Prop where
  named : caller ≠ ""
  lower : Lower (own ++ others) = .ok lowered
  resolves : ∀ f ∈ others, ∀ d ∈ f.customs, ∀ r ∈ d.refs, ∃ e, resolveEntityRef lowered r (d.ns lowered) = .ok e

variable {ctx : DiffCtx} {ch : Change} {old new : IR}

/-- The ID of an entity is not that of a field. -/
theorem id_ne_field {ir : IR} {e e' : Entity} (h' : e'.Lowered ir) (h : e.Lowered ir) :
    e'.id ≠ e.id ++ "." ++ name := by
  intro hid
  have hlist : e'.namespace_.toList ++ '.' :: e'.name.toList
      = e.namespace_.toList ++ '.' :: (e.name.toList ++ '.' :: name.toList) := by
    have := congrArg String.toList hid
    simpa [Entity.id] using this
  obtain ⟨_, hname⟩ := append_cons_inj (dot_not_mem_of_isIdent h'.1) (dot_not_mem_of_isIdent h.1) hlist
  exact dot_not_mem_of_isIdent h'.2.1 (hname ▸ List.mem_append_right _ List.mem_cons_self)

namespace Accepted

variable (h : Accepted caller own others lowered)

include h

variable {f : File} {e : Entity} {id : String}

theorem validated : Validated lowered := Lower_validated h.lower

theorem nodup : ((declaredEntities (own ++ others)).map Entity.id).Nodup := (Lower_ok_iff.mp h.lower).2.1

/-- A declared entity is in the schema, with its references threaded. -/
theorem mem_lowered (hf : f ∈ own ++ others) {d : EntityDecl} (hd : d ∈ f.decls) :
    ∃ byID, threadEntity byID d.entity ∈ lowered.entities := by
  obtain ⟨_, _, _, rfl⟩ := Lower_ok_iff.mp h.lower
  exact ⟨_, List.mem_map_of_mem ((sortByID_perm _).mem_iff.mpr (List.mem_map_of_mem (List.mem_flatMap.mpr ⟨f, hf, hd⟩)))⟩

theorem mem_of_declares (hf : f ∈ own ++ others) (hid : Declares f id) : ∃ e ∈ lowered.entities, e.id = id := by
  obtain ⟨d, hd, rfl⟩ := hid
  obtain ⟨byID, hmem⟩ := h.mem_lowered hf hd
  exact ⟨_, hmem, rfl⟩

/-! ### Owners -/

/-- **Each entity has one entry** in the table of owners. -/
theorem ownership_iff {owner : String} : (callerContext caller own others).entityOwnership id = some owner ↔
    (∃ f ∈ own, Declares f id ∧ owner = caller) ∨ ∃ f ∈ others, Declares f id ∧ owner = callerOfPath f.path := by
  let table := own.flatMap (fun f => f.decls.map fun d => (d.entity.id, caller)) ++
    others.flatMap fun f => f.decls.map fun d => (d.entity.id, callerOfPath f.path)
  have hkeys : (table.map Prod.fst).Nodup := by
    have hkeys := h.nodup
    simp only [table, declaredEntities, List.flatMap_append, List.map_append, List.map_flatMap, List.map_map] at hkeys ⊢
    exact hkeys
  have hfound : (callerContext caller own others).entityOwnership id = some owner ↔ (id, owner) ∈ table := by
    show (lastWith Prod.fst id table).map Prod.snd = _ ↔ _
    rw [Option.map_eq_some_iff]
    constructor
    · rintro ⟨x, hx, rfl⟩
      obtain ⟨hmem, rfl⟩ := lastWith_mem hx
      exact hmem
    · intro hmem
      exact ⟨_, lastWith_of_nodup hkeys hmem, rfl⟩
  rw [hfound, List.mem_append]
  simp [Declares, eq_comm, ← and_assoc]

/-! ### References -/

/-- Another caller's `references` has its target in the schema. -/
theorem reference_target (hf : f ∈ others) {d : EntityDecl} (hd : d ∈ f.decls) {fl : Field}
    (hfl : fl ∈ d.entity.fields) {r : Ref} (hr : fl.ref = some r) :
    ∃ target ∈ lowered.entities, target.id = r.targetID ∧ ∃ tf ∈ target.fields, tf.name = r.targetField := by
  obtain ⟨byID, hmem⟩ := h.mem_lowered (List.mem_append_right own hf) hd
  have hfield : threadField byID fl ∈ (threadEntity byID d.entity).fields := List.mem_map_of_mem hfl
  have href : (threadField byID fl).ref = some (threadRef byID r) := by
    show fl.ref.map (threadRef byID) = _
    rw [hr, Option.map_some]
  obtain ⟨target, htarget, hid, _, tf, htf, hname⟩ := exists_target h.validated hmem hfield href
  exact ⟨target, htarget, hid.trans (threadRef_target r).1, tf, htf, hname.trans (threadRef_target r).2⟩

/-- No reference is to a field that is not there. -/
theorem buildCrossCallerRefs_field (he : e ∈ lowered.entities) (hname : name ∉ e.fields.map Field.name) :
    buildCrossCallerRefs others (e.id ++ "." ++ name) = false := by
  have hlow := h.validated.lowered he
  rw [Bool.eq_false_iff]
  intro hrefs
  unfold buildCrossCallerRefs at hrefs
  simp only [Bool.or_eq_true, List.any_eq_true, List.mem_flatMap, Option.any_eq_true, decide_eq_true_eq,
    List.contains_iff_mem] at hrefs
  rcases hrefs with ⟨d, ⟨f, hf, hd⟩, fl, hfl, r, hr, hkey⟩ | ⟨d, ⟨f, hf, hd⟩, hkey⟩
  · obtain ⟨target, htarget, hid, tf, htf, htfname⟩ := h.reference_target hf hd hfl hr
    have htlow := h.validated.lowered htarget
    rcases hkey with hkey | hkey
    · exact id_ne_field htlow hlow (hid.trans hkey.symm)
    · rw [← hid, ← htfname] at hkey
      -- an entity's ID and a field's name can be told apart in the ID of the field
      obtain ⟨hids, rfl⟩ : e.id = target.id ∧ name = tf.name := by
        have hlist : e.namespace_.toList ++ '.' :: (e.name.toList ++ '.' :: name.toList)
            = target.namespace_.toList ++ '.' :: (target.name.toList ++ '.' :: tf.name.toList) := by
          simpa [Entity.id] using congrArg String.toList hkey
        obtain ⟨hns, hrest⟩ := append_cons_inj (dot_not_mem_of_isIdent hlow.1) (dot_not_mem_of_isIdent htlow.1) hlist
        obtain ⟨hname, hfield⟩ :=
          append_cons_inj (dot_not_mem_of_isIdent hlow.2.1) (dot_not_mem_of_isIdent htlow.2.1) hrest
        refine ⟨?_, String.toList_inj.mp hfield⟩
        unfold Entity.id
        rw [String.toList_inj.mp hns, String.toList_inj.mp hname]
      obtain rfl := List.inj_on_of_nodup_map h.validated.nodup he htarget hids
      exact hname (List.mem_map_of_mem htf)
  · -- a name with a namespace is the ID of an entity of the schema
    obtain ⟨r, hr, hsome⟩ := List.mem_filterMap.mp hkey
    obtain ⟨hns, hid⟩ := Option.ite_none_right_eq_some.mp hsome
    obtain ⟨e', hres⟩ := h.resolves f hf d hd r hr
    refine id_ne_field (h.validated.lowered (resolveEntityRef_mem hres)) hlow (Eq.trans ?_ (Option.some.inj hid))
    unfold resolveEntityRef at hres
    rw [if_pos hns] at hres
    split at hres
    · rename_i found
      cases hres
      simpa using List.find?_some found
    · cases hres

/-! ### Classes -/

theorem classifyRemoval_eq (id key : String) : (callerContext caller own others).classifyRemoval id key =
    if (callerContext caller own others).entityOwnership id ≠ some caller then .crossCallerBreaking
    else if buildCrossCallerRefs others key then .crossCallerBreaking else .additive := by
  unfold DiffCtx.classifyRemoval
  show (if caller = "" then _ else _) = _
  rw [if_neg h.named]
  rfl

/-- **The removal of an entity is breaking**, whoever declared it. -/
theorem classifyRemoval_entity (hid : ∀ f ∈ own ++ others, ¬ Declares f id) :
    (callerContext caller own others).classifyRemoval id id = .crossCallerBreaking := by
  rw [h.classifyRemoval_eq, if_pos]
  intro howner
  rcases h.ownership_iff.mp howner with ⟨f, hf, hdecl, _⟩ | ⟨f, hf, hdecl, _⟩
  · exact hid f (List.mem_append_left _ hf) hdecl
  · exact hid f (List.mem_append_right _ hf) hdecl

/-- **The removal of a field is breaking exactly when its entity is declared in another caller's file.** -/
theorem classifyRemoval_field (he : e ∈ lowered.entities) (hname : name ∉ e.fields.map Field.name) :
    (callerContext caller own others).classifyRemoval e.id (e.id ++ "." ++ name) = .crossCallerBreaking ↔
      ∃ f ∈ others, Declares f e.id ∧ callerOfPath f.path ≠ caller := by
  rw [h.classifyRemoval_eq, h.buildCrossCallerRefs_field he hname]
  constructor
  · intro hcls
    split at hcls
    · rename_i hne
      -- an entity of the schema is declared in one of the files
      obtain ⟨f, hf, hdecl⟩ : ∃ f ∈ own ++ others, Declares f e.id := by
        obtain ⟨_, _, _, rfl⟩ := Lower_ok_iff.mp h.lower
        obtain ⟨declared, hdeclared, rfl⟩ := List.mem_map.mp he
        obtain ⟨d, hd, rfl⟩ := List.mem_map.mp ((sortByID_perm _).mem_iff.mp hdeclared)
        obtain ⟨f, hf, hd⟩ := List.mem_flatMap.mp hd
        exact ⟨f, hf, d, hd, rfl⟩
      rcases List.mem_append.mp hf with hf | hf
      · exact absurd (h.ownership_iff.mpr (.inl ⟨f, hf, hdecl, rfl⟩)) hne
      · exact ⟨f, hf, hdecl, fun heq => hne (h.ownership_iff.mpr (.inr ⟨f, hf, hdecl, heq.symm⟩))⟩
    · cases hcls
  · rintro ⟨f, hf, hdecl, hne⟩
    -- an entity has one declaration, so one owner
    rw [h.ownership_iff.mpr (.inr ⟨f, hf, hdecl, rfl⟩), if_pos fun heq => hne (Option.some.inj heq)]

/-! ### Whom a removal concerns -/

variable {declarers : String → List String}

/-- Nothing in accepted files is about an entity that is not there. -/
theorem concernsAnother_entity_iff (hgone : ∀ e ∈ lowered.entities, e.id ≠ ch.entityID) :
    ConcernsAnother caller declarers old lowered others ch ↔
      WasAnothers caller declarers ch.entityID ∨ Named old others ch.entityID := by
  constructor
  · rintro (⟨f, hf, hdecl⟩ | hwas | ⟨f, hf, d, hd, fl, hfl, r, hr, hid, _⟩ | hold | ⟨f, hf, d, hd, hnamed⟩)
    · obtain ⟨e, he, hid⟩ := h.mem_of_declares (List.mem_append_right own hf) hdecl
      exact absurd hid (hgone e he)
    · exact .inl hwas
    · obtain ⟨target, htarget, htid, _⟩ := h.reference_target hf hd hfl hr
      exact absurd (htid.trans hid) (hgone target htarget)
    · exact .inr hold
    · obtain ⟨r, _, e, he, hid⟩ := mem_names.mp hnamed
      exact absurd hid (hgone e (resolveEntityRef_mem he))
  · rintro (hwas | hold)
    · exact .inr (.inl hwas)
    · exact .inr (.inr (.inr (.inl hold)))

end Accepted

/-! ## Removals in a plan -/

/-- An entity is removed when the new schema does not have it, a field when the new version of its entity does not. -/
theorem removal_of_mem (hch : ch ∈ allChanges ctx ord old new) :
    (ch.kind = .entityRemoved →
      entityByID new ch.entityID = none ∧ ch.cls = ctx.classifyRemoval ch.entityID ch.entityID) ∧
    (ch.kind = .fieldRemoved → ∃ newE, entityByID new ch.entityID = some newE ∧ fieldByName newE ch.field = none ∧
      ch.cls = ctx.classifyRemoval newE.id (newE.id ++ "." ++ ch.field)) := by
  rw [mem_allChanges] at hch
  unfold diffID at hch
  split at hch
  · rename_i hnew
    rw [List.mem_singleton.mp hch]
    exact ⟨fun _ => ⟨hnew, rfl⟩, nofun⟩
  · rw [List.mem_singleton.mp hch]
    exact ⟨nofun, nofun⟩
  · rename_i hnew
    cases mem_diffEntity hch with
    | fieldRemoved name oldF ho hn => exact ⟨nofun, fun _ => ⟨_, hnew, hn, rfl⟩⟩
    | field oldF newF kind cls ho hn hdelta => cases hdelta <;> exact ⟨nofun, nofun⟩
    | _ => exact ⟨nofun, nofun⟩
  · cases hch

/-- What `LowerAll` returns names only what is there. -/
theorem accepted_of_LowerAll {full : FullIR} (hcaller : caller ≠ "") (hfull : LowerAll (own ++ others) = .ok full) :
    Accepted caller own others full.toIR := by
  obtain ⟨hlower, hsound, -, -⟩ := LowerAll_ok_iff.mp hfull
  refine ⟨hcaller, hlower, fun f hf d hd => ?_⟩
  have hmem : (f.path, d) ∈ deferred (own ++ others) :=
    List.mem_flatMap.mpr ⟨f, List.mem_append_right own hf, List.mem_map_of_mem hd⟩
  exact resolves_of_lowerItem (hsound _ hmem).1

/-- **When a removal is breaking exactly if it concerns another caller.** -/
theorem removal_breaking_iff {full : FullIR} (hcaller : caller ≠ "") (hfull : LowerAll (own ++ others) = .ok full)
    {ch : Change} (hch : ch ∈ diffOrder (planDiff ord prior caller own others full))
    (hkind : ch.kind = .entityRemoved ∨ ch.kind = .fieldRemoved) (declarers : String → List String) :
    (ch ∈ (planDiff ord prior caller own others full).breaking ↔
        ConcernsAnother caller declarers (priorIR prior) full.toIR others ch) ↔
      Decided caller declarers (priorIR prior) full.toIR others ch := by
  have hacc := accepted_of_LowerAll hcaller hfull
  unfold planDiff at hch ⊢
  rw [mem_diffOrder] at hch
  show (ch ∈ (allChanges _ _ _ _).filter _ ↔ _) ↔ _
  rw [List.mem_filter, and_iff_right hch, decide_eq_true_iff]
  rcases hkind with hkind | hkind
  · obtain ⟨hnew, hcls⟩ := (removal_of_mem hch).1 hkind
    have hgone : ∀ e ∈ full.entities, e.id ≠ ch.entityID := by
      intro e he
      have hmem : assignNumbers (entityByID (priorIR prior) e.id) e ∈ (numbered prior full).entities :=
        List.mem_map_of_mem he
      have hne := lastWith_eq_none.mp hnew _ hmem
      rwa [assignNumbers_id] at hne
    have hnone : ∀ f ∈ own ++ others, ¬ Declares f ch.entityID := by
      intro f hf hdecl
      obtain ⟨e, he, hid⟩ := hacc.mem_of_declares hf hdecl
      exact hgone e he hid
    unfold Decided
    rw [hcls, hacc.classifyRemoval_entity hnone, hacc.concernsAnother_entity_iff hgone, if_pos hkind]
    exact iff_true_left rfl
  · obtain ⟨newE, hnew, hfield, hcls⟩ := (removal_of_mem hch).2 hkind
    obtain ⟨hmem, hid⟩ := entityByID_mem hnew
    obtain ⟨e, he, rfl⟩ := mem_AssignProtoNumbers hmem
    rw [fieldByName_eq_none, assignNumbers_names] at hfield
    rw [assignNumbers_id] at hid hcls
    -- no `references` in accepted files is to a field that is not there
    have href : ¬ Referenced others ch := by
      rintro ⟨f, hf, d, hd, fl, hfl, r, hr, htid, htf⟩
      obtain ⟨target, htarget, hid', tf, htfmem, hname⟩ := hacc.reference_target hf hd hfl hr
      obtain rfl := List.inj_on_of_nodup_map hacc.validated.nodup he htarget (hid.trans (htid.symm.trans hid'.symm))
      exact hfield (List.mem_map.mpr ⟨tf, htfmem, hname.trans (htf hkind)⟩)
    have hother : ch.cls = .crossCallerBreaking ↔
        ∃ f ∈ others, Declares f ch.entityID ∧ callerOfPath f.path ≠ caller := by
      rw [hcls, hacc.classifyRemoval_field he hfield, hid]
    -- a breaking class means that another caller declares the entity, so only the other direction can fail
    have hdecl : ch.cls = .crossCallerBreaking → ∃ f ∈ others, Declares f ch.entityID := by
      intro hbreaking
      obtain ⟨f, hf, hd, _⟩ := hother.mp hbreaking
      exact ⟨f, hf, hd⟩
    unfold Decided ConcernsAnother
    rw [if_neg (by rw [hkind]; exact nofun), ← hother]
    have hprop : ∀ {A D W R P N : Prop}, (A → D) → ¬ R →
        ((A ↔ D ∨ W ∨ R ∨ P ∨ N) ↔ A ∨ (¬ D ∧ ¬ W ∧ ¬ P ∧ ¬ N)) := by
      intro A D W R P N hAD hR
      by_cases hA : A
      · exact iff_of_true ⟨fun _ => .inl (hAD hA), fun _ => hA⟩ (.inl hA)
      · simp only [hA, hR, false_iff, false_or, not_or]
    exact hprop hdecl href

end

/-- An entity with a number, a name and, possibly, a note. -/
def accountEntity (note : Bool) : EntityDecl where
  entity :=
    { namespace_ := "consumer"
      name := "Account"
      fields := [idField, { name := "name", type := .simple "text" }] ++ if note then [noteField] else [] }
  declared := by cases note <;> decide

/-- The caller's own file. -/
def accountFile (note : Bool) : File := { path := "consumer:a.atl", decls := [accountEntity note] }

/-- Another caller's entity, of entries of an account. -/
def ledgerEntity : EntityDecl where
  entity :=
    { namespace_ := "reports"
      name := "Entry"
      fields := [idField,
        { name := "account", type := .simple "bigint", ref := some { targetID := "consumer.Account", targetField := "id" } }] }
  declared := by decide +kernel

/-- A query of that caller that reads the named table. -/
def reportQuery (target : EntityRef) (sql : String) : CustomDecl :=
  .query {
    name := "Names"
    target
    output := some (.columns [⟨"name", .simple "text", none, ""⟩])
    sql := some { raw := sql, touches := [target] } }

/-- The entries, with a query of them. -/
def ledgerFile : File where
  path := "reports:l.atl"
  decls := [ledgerEntity]
  customs := [reportQuery ⟨"reports", "Entry"⟩ "SELECT name FROM atlantis.reports_entry"]

/-- The checkpoint: the entity with its note. -/
def accountIR : FullIR := { entities := [(accountEntity true).entity] }

/-- `consumer` declared everything. -/
def declaredByConsumer : String → List String := fun _ => ["consumer"]

/-- The removal of a field that only its caller knows about is not breaking, though another caller refers to the
    entity. -/
theorem own_field_removal :
    ∃ full, LowerAll ([accountFile false] ++ [ledgerFile]) = .ok full ∧
      ∃ ch ∈ diffOrder (planDiff insertionOrder (some accountIR) "consumer" [accountFile false] [ledgerFile] full),
        ch.kind = .fieldRemoved ∧ ch.cls = .additive ∧
        (ch ∈ (planDiff insertionOrder (some accountIR) "consumer" [accountFile false] [ledgerFile] full).breaking ↔
          ConcernsAnother "consumer" declaredByConsumer accountIR.toIR full.toIR [ledgerFile] ch) := by
  obtain ⟨full, hfull, ch, hch, hkind, hclass, hdecided⟩ :
      ∃ full, LowerAll ([accountFile false] ++ [ledgerFile]) = .ok full ∧
        ∃ ch ∈ diffOrder (planDiff insertionOrder (some accountIR) "consumer" [accountFile false] [ledgerFile] full),
          ch.kind = .fieldRemoved ∧ ch.cls = .additive ∧
          Decided "consumer" declaredByConsumer accountIR.toIR full.toIR [ledgerFile] ch := by
    decide +kernel
  exact ⟨full, hfull, ch, hch, hkind, hclass,
    (removal_breaking_iff (by decide) hfull hch (.inr hkind) declaredByConsumer).mpr hdecided⟩

/-- A query of another caller that reads the table. -/
def reportFile : File where
  path := "reports:r.atl"
  decls := []
  customs := [reportQuery ⟨"consumer", "Account"⟩ "SELECT name FROM atlantis.consumer_account"]

/-- **Removals get the other class.** A caller removes its only entity, which concerns nobody else: breaking. It removes a
    field of an entity that another caller's query touches: not breaking. -/
theorem removals_misclassified :
    (∃ full, LowerAll [] = .ok full ∧ ∃ ch ∈ (planDiff insertionOrder (some accountIR) "consumer" [] [] full).breaking,
      ch.kind = .entityRemoved ∧ ¬ ConcernsAnother "consumer" declaredByConsumer accountIR.toIR full.toIR [] ch) ∧
    (∃ full, LowerAll [accountFile false, reportFile] = .ok full ∧
      ∃ ch ∈ diffOrder (planDiff insertionOrder (some accountIR) "consumer" [accountFile false] [reportFile] full),
        ch.kind = .fieldRemoved ∧
        ch ∉ (planDiff insertionOrder (some accountIR) "consumer" [accountFile false] [reportFile] full).breaking ∧
        ConcernsAnother "consumer" declaredByConsumer accountIR.toIR full.toIR [reportFile] ch) := by
  decide +kernel

end Atlantis.Admin
