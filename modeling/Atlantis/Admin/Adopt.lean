import Atlantis.Admin.PlanBinding
import Atlantis.Codegen.TopoSort
import Atlantis.Codegen.Unnumbered
import Atlantis.Custom.Lower
import Atlantis.Introspect.Postgres
import Atlantis.Proto.History

/-!
# `Admin.Adopt` — what a baseline leaves pending

`AdoptBaseline` compares the declared schema with the live tables, reports the differences, and where nothing disagrees
writes a checkpoint: the declared schema without the entities that have no table. What is declared and not there yet is
reported as an addition, and is left for the next plan to create.

The report is about single changes, the checkpoint about whole entities. An entity with a table is in the checkpoint as
it is declared, with every column, reference and constraint the table lacks, so a later plan has nothing to add
(`mem_allChanges_baseline`). Only what belongs to a table that does not exist stays pending, as the addition of its
entity. Of the declarations without tables the checkpoint keeps queries and procedures, and drops jobs and workflows.

`additions_pending_iff` says for which databases and declarations nothing is lost.
-/

namespace Atlantis.Admin

open Schema Codegen Proto Custom Introspect Lib

/-! ## What a claim about a baseline is about -/

/-- A reported addition is still found by a later plan: itself, or the addition of its whole entity. -/
def StillPending (ord : RangeOrder) (checkpoint declared : IR) (ch : Change) : Prop :=
  ∃ later ∈ allChanges {} ord checkpoint declared, later.entityID = ch.entityID ∧
    ((later.kind = ch.kind ∧ later.field = ch.field) ∨ later.kind = .entityAdded)

instance (ord : RangeOrder) (checkpoint declared : IR) (ch : Change) :
    Decidable (StillPending ord checkpoint declared ch) :=
  inferInstanceAs (Decidable (∃ later ∈ allChanges {} ord checkpoint declared, _))

/-- The declarations that need no table are in the checkpoint. -/
def TablelessKept (checkpoint declared : FullIR) : Prop :=
  (∀ q ∈ declared.customs.queries, q ∈ checkpoint.customs.queries) ∧
    (∀ p ∈ declared.customs.procedures, p ∈ checkpoint.customs.procedures) ∧
    (∀ j ∈ declared.customs.jobs, j ∈ checkpoint.customs.jobs) ∧ ∀ w ∈ declared.customs.workflows, w ∈ checkpoint.customs.workflows

/-- What of a declared field the live table lacks. -/
def missingOf (t : LiveTable) (f : Field) : List ChangeKind :=
  match lastWith ColMeta.name f.name t.cols with
  | none => .fieldAdded :: (if f.ref.isSome then [.fieldReferenceAdded] else [])
  | some c =>
    (if f.unique && !t.cons.uniqueOn f.name then [.fieldUniqueAdded] else []) ++
      (if f.backfill ≠ "" then [.fieldBackfillAdded] else []) ++
      (if f.serial && !c.isSerial then [.fieldSerialAdded] else []) ++
      (if f.ref.isSome && (t.cons.fkOn f.name).isNone then [.fieldReferenceAdded] else [])

/-- Every declared entity with a table has all its parts there, as far as they are of the given kinds. -/
def WhollyThere (live : Live) (declared : IR) (kinds : ChangeKind → Bool) : Prop :=
  ∀ e ∈ declared.entities, ∀ t ∈ live (physical e), ∀ f ∈ e.fields, ∀ k ∈ missingOf t f, kinds k = false

instance (live : Live) (declared : IR) (kinds : ChangeKind → Bool) : Decidable (WhollyThere live declared kinds) :=
  inferInstanceAs (Decidable (∀ e ∈ declared.entities, ∀ t ∈ live (physical e), ∀ f ∈ e.fields, ∀ k ∈ missingOf t f, _))

/-! ## Additions of a diff -/

/-- The additions a field brings, after an old version or none. -/
def additionsOf (oldF : Option Field) (newF : Field) : List ChangeKind :=
  match oldF with
  | none => .fieldAdded :: (if newF.ref.isSome then [.fieldReferenceAdded] else [])
  | some o =>
    (if newF.unique && !o.unique then [.fieldUniqueAdded] else []) ++
      (if o.backfill = "" ∧ newF.backfill ≠ "" then [.fieldBackfillAdded] else []) ++
      (if newF.serial && !o.serial then [.fieldSerialAdded] else []) ++
      (if newF.ref.isSome && o.ref.isNone then [.fieldReferenceAdded] else [])

/-- The kinds of the additions among changes. -/
def additions (l : List Change) : List ChangeKind :=
  (l.filter fun ch => classifyDriftSeverity ch.kind = .addition).map Change.kind

variable {id : String} {oldF newF : Field} {k : ChangeKind} {l l' : List Change}

theorem mem_additions : k ∈ additions l ↔ ∃ ch ∈ l, ch.kind = k ∧ classifyDriftSeverity ch.kind = .addition := by
  simp only [additions, List.mem_map, List.mem_filter, decide_eq_true_eq]
  exact exists_congr fun ch => by tauto

theorem additions_append : additions (l ++ l') = additions l ++ additions l' := by
  simp only [additions, List.filter_append, List.map_append]

/-- **The additions among the changes of a field.** -/
theorem additions_diffField : additions (diffField id oldF newF) = additionsOf (some oldF) newF := by
  have htype : additions (diffFieldType id oldF newF) = [] := by
    unfold diffFieldType
    split <;> rfl
  have hnotNull : additions (diffFieldNotNull id oldF newF) = [] := by
    unfold diffFieldNotNull
    cases oldF.notNull <;> cases newF.notNull <;> rfl
  have hdefault : additions (diffFieldDefault id oldF newF) = [] := by
    unfold diffFieldDefault
    split <;> rfl
  have hunique : additions (diffFieldUnique id oldF newF)
      = if newF.unique && !oldF.unique then [.fieldUniqueAdded] else [] := by
    unfold diffFieldUnique
    cases oldF.unique <;> cases newF.unique <;> rfl
  have hserial : additions (diffFieldSerial id oldF newF)
      = if newF.serial && !oldF.serial then [.fieldSerialAdded] else [] := by
    unfold diffFieldSerial
    cases oldF.serial <;> cases newF.serial <;> rfl
  have hbackfill : additions (diffFieldBackfill id oldF newF)
      = if oldF.backfill = "" ∧ newF.backfill ≠ "" then [.fieldBackfillAdded] else [] := by
    unfold diffFieldBackfill
    by_cases hsame : oldF.backfill = newF.backfill
    · rw [if_pos hsame, if_neg fun h => h.2 (hsame ▸ h.1)]
      rfl
    rw [if_neg hsame]
    by_cases hold : oldF.backfill = ""
    · rw [if_pos hold, if_pos ⟨hold, fun hnew => hsame (hold.trans hnew.symm)⟩]
      rfl
    · have hno : ¬ (oldF.backfill = "" ∧ newF.backfill ≠ "") := fun h => hold h.1
      rw [if_neg hold, if_neg hno]
      split <;> rfl
  have href : additions (diffFieldRef id oldF newF)
      = if newF.ref.isSome && oldF.ref.isNone then [.fieldReferenceAdded] else [] := by
    unfold diffFieldRef
    split <;> rename_i hold hnew <;> rw [hold, hnew] <;> try rfl
    -- a reference that is modified is a mismatch
    show _ = []
    split_ifs <;> rfl
  simp only [diffField, additions_append, htype, hnotNull, hunique, hdefault, hbackfill, hserial, href, additionsOf,
    List.nil_append, List.append_nil]

/-- And among those of a name. -/
theorem additions_diffFieldNamed {ctx : DiffCtx} {oldE newE : Entity} {name : String} :
    additions (diffFieldNamed ctx oldE newE name)
      = ((fieldByName newE name).map (additionsOf (fieldByName oldE name))).getD [] := by
  unfold diffFieldNamed
  cases fieldByName oldE name <;> cases fieldByName newE name
  · rfl
  · rename_i newF
    show additions (_ :: _) = _ :: _
    cases newF.ref <;> rfl
  · rfl
  · exact additions_diffField

/-- **An addition to an entity is one to a field of the new version.** -/
theorem mem_additions_diffEntity {ctx : DiffCtx} {ord : RangeOrder} {oldE newE : Entity}
    (hnodup : (newE.fields.map Field.name).Nodup) :
    k ∈ additions (diffEntity ctx ord oldE newE) ↔ ∃ f ∈ newE.fields, k ∈ additionsOf (fieldByName oldE f.name) f := by
  constructor
  · intro hk
    obtain ⟨ch, hch, hkind, hadd⟩ := mem_additions.mp hk
    simp only [diffEntity, diffTableName, diffIndexes, diffUniques, diffQueryTimeout, List.mem_append,
      List.mem_ite_nil_left, List.mem_map, List.mem_singleton] at hch
    -- only a field brings additions
    rcases hch with (((⟨_, rfl⟩ | hch) | (⟨_, _, rfl⟩ | ⟨_, _, rfl⟩)) | (⟨_, _, rfl⟩ | ⟨_, _, rfl⟩)) | ⟨_, rfl⟩ <;>
      try cases hadd
    obtain ⟨name, _, hname⟩ := List.mem_flatMap.mp hch
    have hk := mem_additions.mpr ⟨ch, hname, hkind, hadd⟩
    rw [additions_diffFieldNamed] at hk
    cases hnew : fieldByName newE name with
    | none =>
      rw [hnew] at hk
      cases hk
    | some f =>
      obtain ⟨hf, rfl⟩ := lastWith_mem hnew
      rw [hnew] at hk
      exact ⟨f, hf, hk⟩
  · rintro ⟨f, hf, hk⟩
    have hnew : fieldByName newE f.name = some f := lastWith_of_nodup hnodup hf
    have hnamed : k ∈ additions (diffFieldNamed ctx oldE newE f.name) := by
      rw [additions_diffFieldNamed, hnew]
      exact hk
    obtain ⟨ch, hch, hkind⟩ := mem_additions.mp hnamed
    exact mem_additions.mpr ⟨ch, mem_diffEntity_of_field hch, hkind⟩

/-! ## Additions of a live database -/

/-- The schema `FromPostgres` returns. -/
def introspected (C : Casing) (live : Live) (declared : IR) : IR :=
  ⟨declared.entities.map (introspect C live declared.entities)⟩

/-- The declared schema with its numbers. -/
def numberedIR (C : Casing) (live : Live) (declared : IR) : IR := AssignProtoNumbers (introspected C live declared) declared

/-- The IDs of the entities with a table. -/
def tabled (live : Live) (declared : IR) : List String :=
  (declared.entities.filter fun e => (live (physical e)).isSome).map Entity.id

/-- The checkpoint that is written. -/
def baseline (C : Casing) (live : Live) (declared : FullIR) : FullIR :=
  filterToExistingEntities { declared with toIR := numberedIR C live declared.toIR } (tabled live declared.toIR)

variable {C} {ord ord' : RangeOrder} {live : Live} {declared : FullIR}

variable {e : Entity} {f : Field} {ch : Change}

/-- **What a table lacks is what the diff adds.** -/
theorem missingOf_eq (C : Casing) (es : List Entity) {t : LiveTable} (ht : live (physical e) = some t)
    (hf : f ∈ e.fields) : missingOf t f = additionsOf (fieldByName (introspect C live es e) f.name) f := by
  unfold fieldByName introspect
  rw [ht]
  show _ = additionsOf (lastWith Field.name f.name (assembleFields C es e t.cols t.cons)) f
  rw [fieldByName_assembled C hf]
  unfold missingOf additionsOf
  cases hcol : lastWith ColMeta.name f.name t.cols with
  | none => rfl
  | some c =>
    have hname : c.name = f.name := (lastWith_mem hcol).2
    simp only [Option.map_some, emitField, hname, Option.isNone_map, true_and]

/-- **What a successful call did.** -/
theorem adoptDeclared_ok {allowDrift : Bool} {adopted : Adopted}
    (h : adoptDeclared ord (FromPostgres C live) declared allowDrift = .ok adopted) :
    adopted.drift = translateDrift (ComputeDiff {} ord (introspected C live declared.toIR) (numberedIR C live declared.toIR)) [] ∧
      ∀ base ∈ adopted.checkpoint, base = baseline C live declared := by
  unfold adoptDeclared at h
  obtain ⟨seen, hseen, h⟩ := bind_ok h
  have hfrom := mapError_ok hseen
  unfold FromPostgres at hfrom
  split at hfrom
  · cases hfrom
  cases hfrom
  cases h
  have hcustoms : diffCustomDecls ord { queries := declared.customs.queries, procedures := declared.customs.procedures }
      declared.customs = [] := diffCustomDecls_of_eq rfl rfl
  constructor
  · show translateDrift _ (diffCustomDecls ord _ declared.customs) = _
    rw [hcustoms]
    rfl
  · intro base hbase
    dsimp only at hbase
    split at hbase
    · cases hbase
    · exact (Option.some.inj hbase).symm

/-- A reported addition is an addition of the diff. -/
theorem mem_translateDrift {d : Diff} {sev : Severity} :
    (.entity ch, sev) ∈ translateDrift d [] ↔ ch ∈ diffOrder d ∧ classifyDriftSeverity ch.kind = sev := by
  simp only [translateDrift, diffOrder, List.map_nil, List.append_nil, List.mem_append, List.mem_map, Prod.mk.injEq,
    DriftChange.entity.injEq]
  aesop

/-! ## The checkpoint and the declaration -/

theorem mem_tabled (hv : Validated declared.toIR) (he : e ∈ declared.toIR.entities) :
    e.id ∈ tabled live declared.toIR ↔ (live (physical e)).isSome = true := by
  constructor
  · intro hmem
    obtain ⟨e', he', hid⟩ := List.mem_map.mp hmem
    obtain ⟨hmem', hlive⟩ := List.mem_filter.mp he'
    rwa [List.inj_on_of_nodup_map hv.nodup hmem' he hid] at hlive
  · intro hlive
    exact List.mem_map_of_mem (List.mem_filter.mpr ⟨he, hlive⟩)

/-- **A baseline leaves only whole entities to a later plan**: those without a table. -/
theorem mem_allChanges_baseline (hv : Validated declared.toIR) :
    ch ∈ allChanges {} ord (baseline C live declared).toIR declared.toIR ↔
      ∃ e ∈ declared.toIR.entities, live (physical e) = none ∧ ch = ⟨.entityAdded, .additive, e.id, ""⟩ := by
  -- the checkpoint's version of an entity is the declared one, where it has a table
  have hbase : ∀ id, entityByID (baseline C live declared).toIR id
        = if (tabled live declared.toIR).contains id then
            (entityByID declared.toIR id).map fun e => assignNumbers (entityByID (introspected C live declared.toIR) e.id) e
          else none := by
    intro id
    show lastWith Entity.id id (List.filter _ (List.map _ _)) = _
    rw [lastWith_filter (fun id => List.contains _ id), lastWith_map fun e => assignNumbers_id _ e]
    rfl
  have hdiff : diffID {} ord (baseline C live declared).toIR declared.toIR ch.entityID = (entityByID declared.toIR ch.entityID).elim [] fun e =>
        if (live (physical e)).isSome then [] else [⟨.entityAdded, .additive, e.id, ""⟩] := by
    unfold diffID
    rw [hbase]
    cases hnew : entityByID declared.toIR ch.entityID with
    | none =>
      rw [Option.map_none, ite_self]
      rfl
    | some e =>
      obtain ⟨he, hid⟩ := entityByID_mem hnew
      rw [← hid, List.contains_eq_mem, Option.map_some, Option.elim_some]
      simp only [mem_tabled hv he, decide_eq_true_eq]
      cases live (physical e) with
      | none => rfl
      | some t => exact diffEntity_unnumbered (assignNumbers_unnumbered _ e) _ _
  rw [mem_allChanges, hdiff]
  constructor
  · intro hch
    cases hnew : entityByID declared.toIR ch.entityID with
    | none =>
      rw [hnew] at hch
      cases hch
    | some e =>
      rw [hnew, Option.elim_some, List.mem_ite_nil_left, List.mem_singleton, Option.not_isSome_iff_eq_none] at hch
      exact ⟨e, (entityByID_mem hnew).1, hch⟩
  · rintro ⟨e, he, hnone, rfl⟩
    rw [entityByID_of_mem hv he]
    simp [hnone]

/-! ## The report -/

/-- The diff the report is made of, entity by entity. -/
theorem diffID_introspected (id : String) :
    diffID {} ord (introspected C live declared.toIR) (numberedIR C live declared.toIR) id =
      match entityByID declared.toIR id with
      | none => []
      | some e => diffEntity {} ord (introspect C live declared.toIR.entities e)
          (assignNumbers (entityByID (introspected C live declared.toIR) e.id) e) := by
  have hold : entityByID (introspected C live declared.toIR) id
      = (entityByID declared.toIR id).map (introspect C live declared.toIR.entities) :=
    lastWith_map (fun e => introspect_id C) id _
  have hnew : entityByID (numberedIR C live declared.toIR) id
      = (entityByID declared.toIR id).map fun e => assignNumbers (entityByID (introspected C live declared.toIR) e.id) e :=
    lastWith_map (fun e => assignNumbers_id _ e) id _
  unfold diffID
  rw [hold, hnew]
  cases entityByID declared.toIR id <;> rfl

/-- **What is reported is what the fields of a declared entity lack.** -/
theorem reported_iff (hv : Validated declared.toIR) {id : String} {k : ChangeKind} :
    (∃ ch ∈ allChanges {} ord (introspected C live declared.toIR) (numberedIR C live declared.toIR),
        ch.entityID = id ∧ ch.kind = k ∧ classifyDriftSeverity ch.kind = .addition) ↔
      ∃ e ∈ declared.toIR.entities, e.id = id ∧
        ∃ f ∈ e.fields, k ∈ additionsOf (fieldByName (introspect C live declared.toIR.entities e) f.name) f := by
  -- numbers apart, the fields are the declared ones
  have hentity : ∀ e ∈ declared.toIR.entities, k ∈ additions (diffEntity {} ord (introspect C live declared.toIR.entities e)
        (assignNumbers (entityByID (introspected C live declared.toIR) e.id) e)) ↔
      ∃ f ∈ e.fields, k ∈ additionsOf (fieldByName (introspect C live declared.toIR.entities e) f.name) f := by
    intro e he
    have hfields : (assignNumbers (entityByID (introspected C live declared.toIR) e.id) e).fields.map unnumbered
        = e.fields.map unnumbered := congrArg Entity.fields (assignNumbers_unnumbered _ e)
    have hun : ∀ (oldE : Entity) (l : List Field), (∃ f ∈ l, k ∈ additionsOf (fieldByName oldE f.name) f) ↔
        ∃ g ∈ l.map unnumbered, k ∈ additionsOf (fieldByName oldE g.name) g := by
      intro oldE l
      simp only [List.mem_map, exists_exists_and_eq_and]
      rfl
    rw [mem_additions_diffEntity (by rw [assignNumbers_names]; exact (hv.lowered he).2.2.1), hun, hfields, ← hun]
  constructor
  · rintro ⟨ch, hch, rfl, hkind⟩
    rw [mem_allChanges, diffID_introspected] at hch
    split at hch
    · cases hch
    rename_i e hnew
    obtain ⟨he, hid⟩ := entityByID_mem hnew
    exact ⟨e, he, hid, (hentity e he).mp (mem_additions.mpr ⟨ch, hch, hkind⟩)⟩
  · rintro ⟨e, he, rfl, hf⟩
    obtain ⟨ch, hch, hkind⟩ := mem_additions.mp ((hentity e he).mpr hf)
    have hid : ch.entityID = e.id := (entityID_of_mem_diffEntity hch).trans (assignNumbers_id _ e)
    refine ⟨ch, ?_, hid, hkind⟩
    rw [mem_allChanges, hid, diffID_introspected, entityByID_of_mem hv he]
    exact hch

/-- **When a baseline loses nothing.** -/
theorem additions_pending_iff (hv : Validated declared.toIR) {adopted : Adopted}
    (h : adoptDeclared ord (FromPostgres C live) declared false = .ok adopted) {base : FullIR} (hbase : adopted.checkpoint = some base)
    (kinds : ChangeKind → Bool) :
    ((∀ ch, (.entity ch, .addition) ∈ adopted.drift → kinds ch.kind = true →
          StillPending ord' base.toIR declared.toIR ch) ∧ TablelessKept base declared) ↔
      WhollyThere live declared.toIR kinds ∧ declared.customs.jobs = [] ∧ declared.customs.workflows = [] := by
  obtain ⟨hdrift, hcheckpoint⟩ := adoptDeclared_ok h
  obtain rfl := hcheckpoint base hbase
  have hkept : TablelessKept (baseline C live declared) declared ↔
      declared.customs.jobs = [] ∧ declared.customs.workflows = [] := by
    rw [List.eq_nil_iff_forall_not_mem, List.eq_nil_iff_forall_not_mem]
    constructor
    · rintro ⟨_, _, hjobs, hworkflows⟩
      exact ⟨fun j hj => List.not_mem_nil (hjobs j hj), fun w hw => List.not_mem_nil (hworkflows w hw)⟩
    · rintro ⟨hjobs, hworkflows⟩
      exact ⟨fun q hq => hq, fun p hp => hp, fun j hj => absurd hj (hjobs j), fun w hw => absurd hw (hworkflows w)⟩
  refine and_congr ?_ hkept
  constructor
  · intro hpending e he t ht f hf k hk
    rw [Option.mem_def] at ht
    rw [missingOf_eq C declared.toIR.entities ht hf] at hk
    obtain ⟨ch, hch, hid, rfl, hadd⟩ := (reported_iff hv).mpr ⟨e, he, rfl, f, hf, hk⟩
    by_contra hkinds
    rw [Bool.not_eq_false] at hkinds
    have hreport : (.entity ch, .addition) ∈ adopted.drift := by
      rw [hdrift, mem_translateDrift, mem_diffOrder]
      exact ⟨hch, hadd⟩
    obtain ⟨later, hlater, hlaterID, _⟩ := hpending ch hreport hkinds
    obtain ⟨e', he', hnone, rfl⟩ := (mem_allChanges_baseline hv).mp hlater
    -- what is pending is an entity without a table, and this one has a table
    have hsame : e' = e := List.inj_on_of_nodup_map hv.nodup he' he (hlaterID.trans hid)
    rw [hsame, ht] at hnone
    cases hnone
  · intro hwhole ch hreport hkinds
    rw [hdrift, mem_translateDrift, mem_diffOrder] at hreport
    obtain ⟨e, he, hid, f, hf, hkind⟩ := (reported_iff hv).mp ⟨ch, hreport.1, rfl, rfl, hreport.2⟩
    cases hlive : live (physical e) with
    | none =>
      refine ⟨⟨.entityAdded, .additive, e.id, ""⟩, ?_, hid, .inr rfl⟩
      exact (mem_allChanges_baseline hv).mpr ⟨e, he, hlive, rfl⟩
    | some t =>
      rw [← missingOf_eq C declared.toIR.entities hlive hf] at hkind
      have hnot := hwhole e he t hlive f hf _ hkind
      rw [hkinds] at hnot
      cases hnot

/-- A declared table of two columns, one of them unique. -/
def voucherIR : IR := ⟨[
  { namespace_ := "shop"
    name := "Voucher"
    fields := [idField, { name := "code", type := .simple "text", unique := true }] }]⟩

/-- A database that has the table. -/
def voucherTable (t : LiveTable) : Live := fun ref => if ref = ("atlantis", "shop_voucher") then some t else none

/-- The table with both columns and both constraints. -/
def wholeVouchers : LiveTable where
  columns := [{ attname := "id", typname := "int8", attnotnull := true }, { attname := "code", typname := "text" }]
  constraints := [{ contype := .primary, colNames := ["id"] }, { contype := .unique, colNames := ["code"] }]

/-- Beside the vouchers, a table that is still to be created, and a query. -/
def vouchersAndWallets : FullIR where
  entities := voucherIR.entities ++ [keyTable "shop" "Wallet" ""]
  customs :=
    { queries := [⟨"AllVouchers", "shop.Voucher", [], .asEntityID "shop.Voucher", "SELECT id, code FROM shop_voucher",
      ["shop.Voucher"], none, ""⟩] }

/-- A table that is all there leaves nothing pending; the one that is missing is still to be added, and the query is kept. -/
theorem whole_table_adopted :
    ∃ adopted base, adoptDeclared insertionOrder (FromPostgres asciiCasing (voucherTable wholeVouchers)) vouchersAndWallets false
        = .ok adopted ∧ adopted.checkpoint = some base ∧
      (∃ ch, (.entity ch, .addition) ∈ adopted.drift ∧ ch.entityID = "shop.Wallet") ∧
      (∀ ch, (.entity ch, .addition) ∈ adopted.drift → StillPending insertionOrder base.toIR vouchersAndWallets.toIR ch) ∧
      TablelessKept base vouchersAndWallets := by
  have hthere : WhollyThere (voucherTable wholeVouchers) vouchersAndWallets.toIR fun _ => true := by decide +kernel
  have hall := (@additions_pending_iff asciiCasing insertionOrder insertionOrder (voucherTable wholeVouchers)
    vouchersAndWallets (by decide +kernel) _ rfl _ rfl fun _ => true).mpr ⟨hthere, rfl, rfl⟩
  exact ⟨_, _, rfl, rfl, ⟨⟨.fieldAdded, .backfillRequired, "shop.Wallet", "id"⟩, by decide +kernel, rfl⟩,
    fun ch hch => hall.1 ch hch rfl, hall.2⟩

/-- The table without the second column. -/
def bareVouchers : LiveTable where
  columns := [{ attname := "id", typname := "int8", attnotnull := true }]
  constraints := [{ contype := .primary, colNames := ["id"] }]

/-- The declaration with a job. -/
def vouchersWithJob : FullIR := { toIR := voucherIR, customs := { jobs := [{ name := "Expire", namespace_ := "shop" }] } }

/-- **A column that is missing is reported, and no later plan adds it; the job is gone.** -/
theorem additions_lost :
    ∃ adopted base, adoptDeclared insertionOrder (FromPostgres asciiCasing (voucherTable bareVouchers)) vouchersWithJob false
        = .ok adopted ∧ adopted.checkpoint = some base ∧
      (∃ ch, (.entity ch, .addition) ∈ adopted.drift ∧ ch.kind = .fieldAdded ∧
        ¬ StillPending insertionOrder base.toIR voucherIR ch) ∧ ¬ TablelessKept base vouchersWithJob := by
  refine ⟨_, _, rfl, rfl, ⟨⟨.fieldAdded, .additive, "shop.Voucher", "code"⟩, by decide +kernel⟩, ?_⟩
  rintro ⟨_, _, hjobs, _⟩
  exact List.not_mem_nil (hjobs _ List.mem_cons_self)

end Atlantis.Admin
