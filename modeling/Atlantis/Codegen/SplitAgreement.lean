import Atlantis.Codegen.DiffOrder
import Atlantis.Codegen.PhaseSplit
import Atlantis.Pg.Flags

/-!
# `Codegen.SplitAgreement` — the scripts around a backfill against the single script

Between the two scripts of a split a worker fills rows, which changes nothing in the catalog; so the split should
leave what the single script leaves. Two things separate them. The walk that builds the split does not sort the added
entities, so an entity can be created before one that it references. And the split makes every backfilled column
`NOT NULL` at the end, while the single script leaves a column nullable that belongs to a primary field.

`split_eq_up_iff` says that nothing else does. That the constraints of the last script can wait is `Pg.Flags`; that the
entities can be created in the order of the diff is `Codegen.DiffOrder`.
-/

namespace Atlantis.Codegen

open Schema Pg Lib

/-- **No key is backfilled as it is added**: an added primary field with a backfill is `serial` or `identity`. -/
def NoKeyAdded (old new : IR) : Prop :=
  ∀ e ∈ new.entities, (entityByID old e.id).isSome → ∀ f ∈ e.fields, hadField old e f.name = false →
    f.backfill ≠ "" → f.primary = true → f.serial = true ∨ f.identity = true

instance (old new : IR) : Decidable (NoKeyAdded old new) := by
  unfold NoKeyAdded
  exact inferInstance

/-! ## Deferred columns -/

/-- The change defers the `NOT NULL` of a field. -/
structure Defers (old new : IR) (ch : Change) (oldE newE : Entity) (f : Field) : Prop where
  versions : Versions old new oldE newE
  id : newE.id = ch.entityID
  mem : f ∈ newE.fields
  notNull : f.notNull = true
  backfill : f.backfill ≠ ""
  post : (emitPhaseSplitChange new old ch).post = [emitNotNull newE f.name true]
  deferred : (emitPhaseSplitChange new old ch).deferred = some (newE.id, f.name)
  pre : (f.name ∉ oldE.fields.map Field.name ∧ (emitPhaseSplitChange new old ch).pre = emitFieldAddNullable newE f ∧
      (emitChange new old ch).up = emitFieldAdd newE f) ∨
    ((emitPhaseSplitChange new old ch).pre = [] ∧ (emitChange new old ch).up = [emitNotNull newE f.name true])

variable {ctx : DiffCtx} {ord ord' : RangeOrder} {old new : IR} {mentions : String → String → Bool} {c c₁ c' : Catalog}
  {ch : Change} {s : Stmt} {ss : List Stmt} {oldE newE : Entity} {f : Field} {on : Bool}

/-- Other kinds of changes are not routed. -/
theorem emitPhaseSplitChange_plain (hadded : ch.kind ≠ .fieldAdded) (htight : ch.kind ≠ .fieldNotNullTightened) :
    emitPhaseSplitChange new old ch = ⟨(emitChange new old ch).up, [], none⟩ := by
  unfold emitPhaseSplitChange
  dsimp only
  split
  · rfl
  · split
    · exact absurd ‹_› hadded
    · exact absurd ‹_› htight
    · rfl

/-- **What a change writes to the two scripts**: all of it to the first, or a deferred `NOT NULL` to the second. -/
theorem emitPhaseSplitChange_cases (hold : Validated old) (hnew : Validated new)
    (hch : ch ∈ allChanges ctx ord old new) :
    emitPhaseSplitChange new old ch = ⟨(emitChange new old ch).up, [], none⟩ ∨
    ∃ oldE newE f, Defers old new ch oldE newE f := by
  by_cases hrouted : ch.kind = .fieldAdded ∨ ch.kind = .fieldNotNullTightened
  · rw [mem_allChanges] at hch
    unfold diffID at hch
    split at hch
    · rw [List.mem_singleton.mp hch] at hrouted
      simp at hrouted
    · rw [List.mem_singleton.mp hch] at hrouted
      simp at hrouted
    · rename_i oldE newE ho hn
      have hv := versions_of_byID hold hnew ho hn
      cases mem_diffEntity hch with
      | fieldAdded f hfo hfn =>
        obtain ⟨hf, -⟩ := mem_of_fieldByName hfn
        have hfind := findField_of_mem (hnew.lowered hv.newMem) hf
        by_cases hdefer : f.backfill ≠ "" ∧ f.notNull = true
        · refine .inr ⟨oldE, newE, f, hv, rfl, hf, hdefer.2, hdefer.1, ?_, ?_, .inl ⟨fieldByName_eq_none.mp hfo, ?_, ?_⟩⟩
          all_goals simp only [emitPhaseSplitChange, emitChange, withField, hv.newByID, hfind, if_pos hdefer]
        · refine .inl ?_
          simp only [emitPhaseSplitChange, hv.newByID, hfind, if_neg hdefer]
      | field oldF f kind cls hfo hfn hd =>
        obtain ⟨hf, -⟩ := mem_of_fieldByName hfn
        have hfind := findField_of_mem (hnew.lowered hv.newMem) hf
        cases hd with
        | tightened _ hnotNull =>
          by_cases hdefer : f.backfill ≠ ""
          · refine .inr ⟨oldE, newE, f, hv, rfl, hf, hnotNull, hdefer, ?_, ?_, .inr ⟨?_, ?_⟩⟩
            all_goals simp only [emitPhaseSplitChange, emitChange, withEntity, hv.newByID, hfind, if_pos hdefer]
          · refine .inl ?_
            simp only [emitPhaseSplitChange, hv.newByID, hfind, if_neg hdefer]
        | _ => simp at hrouted
      | _ => simp at hrouted
    · cases hch
  · rw [not_or] at hrouted
    exact .inl (emitPhaseSplitChange_plain hrouted.1 hrouted.2)

/-- A statement of the first script is one of the up script, or adds a deferred column without its `NOT NULL`. -/
theorem mem_pre (hold : Validated old) (hnew : Validated new) (hch : ch ∈ allChanges ctx ord old new)
    (hs : s ∈ (emitPhaseSplitChange new old ch).pre) : UpStmt old new ch s ∨
      ∃ e ∈ new.entities, e.id = ch.entityID ∧ ∃ d, s = .addColumn (qualifiedTable e) d := by
  rcases emitPhaseSplitChange_cases hold hnew hch with hplain | ⟨oldE, newE, f, hd⟩
  · rw [hplain] at hs
    exact .inl (upStmt_of_mem hold hnew hch hs)
  · rcases hd.pre with ⟨_, hpre, hup⟩ | ⟨hpre, _⟩
    · rw [hpre] at hs
      unfold emitFieldAddNullable at hs
      rcases List.mem_cons.mp hs with rfl | hs
      · exact .inr ⟨newE, hd.versions.newMem, hd.id, _, rfl⟩
      · refine .inl (upStmt_of_mem hold hnew hch ?_)
        rw [hup]
        exact List.mem_cons_of_mem _ hs
    · rw [hpre] at hs
      cases hs

/-! ## Nothing else sets the flag -/

/-- **A migration leaves the flag of a column alone**, but for the changes of the field itself. -/
theorem UpStmt.leaves (h : AddsApart old new c) (hs : UpStmt old new ch s) (hv : Versions old new oldE newE)
    (hf : f ∈ newE.fields) (hon : if on then f.notNull = true else f.name ∉ oldE.fields.map Field.name) :
    s.Leaves (qualifiedTable newE) f.name on := by
  have hnewAll : newE ∈ old.entities ++ new.entities := List.mem_append_right _ hv.newMem
  have hsame : ∀ {oldE' newE' : Entity}, Versions old new oldE' newE' → qualifiedTable newE' = qualifiedTable newE →
      oldE' = oldE ∧ newE' = newE := fun hv' heq =>
    hv.eq_of_id hv' (h.id_of_table (List.mem_append_right _ hv'.newMem) hnewAll heq)
  have hfield : ∀ {g : Field}, g ∈ newE.fields → g.name = f.name → g = f := fun hg hname =>
    List.inj_on_of_nodup_map (hv.newValid.lowered hv.newMem).2.2.1 hg hf hname
  cases hs with
  | create e s ho hn _ hs =>
    cases createStmt_of_mem hs with
    | table | index _ _ | hypertable | function _ | dropTrigger | createTrigger => exact ⟨trivial, nofun, nofun⟩
  | drop e s ho hn hs =>
    obtain ⟨he, hid⟩ := entityByID_mem ho
    rcases dropStmt_of_mem hs with rfl | ⟨_, rfl⟩
    · refine ⟨trivial, ?_, nofun⟩
      intro heq
      have hsameID := h.id_of_table (List.mem_append_left _ he) hnewAll (Stmt.dropTable.inj heq)
      have hfound := hv.newByID
      rw [← hsameID, hid, hn] at hfound
      cases hfound
    · exact ⟨trivial, nofun, nofun⟩
  | addColumn | setType | setDefault | dropUnique | dropForeignKey | createIndex | dropIndex => exact ⟨trivial, nofun, nofun⟩
  | addForeignKey | addUnique => exact ⟨nofun, nofun, nofun⟩
  | dropColumn oldE' newE' g hv' hid _ hname =>
    refine ⟨trivial, nofun, ?_⟩
    intro heq
    obtain ⟨htable, hsameName⟩ := Stmt.dropColumn.inj heq
    have hid' := h.id_of_table (List.mem_append_left _ hv'.oldMem) hnewAll htable
    obtain ⟨_, rfl⟩ := hv.eq_of_id hv' (hv'.id.symm.trans hid')
    exact hname (hsameName ▸ List.mem_map_of_mem hf)
  | tighten oldE' newE' g hv' hid hg hhad hnotNull _ _ =>
    refine ⟨?_, nofun, nofun⟩
    intro htable hname
    obtain ⟨rfl, rfl⟩ := hsame hv' htable
    cases on with
    | true => rfl
    | false => exact absurd (hname ▸ hhad) hon
  | loosen oldE' newE' g hv' hid hg hnotNull =>
    refine ⟨?_, nofun, nofun⟩
    intro htable hname
    obtain ⟨rfl, rfl⟩ := hsame hv' htable
    obtain rfl := hfield hg hname
    cases on with
    | true => exact absurd hon (by simp [hnotNull])
    | false => rfl

/-! ## The two halves of a change -/

/-- Adding the column is adding it nullable and setting the flag. -/
theorem exec_addColumn_nullable {t : TableRef} (hnotNull : f.notNull = true)
    (hkey : f.primary = true → f.serial = true ∨ f.identity = true)
    (h : exec mentions c (.addColumn t (columnDecl f)) = .ok c') :
    ∃ c₀, exec mentions c (.addColumn t (columnDecl { f with notNull := false })) = .ok c₀ ∧ c₀.HasColumn t f.name ∧
      c' = c₀.mark t f.name true := by
  obtain ⟨hready, hget⟩ := exec_spec h trivial
  obtain ⟨c₀, h₀⟩ := (@exec_ready mentions c (.addColumn t (columnDecl { f with notNull := false })) trivial).mpr hready
  have hget₀ := (exec_spec h₀ trivial).2
  have hname : (columnDecl f).name = f.name ∧ (columnDecl { f with notNull := false }).name = f.name := ⟨rfl, rfl⟩
  have hinline : inlineConstraints t (columnDecl { f with notNull := false }) = inlineConstraints t (columnDecl f) := rfl
  have hcolumn : (columnDecl f).spec.column
      = { (columnDecl { f with notNull := false }).spec.column with notNull := true } := by
    unfold columnDecl
    by_cases hserial : f.serial = true
    · simp [hserial, ColumnSpec.column]
    · by_cases hidentity : f.identity = true
      · simp [hserial, hidentity, ColumnSpec.column]
      · have hprimary : f.primary = false := by
          rw [Bool.eq_false_iff]
          intro hp
          exact (hkey hp).elim hserial hidentity
        simp [hserial, hidentity, hprimary, hnotNull, ColumnSpec.column]
  refine ⟨c₀, h₀, ?_, Catalog.ext_get fun k => ?_⟩
  · rw [hasColumn_iff, hget₀]
    simp [Stmt.effect, ColumnDecl.get, hname]
  · rw [get_mark, hget, hget₀, flagged]
    cases k with
    | inTable t' p =>
      by_cases ht : t' = t
      · cases p with
        | column n | notNull n | default n =>
          by_cases hn : n = f.name <;> simp [Stmt.effect, ColumnDecl.get, hcolumn, hname, ht, hn]
        | _ => simp [Stmt.effect, ColumnDecl.get, hinline, ht]
      · simp [Stmt.effect, ht]
    | index _ _ | function _ => simp [Stmt.effect]

/-- **A change in two halves**: what it does is what its parts in the two scripts do. -/
theorem run_halves (hold : Validated old) (hnew : Validated new) (hkeys : NoKeyAdded old new)
    (hch : ch ∈ allChanges ctx ord old new) (h : upStep mentions old new c ch = .ok c') :
    ∃ c₀, run mentions (emitPhaseSplitChange new old ch).pre c = .ok c₀ ∧
      run mentions (emitPhaseSplitChange new old ch).post c₀ = .ok c' := by
  unfold upStep at h
  rcases emitPhaseSplitChange_cases hold hnew hch with hplain | ⟨oldE, newE, f, hd⟩
  · rw [hplain]
    exact ⟨c', h, rfl⟩
  · rw [hd.post]
    rcases hd.pre with ⟨hnot, hpre, hup⟩ | ⟨hpre, hup⟩
    · have hkey : f.primary = true → f.serial = true ∨ f.identity = true := by
        refine hkeys newE hd.versions.newMem ?_ f hd.mem (hd.versions.hadField_eq_false.mpr hnot) hd.backfill
        rw [hd.versions.oldByID]
        rfl
      rw [hpre]
      rw [hup] at h
      unfold emitFieldAdd at h
      obtain ⟨c₁, h₁, h⟩ := bind_ok h
      obtain ⟨c₂, h₂, hcol, rfl⟩ := exec_addColumn_nullable hd.notNull hkey h₁
      -- the foreign key does not look at the flag
      have hleaves : ∀ s ∈ (emitFieldAdd newE f).tail, s.Leaves (qualifiedTable newE) f.name true := by
        intro s hs
        rcases fieldStmt_of_mem (List.mem_of_mem_tail hs) with rfl | ⟨r, _, rfl⟩
        · exact ⟨trivial, nofun, nofun⟩
        · exact ⟨nofun, nofun, nofun⟩
      obtain ⟨c₃, h₃, hcol₃, rfl⟩ := run_mark hcol hleaves h
      refine ⟨c₃, ?_, ?_⟩
      · unfold emitFieldAddNullable
        rw [run_cons, h₂]
        exact h₃
      · rw [run_cons, emitNotNull, exec_setNotNull hcol₃]
        rfl
    · rw [hpre]
      rw [hup] at h
      exact ⟨c, rfl, h⟩

/-- What a later change writes to the first script passes what a change writes to the second. -/
theorem passes_post (hold : Validated old) (hnew : Validated new) (hapart : AddsApart old new c)
    {x x' : Change} (hx : x ∈ allChanges ctx ord old new) (hx' : x' ∈ allChanges ctx ord old new) :
    Passes (fun c ss => run mentions ss c) (fun _ _ => True) (emitPhaseSplitChange new old x').pre
      (emitPhaseSplitChange new old x).post where
  keeps := fun _ _ => trivial
  swap := by
    intro c₀ c₁ c₂ _ hpost hpre
    rcases emitPhaseSplitChange_cases hold hnew hx with hplain | ⟨oldE, newE, f, hd⟩
    · rw [hplain] at hpost ⊢
      cases hpost
      exact ⟨c₂, hpre, rfl⟩
    · rw [hd.post] at hpost ⊢
      obtain ⟨c₃, hset, hpost⟩ := bind_ok hpost
      cases hpost
      have hcol := hasColumn_of_setNotNull hset
      rw [emitNotNull, exec_setNotNull hcol] at hset
      cases hset
      have hleaves : ∀ s ∈ (emitPhaseSplitChange new old x').pre, s.Leaves (qualifiedTable newE) f.name true := by
        intro s hs
        rcases mem_pre hold hnew hx' hs with hup | ⟨_, _, _, _, rfl⟩
        · exact hup.leaves hapart hd.versions hd.mem hd.notNull
        · exact ⟨trivial, nofun, nofun⟩
      obtain ⟨c₄, h₄, hcol₄, rfl⟩ := run_mark hcol hleaves hpre
      refine ⟨c₄, h₄, ?_⟩
      rw [run_cons, emitNotNull, exec_setNotNull hcol₄]
      rfl

/-! ## The scripts -/

section Scripts

/-- The first script, change by change. -/
theorem run_preBackfillUp (d : Diff) : run mentions (buildPhaseSplit ord' old new d).preBackfillUp c
    = ((diffOrder d).map fun ch => (emitPhaseSplitChange new old ch).pre).foldlM (fun c ss => run mentions ss c) c := by
  unfold buildPhaseSplit
  dsimp only
  rw [run_append, run_createSchemas]
  show run mentions _ c = _
  rw [run_flatMap, List.foldlM_map, List.foldlM_map]
  rfl

variable {split : PhaseSplit} (hold : Validated old) (hnew : Validated new) (hapart : AddsApart old new c)
  (hsplit : split = buildPhaseSplit ord' old new (ComputeDiff ctx ord old new))

include hold hnew hapart hsplit

/-- **Where the order fits and no key is added the split does what the single script does.** -/
theorem split_of_up (hfits : OrderFits old new) (hkeys : NoKeyAdded old new)
    (h : run mentions (emitUp old new (ComputeDiff ctx ord old new)) c = .ok c') :
    run mentions (split.preBackfillUp ++ split.postBackfillUp) c = .ok c' := by
  subst hsplit
  have hunzip : ((diffOrder (ComputeDiff ctx ord old new)).map (fun ch => (emitPhaseSplitChange new old ch).pre)
      ++ (diffOrder (ComputeDiff ctx ord old new)).map fun ch => (emitPhaseSplitChange new old ch).post).foldlM
        (fun c ss => run mentions ss c) c = .ok c' := by
    refine foldlM_unzip ?_ ?_ (diffOrder_of_emissionOrder hold hnew hapart hfits h)
    · intro ch hch c₀ c₁ hstep
      exact run_halves hold hnew hkeys (mem_diffOrder.mp hch) hstep
    · refine List.pairwise_of_forall_mem_list ?_
      intro x hx x' hx'
      exact passes_post hold hnew hapart (mem_diffOrder.mp hx) (mem_diffOrder.mp hx')
  obtain ⟨c₁, hpre, hpost⟩ := foldlM_append_iff.mp hunzip
  rw [run_append, run_preBackfillUp, hpre]
  rw [List.foldlM_map] at hpost
  show run mentions (buildPhaseSplit ord' old new _).postBackfillUp c₁ = _
  unfold buildPhaseSplit
  dsimp only
  rw [← hpost, run_flatMap, List.foldlM_map]
  rfl

/-- When the first script comes to an additive change, the names of later entities are still free. -/
theorem exists_before {x : Change} (hx : x ∈ (ComputeDiff ctx ord old new).additive)
    (h : run mentions (split.preBackfillUp ++ ss) c = .ok c') :
    ∃ c₁ c₂, run mentions (emitPhaseSplitChange new old x).pre c₁ = .ok c₂ ∧
      ∀ e ∈ new.entities, entityByID old e.id = none → x.entityID < e.id ∨ x.kind = .entityAdded ∧ x.entityID = e.id →
        (footprint e).Free c₁ := by
  rw [hsplit, run_append, run_preBackfillUp] at h
  obtain ⟨cpre, hpre, _⟩ := bind_ok h
  have hsorted : (ComputeDiff ctx ord old new).additive.Pairwise fun a b => a.entityID ≤ b.entityID :=
    sorted_allChanges.filter _
  have honce : (ComputeDiff ctx ord old new).additive.Pairwise fun a b => b.kind.adds = true → a ≠ b := addsOnce.filter _
  have hmem : ∀ ch ∈ (ComputeDiff ctx ord old new).additive, ch ∈ allChanges ctx ord old new := by
    intro ch hch
    exact (List.mem_filter.mp hch).1
  unfold diffOrder at hpre
  obtain ⟨before, after, hsplit⟩ := List.append_of_mem hx
  rw [hsplit] at hpre hsorted honce hmem
  simp only [List.map_append, List.map_cons, List.append_assoc, List.cons_append] at hpre
  obtain ⟨c₁, hbefore, hpre⟩ := foldlM_append_iff.mp hpre
  obtain ⟨c₂, hxrun, _⟩ := bind_ok hpre
  refine ⟨c₁, c₂, hxrun, ?_⟩
  intro e he hadded hlater
  rw [List.foldlM_map] at hbefore
  refine foldlM_invariant (I := fun _ c => (footprint e).Free c) (hapart.free e he hadded) ?_ hbefore
  intro pre y rest c₀ c₀' hpart hfree hstep
  refine hfree.run (fun s hs => ?_) hstep
  have hy : y ∈ before := by
    rw [hpart]
    simp
  have hyAll := hmem y (List.mem_append_left _ hy)
  have hxAll := hmem x (List.mem_append_right _ List.mem_cons_self)
  have hne : y.entityID ≠ e.id := by
    rcases hlater with hlt | ⟨hk, hid⟩
    · exact ne_of_lt (lt_of_le_of_lt ((List.pairwise_append.mp hsorted).2.2 y hy x List.mem_cons_self) hlt)
    · rw [← hid]
      exact entityID_ne_of_added hyAll hxAll hk
        ((List.pairwise_append.mp honce).2.2 y hy x List.mem_cons_self (by rw [hk]; rfl))
  rcases mem_pre hold hnew hyAll hs with hup | ⟨b, hb, hid, _, rfl⟩
  · exact hup.spares hapart hnew he hadded hne
  · exact hapart.tables b (List.mem_append_right _ hb) e (List.mem_append_right _ he) (hid ▸ hne)

/-- **A reference that looks ahead stops the first script.** -/
theorem orderFits_of_split (h : run mentions (split.preBackfillUp ++ ss) c = .ok c') : OrderFits old new := by
  intro b hb f hf hhad r hr hnone
  replace hr : f.ref = some r := hr
  by_contra hle
  have hlt : b.id < r.targetID := not_le.mp hle
  obtain ⟨e, he, hid, htbl, tf, htf, htfname⟩ := exists_target hnew hb hf hr
  have hadded : entityByID old e.id = none := hid ▸ hnone
  have htable : fkTargetRef r ≠ qualifiedTable b := by
    rw [← htbl]
    exact hapart.tables e (List.mem_append_right _ he) b (List.mem_append_right _ hb) (hid ▸ (ne_of_lt hlt).symm)
  -- no catalog on the way to the reference has the table it points to
  have habsent : ∀ {c₁ : Catalog}, (footprint e).Free c₁ → ¬ c₁.HasColumn (fkTargetRef r) r.targetField := by
    rintro c₁ hfree ⟨tbl, hsome, _⟩
    have hfreeTable : c₁.tables (qualifiedTable e) = none := hfree.table
    rw [htbl, hsome] at hfreeTable
    cases hfreeTable
  cases hob : entityByID old b.id with
  | none =>
    have hx : (⟨.entityAdded, .additive, b.id, ""⟩ : Change) ∈ (ComputeDiff ctx ord old new).additive := by
      refine List.mem_filter.mpr ⟨mem_allChanges.mpr ?_, rfl⟩
      unfold diffID
      rw [hob, entityByID_of_mem hnew hb]
      exact List.mem_singleton_self _
    obtain ⟨c₁, c₂, hrun, hfree⟩ := exists_before hold hnew hapart hsplit hx h
    rw [emitPhaseSplitChange_plain (by simp) (by simp)] at hrun
    simp only [emitChange, entityByID_of_mem hnew hb, withEntity] at hrun
    have hsup := supplied_of_create (hfree b hb hob (.inr ⟨rfl, rfl⟩)) hrun
    refine habsent (hfree e he hadded (.inl (hid ▸ hlt))) ?_
    exact hsup _ (mem_needs.mpr ⟨f, hf, r, hr, rfl, htable⟩)
  | some oldB =>
    have hv := versions_of_byID hold hnew hob (entityByID_of_mem hnew hb)
    have hnot := hv.hadField_eq_false.mp hhad
    have hx : (⟨.fieldReferenceAdded, .additive, b.id, f.name⟩ : Change) ∈ (ComputeDiff ctx ord old new).additive := by
      refine List.mem_filter.mpr ⟨mem_allChanges_of_added hv hf hnot ?_, rfl⟩
      unfold diffFieldAdded
      rw [hr]
      simp
    obtain ⟨c₁, c₂, hrun, hfree⟩ := exists_before hold hnew hapart hsplit hx h
    rw [emitPhaseSplitChange_plain (by simp) (by simp)] at hrun
    simp only [emitChange, entityByID_of_mem hnew hb, withField, findField_of_mem (hnew.lowered hb) hf, hr] at hrun
    obtain ⟨c₃, hstep, _⟩ := bind_ok hrun
    obtain ⟨tbl, _, hcheck, _⟩ := exec_addConstraint_inv hstep
    exact habsent (hfree e he hadded (.inl (hid ▸ hlt))) (hasColumn_of_check htable hcheck)

omit hsplit in
/-- **The single script leaves a plain key nullable.** -/
theorem flag_of_up (hv : Versions old new oldE newE) (hf : f ∈ newE.fields) (hnot : f.name ∉ oldE.fields.map Field.name)
    (hprimary : f.primary = true) (hserial : f.serial = false) (hidentity : f.identity = false)
    (h : run mentions (emitUp old new (ComputeDiff ctx ord old new)) c = .ok c') :
    c'.get (.inTable (qualifiedTable newE) (.notNull f.name)) = some (.notNull false) := by
  have hchange := @mem_allChanges_of_added ctx ord old new oldE newE _ f hv hf hnot List.mem_cons_self
  have hmem : Stmt.addColumn (qualifiedTable newE) (columnDecl f) ∈ emitUp old new (ComputeDiff ctx ord old new) := by
    refine List.mem_append_right _ (List.mem_flatMap.mpr ⟨_, emissionOrder_perm.mem_iff.mpr hchange, ?_⟩)
    simp only [emitChange, hv.newByID, withField, findField_of_mem (hnew.lowered hv.newMem) hf]
    exact List.mem_cons_self
  have hleaves : ∀ s ∈ emitUp old new (ComputeDiff ctx ord old new), s.Leaves (qualifiedTable newE) f.name false := by
    intro s hs
    rcases List.mem_append.mp hs with hs | hs
    · obtain ⟨n, _, rfl⟩ := List.mem_map.mp hs
      exact ⟨trivial, by simp, by simp⟩
    · obtain ⟨ch, hch, hs⟩ := List.mem_flatMap.mp hs
      exact (upStmt_of_mem hold hnew (emissionOrder_perm.mem_iff.mp hch) hs).leaves hapart hv hf hnot
  have hnullable : (columnDecl f).spec.column.notNull = false := by
    simp [columnDecl, hserial, hidentity, hprimary, ColumnSpec.column]
  have hname : (columnDecl f).name = f.name := rfl
  refine run_flag_of_mem hmem hleaves (fun hadd => ?_) h
  rw [hasColumn_iff, (exec_spec hadd trivial).2, (exec_spec hadd trivial).2]
  simp [Stmt.effect, ColumnDecl.get, hname, hnullable]

omit hapart in
/-- **The split leaves every deferred column `NOT NULL`.** -/
theorem flag_of_split (hch : ch ∈ allChanges ctx ord old new) (hd : Defers old new ch oldE newE f)
    (h : run mentions (ss ++ split.postBackfillUp) c = .ok c') :
    c'.get (.inTable (qualifiedTable newE) (.notNull f.name)) = some (.notNull true) := by
  have hstmts : ∀ s ∈ split.postBackfillUp, s.Leaves (qualifiedTable newE) f.name true := by
    rw [hsplit]
    intro s hs
    obtain ⟨part, hpart, hs⟩ := List.mem_flatMap.mp hs
    obtain ⟨ch', hch', rfl⟩ := List.mem_map.mp hpart
    rcases emitPhaseSplitChange_cases hold hnew (mem_diffOrder.mp hch') with hplain | ⟨oldE', newE', g, hd'⟩
    · rw [hplain] at hs
      cases hs
    · rw [hd'.post, List.mem_singleton] at hs
      subst hs
      exact ⟨fun _ _ => rfl, nofun, nofun⟩
  have hmem : emitNotNull newE f.name true ∈ split.postBackfillUp := by
    rw [hsplit]
    refine List.mem_flatMap.mpr ⟨_, List.mem_map.mpr ⟨ch, mem_diffOrder.mpr hch, rfl⟩, ?_⟩
    rw [hd.post]
    exact List.mem_singleton_self _
  rw [run_append] at h
  obtain ⟨c₀, _, h⟩ := bind_ok h
  refine run_flag_of_mem hmem hstmts (fun hset => ?_) h
  have hcol := hasColumn_of_setNotNull hset
  obtain ⟨x, hx⟩ := exists_flag hcol
  refine ⟨exec_hasColumn hcol hset nofun nofun, ?_⟩
  rw [(exec_spec hset trivial).2, emitNotNull, Stmt.effect, if_pos rfl, hx]
  rfl

/-- **A plain key that is added separates the two.** -/
theorem noKeyAdded_of_split (hup : run mentions (emitUp old new (ComputeDiff ctx ord old new)) c = .ok c')
    (h : run mentions (ss ++ split.postBackfillUp) c = .ok c') : NoKeyAdded old new := by
  intro e he hstays f hf hhad hbackfill hprimary
  obtain ⟨oldE, hoE⟩ := Option.isSome_iff_exists.mp hstays
  have hv := versions_of_byID hold hnew hoE (entityByID_of_mem hnew he)
  have hnot := hv.hadField_eq_false.mp hhad
  by_contra hplain
  rw [not_or, Bool.not_eq_true, Bool.not_eq_true] at hplain
  have hfalse := flag_of_up hold hnew hapart hv hf hnot hprimary hplain.1 hplain.2 hup
  have hnotNull : f.notNull = true := ((hnew.lowered he).2.2.2.1 f hf).1.2 (.inl hprimary)
  have hchange := @mem_allChanges_of_added ctx ord old new oldE e _ f hv hf hnot List.mem_cons_self
  have hfind := findField_of_mem (hnew.lowered he) hf
  -- the change of the field defers its flag
  rcases emitPhaseSplitChange_cases hold hnew hchange with hcase | ⟨oldE', newE', g, hd⟩
  · simp [emitPhaseSplitChange, hv.newByID, hfind, hbackfill, hnotNull] at hcase
  · obtain ⟨rfl, rfl⟩ := hv.eq_of_id hd.versions hd.id
    have hkey := hd.deferred
    simp only [emitPhaseSplitChange, hv.newByID, hfind, ne_eq, hbackfill, not_false_eq_true, hnotNull, and_self, if_true,
      Option.some.injEq, Prod.mk.injEq, true_and] at hkey
    obtain rfl := List.inj_on_of_nodup_map (hnew.lowered he).2.2.1 hf hd.mem hkey
    have htrue := flag_of_split hold hnew hsplit hchange hd h
    rw [hfalse] at htrue
    cases htrue

end Scripts

/-! ## Agreement -/

/-- Entities with a backfilled field have a key of one column. -/
def BackfillKeyed (new : IR) : Prop :=
  ∀ e ∈ new.entities, (∃ f ∈ e.fields, f.backfill ≠ "") → e.primaryField.isSome

instance (new : IR) : Decidable (BackfillKeyed new) := by
  unfold BackfillKeyed
  exact inferInstance

/-- The statement sets the `NOT NULL` of a column that the worker has filled. -/
def OnFilled (new : IR) (fields : List BackfillField) (s : Stmt) : Prop :=
  ∃ b ∈ fields, ∃ e, entityByID new b.entityID = some e ∧ s = emitNotNull e b.field true

/-- **The split does what the single script does**: its two scripts end in the same catalog, and the second needs
    nothing but that the listed columns are filled. -/
def SplitAgrees (mentions : String → String → Bool) (new : IR) (split : PhaseSplit) (c c' : Catalog) : Prop :=
  run mentions (split.preBackfillUp ++ split.postBackfillUp) c = .ok c' ∧
    ∀ s ∈ split.postBackfillUp, OnFilled new split.backfillFields s

/-- What the second script waits for is on the list of the worker. -/
theorem onFilled_of_mem {split : PhaseSplit} (hold : Validated old) (hnew : Validated new) (hkeyed : BackfillKeyed new)
    (hsplit : split = buildPhaseSplit ord' old new (ComputeDiff ctx ord old new)) {s : Stmt}
    (hs : s ∈ split.postBackfillUp) : OnFilled new split.backfillFields s := by
  subst hsplit
  obtain ⟨part, hpart, hs⟩ := List.mem_flatMap.mp hs
  obtain ⟨ch, hch, rfl⟩ := List.mem_map.mp hpart
  rcases emitPhaseSplitChange_cases hold hnew (mem_diffOrder.mp hch) with hplain | ⟨oldE, newE, f, hd⟩
  · rw [hplain] at hs
    cases hs
  · rw [hd.post, List.mem_singleton] at hs
    subst hs
    obtain ⟨pf, hpf⟩ := Option.isSome_iff_exists.mp (hkeyed newE hd.versions.newMem ⟨f, hd.mem, hd.backfill⟩)
    have hpk : primaryKeyColumn newE ≠ "" := by
      unfold primaryKeyColumn
      rw [hpf]
      exact hnew.field_name_ne_empty hd.versions.newMem (List.mem_of_find?_eq_some hpf)
    have hentry : ∃ x, deferredEntry new (newE.id, f.name) = some x ∧ x.2.2.entityID = newE.id ∧ x.2.2.field = f.name := by
      unfold deferredEntry
      simp only [hd.versions.newByID, findField_of_mem (hnew.lowered hd.versions.newMem) hd.mem, if_neg hpk]
      exact ⟨_, rfl, rfl, rfl⟩
    obtain ⟨x, hx, hid, hfield⟩ := hentry
    refine ⟨x.2.2, List.mem_map.mpr ⟨x, List.mem_filterMap.mpr ⟨(newE.id, f.name), ?_, hx⟩, rfl⟩, newE, ?_, ?_⟩
    · rw [(ord'.perm _ _).mem_iff, List.mem_dedup]
      exact List.mem_filterMap.mpr ⟨_, hpart, hd.deferred⟩
    · rw [hid]
      exact hd.versions.newByID
    · rw [hfield]

/-- **A phase-split migration equals the single script exactly when no new reference looks ahead and no plain key is
    backfilled as it is added.** -/
theorem split_eq_up_iff {split : PhaseSplit} (hold : Validated old) (hnew : Validated new) (hkeyed : BackfillKeyed new)
    (hapart : AddsApart old new c)
    (hsplit : (EmitSQL ord' old new (ComputeDiff ctx ord old new)).split = some split)
    (hup : run mentions (EmitSQL ord' old new (ComputeDiff ctx ord old new)).up c = .ok c') :
    SplitAgrees mentions new split c c' ↔ OrderFits old new ∧ NoKeyAdded old new := by
  have hbuilt : split = buildPhaseSplit ord' old new (ComputeDiff ctx ord old new) := by
    unfold EmitSQL at hsplit
    dsimp only at hsplit
    split at hsplit
    · exact (Option.some.inj hsplit).symm
    · cases hsplit
  constructor
  · rintro ⟨hrun, _⟩
    exact ⟨orderFits_of_split hold hnew hapart hbuilt hrun, noKeyAdded_of_split hold hnew hapart hbuilt hup hrun⟩
  · rintro ⟨hfits, hkeys⟩
    exact ⟨split_of_up hold hnew hapart hbuilt hfits hkeys hup, fun s hs => onFilled_of_mem hold hnew hkeyed hbuilt hs⟩

/-! ## Two runs -/

/-- A column that is filled from an expression. -/
def codeField : Field := { name := "code", type := .simple "text", notNull := true, backfill := "'none'" }

/-- An entity with a key and some more fields. -/
def plainEntity (name : String) (fields : List Field) : Entity :=
  { name, namespace_ := "app", fields := idField :: fields }

/-- A column that references an entity. -/
def refField (target : String) : Field :=
  { name := "target_id", type := .simple "bigint", ref := some { targetID := target, targetField := "id" } }

/-- The old schema: items. -/
def itemsOld : IR := ⟨[plainEntity "Item" []]⟩

/-- Items get a code, and there are two new entities, the first of which references the second. -/
def itemsAhead : IR := ⟨[plainEntity "Bin" [refField "app.Box"], plainEntity "Box" [], plainEntity "Item" [codeField]]⟩

/-- The same with the reference the other way. -/
def itemsBack : IR := ⟨[plainEntity "Bin" [], plainEntity "Box" [refField "app.Bin"], plainEntity "Item" [codeField]]⟩

/-- Items get a key that is filled from an expression. -/
def itemsRekeyed : IR :=
  ⟨[{ name := "Item", namespace_ := "app", fields :=
      [{ idField with primary := false, unique := true }, { codeField with primary := true }] }]⟩

/-- How a run ends: its error, and the flag of a column. -/
def outcome (t : TableRef) (col : String) (r : Except Err Catalog) : Option Err × Option Bool :=
  (errOf r, r.toOption.bind fun c => (c.tables t).bind fun tbl => (tbl.columns col).map Column.notNull)

/-- From the catalog of the old schema the single script runs, and the split ends otherwise. -/
def SplitDiffers (old new : IR) : Prop :=
  Validated old ∧ Validated new ∧ BackfillKeyed new ∧ ∃ stmts c c' split, emitInitial old = .ok stmts ∧
    run (fun _ _ => false) stmts Catalog.empty = .ok c ∧
    (EmitSQL insertionOrder old new (ComputeDiff {} insertionOrder old new)).split = some split ∧
    run (fun _ _ => false) (EmitSQL insertionOrder old new (ComputeDiff {} insertionOrder old new)).up c = .ok c' ∧
    run (fun _ _ => false) (split.preBackfillUp ++ split.postBackfillUp) c ≠ .ok c'

theorem splitDiffers_of_outcome {old new : IR} (t : TableRef) (col : String) (hold : Validated old) (hnew : Validated new)
    (hkeyed : BackfillKeyed new) (hruns : ∃ stmts, emitInitial old = .ok stmts ∧
      ∃ c, run (fun _ _ => false) stmts Catalog.empty = .ok c ∧
      ∃ split, (EmitSQL insertionOrder old new (ComputeDiff {} insertionOrder old new)).split = some split ∧
      ∃ c', run (fun _ _ => false) (EmitSQL insertionOrder old new (ComputeDiff {} insertionOrder old new)).up c = .ok c' ∧
        outcome t col (run (fun _ _ => false) (split.preBackfillUp ++ split.postBackfillUp) c) ≠ outcome t col (.ok c')) :
    SplitDiffers old new := by
  obtain ⟨stmts, hemit, c, hrun, split, hsplit, c', hup, hne⟩ := hruns
  exact ⟨hold, hnew, hkeyed, stmts, c, c', split, hemit, hrun, hsplit, hup, fun heq => hne (congrArg _ heq)⟩

/-- **Both ways to differ**: an entity created before the one it references, which stops the first script, and an
    added key that only the split makes `NOT NULL`. -/
theorem split_differs_from_up : SplitDiffers itemsOld itemsAhead ∧ SplitDiffers itemsOld itemsRekeyed := by
  constructor <;>
    exact splitDiffers_of_outcome ⟨"atlantis", "app_item"⟩ "code" (by decide +kernel) (by decide +kernel)
      (by decide +kernel) (by decide +kernel)

/-- With the reference the other way the split does what the single script does. -/
theorem split_eq_up_items : ∃ c c' split,
    (EmitSQL insertionOrder itemsOld itemsBack (ComputeDiff {} insertionOrder itemsOld itemsBack)).split = some split ∧
    run (fun _ _ => false)
      (EmitSQL insertionOrder itemsOld itemsBack (ComputeDiff {} insertionOrder itemsOld itemsBack)).up c = .ok c' ∧
    SplitAgrees (fun _ _ => false) itemsBack split c c' := by
  obtain ⟨stmts, hemit, c, hrun, hapart, split, hsplit, c', hup⟩ : ∃ stmts, emitInitial itemsOld = .ok stmts ∧
      ∃ c, run (fun _ _ => false) stmts Catalog.empty = .ok c ∧ AddsApart itemsOld itemsBack c ∧
      ∃ split, (EmitSQL insertionOrder itemsOld itemsBack (ComputeDiff {} insertionOrder itemsOld itemsBack)).split
        = some split ∧
      ∃ c', run (fun _ _ => false)
        (EmitSQL insertionOrder itemsOld itemsBack (ComputeDiff {} insertionOrder itemsOld itemsBack)).up c = .ok c' := by
    decide +kernel
  refine ⟨c, c', split, hsplit, hup, ?_⟩
  exact (split_eq_up_iff (by decide +kernel) (by decide +kernel) (by decide +kernel) hapart hsplit
    hup).mpr ⟨by decide +kernel, by decide +kernel⟩

end Atlantis.Codegen
