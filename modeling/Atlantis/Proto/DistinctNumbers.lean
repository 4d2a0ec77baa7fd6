import Atlantis.Proto.Agreement
import Atlantis.Proto.History
import Atlantis.Proto.IncludeNumbers

/-!
# `Proto.DistinctNumbers` — field numbers within a message

The columns of an entity share its message with the include slots, from 1001 on, and its filter with the
composition arms, at 100, 101 and 102: "high field numbers, so any future field additions don't collide".
`AssignProtoNumbers` gives out numbers without looking at these, and keeps counting. The columns themselves never
collide (`WellNumbered`), so what has to be asked of a schema is that the numbers of arms and slots are free
(`FreeNumber`).
-/

namespace Atlantis.Proto

open Schema Codegen Lib

/-- The field numbers of a message are distinct and none is reserved. -/
def MessageText.Distinct (m : MessageText) : Prop :=
  (m.fields.map FieldLine.number).Nodup ∧ ∀ n ∈ m.fields.map FieldLine.number, n ∉ m.reserved

instance (m : MessageText) : Decidable m.Distinct := inferInstanceAs (Decidable (_ ∧ _))

/-- Neither a column that meets `p` nor one that is gone has the number. -/
def FreeNumber (e : Entity) (p : Field → Bool) (n : Nat) : Prop :=
  n ∉ e.retiredProtoNumbers ∧ ∀ f ∈ e.fields, p f = true → f.protoNumber ≠ n

/-- A history of applies. -/
def Applied (h : List IR) : Prop := numberMachine.Reach (fun _ step => ∃ ir, step = .apply ir) h

theorem Applied.accounts {h : List IR} (happ : Applied h) : Accounts h := by
  refine Machine.Reach.invariant ?_ ?_ happ
  · rintro s rfl
    exact Accounts.nil
  · rintro s _ t hs ⟨ir, rfl⟩ hstep
    exact @accounts_take s (.apply ir) t hs trivial hstep

variable {e : Entity} {inbound : List InboundRef}

/-! ## Messages -/

/-- **The columns of an entity and other fields in one message.** -/
theorem distinct_append_iff {p : Field → Bool} {kind : MessageKind} {lines others : List FieldLine} (hnum : WellNumbered e)
    (hlines : lines.map FieldLine.number = ((byProtoNumber e.fields).filter p).map Field.protoNumber)
    (hothers : (others.map FieldLine.number).Nodup) :
    (MessageText.mk kind (lines ++ others) e.retiredProtoNumbers).Distinct ↔
      ∀ n ∈ others.map FieldLine.number, FreeNumber e p n := by
  have hmem : ∀ n, n ∈ lines.map FieldLine.number ↔ ∃ f ∈ e.fields, p f = true ∧ f.protoNumber = n := by
    intro n
    simp [hlines, byProtoNumber, and_assoc]
  obtain ⟨_, _, hnums, hretired⟩ := wellNumbered_iff.mp hnum
  have hnodup : (lines.map FieldLine.number).Nodup := by
    rw [hlines]
    refine List.Nodup.sublist (List.filter_sublist.map _) ?_
    exact ((List.perm_insertionSort _ _).map _).nodup_iff.mpr hnums
  have hlive : ∀ n ∈ lines.map FieldLine.number, n ∉ e.retiredProtoNumbers := by
    intro n hn
    obtain ⟨f, hf, _, rfl⟩ := (hmem n).mp hn
    exact hretired f hf
  unfold MessageText.Distinct FreeNumber
  simp only [List.map_append, List.nodup_append', List.forall_mem_append, hnodup, hothers, true_and]
  constructor
  · rintro ⟨hdisjoint, _, hfree⟩ n hn
    exact ⟨hfree n hn, fun f hf hp heq => hdisjoint ((hmem n).mpr ⟨f, hf, hp, heq⟩) hn⟩
  · intro hfree
    refine ⟨fun n hn hother => ?_, hlive, fun n hn => (hfree n hn).1⟩
    obtain ⟨f, hf, hp, heq⟩ := (hmem n).mp hn
    exact (hfree n hother).2 f hf hp heq

/-- The slot of the `i`-th relation has the number `1000 + i + 1`. -/
theorem mem_number_includeSlots {n : Nat} : n ∈ (includeSlots e inbound).map FieldLine.number ↔
    ∃ ref i, inbound[i]? = some ref ∧ (includableSource ref e).isSome ∧ 1000 + i + 1 = n := by
  rw [number_includeSlots]
  simp [includeNumbers, List.mem_zipIdx_iff_getElem?, Option.isSome_iff_exists]

theorem pairwise_zipIdx {α : Type} (l : List α) : l.zipIdx.Pairwise fun a b => a.2 ≠ b.2 := by
  rw [← List.pairwise_map, List.zipIdx_map_snd]
  exact List.nodup_range'

theorem nodup_number_includeSlots : ((includeSlots e inbound).map FieldLine.number).Nodup := by
  rw [number_includeSlots, includeNumbers, List.filterMap_map, List.Nodup, List.pairwise_filterMap]
  refine (pairwise_zipIdx inbound).imp fun hne n hn m hm heq => hne ?_
  simp at hn hm
  omega

/-- The requests by key number the columns of the key from 1. -/
theorem nodup_number_keyLines (cols : List (String × ProtoText)) : ((keyLines cols).map FieldLine.number).Nodup := by
  rw [keyLines, List.map_map, List.Nodup, List.pairwise_map]
  exact (pairwise_zipIdx cols).imp fun hne heq => hne (Nat.succ.inj heq)

theorem distinct_unreserved {kind : MessageKind} {lines : List FieldLine} :
    (MessageText.mk kind lines []).Distinct ↔ (lines.map FieldLine.number).Nodup := by
  simp [MessageText.Distinct]

/-- **What the messages of one entity ask for.** -/
theorem distinct_messages_iff (hnum : WellNumbered e) {file : ProtoFile} (h : emitProtoEntity e inbound = .ok file) :
    (∀ m ∈ file.messages, m.Distinct) ↔ (∀ n ∈ [100, 101, 102], FreeNumber e filterable n) ∧
      ∀ n ∈ (includeSlots e inbound).map FieldLine.number, FreeNumber e (fun _ => true) n := by
  obtain ⟨columns, hcols, hfile⟩ := bind_ok h
  obtain rfl := Except.ok.inj hfile
  have hcolumns : columns.map FieldLine.number
      = ((byProtoNumber e.fields).filter fun _ => true).map Field.protoNumber := by
    rw [List.filter_true, ← List.forall₂_eq_eq_eq, List.forall₂_map_left_iff, List.forall₂_map_right_iff]
    refine (mapM_ok_iff.mp hcols).flip.imp fun l f hline => ?_
    obtain ⟨_, _, hline⟩ := bind_ok hline
    cases hline
    rfl
  have hfilter : ((byProtoNumber e.fields).filterMap filterLine).map FieldLine.number
      = ((byProtoNumber e.fields).filter filterable).map Field.protoNumber := by
    rw [List.map_filterMap, ← List.filterMap_eq_filter, List.map_filterMap]
    congr 1
    funext f
    cases hp : predicateMessageForField f.type <;> simp [filterLine, filterable, Option.guard, hp]
  have hentity : (MessageText.mk .entity (_ ++ includeSlots e inbound) _).Distinct ↔ _ :=
    distinct_append_iff hnum hcolumns nodup_number_includeSlots
  have hfilters : (MessageText.mk .filter (_ ++ filterArms e) _).Distinct ↔
      ∀ n ∈ [100, 101, 102], FreeNumber e filterable n :=
    distinct_append_iff hnum hfilter (by simp [filterArms])
  have hsearch : ∀ m ∈ searchMessages e, m.Distinct := by
    intro m hm
    obtain ⟨idx, _, hm⟩ := List.mem_flatMap.mp hm
    cases idx with
    | hnsw field _ =>
      simp only [List.mem_cons, List.not_mem_nil, or_false] at hm
      rcases hm with rfl | rfl <;> simp [distinct_unreserved, entitiesLine]
    | _ => cases hm
  have hbatch : ((batchGetLines e (resolvePKColumns e)).map FieldLine.number).Nodup := by
    unfold batchGetLines
    split <;> simp
  have hpk : ∀ m ∈ if (resolvePKColumns e).length > 1 then [MessageText.mk .pk (keyLines (resolvePKColumns e)) []]
      else [], m.Distinct := by
    split <;> simp [distinct_unreserved, nodup_number_keyLines]
  simp only [querySurface, List.forall_mem_append, List.forall_mem_cons, iff_true_intro hpk, iff_true_intro hsearch,
    hentity, hfilters, distinct_unreserved, nodup_number_keyLines, hbatch, List.map_cons, List.map_nil, entityLine,
    entitiesLine]
  simp [and_comm]

/-- **Field numbers are distinct exactly where the numbers of arms and slots are free.** -/
theorem fieldNumbers_distinct_iff {h : List IR} {ir : IR} {files : List ProtoFile} (happ : Applied h) (hir : ir ∈ h)
    (hemit : EmitProto ir = .ok files) : (∀ file ∈ files, ∀ m ∈ file.messages, m.Distinct) ↔ ∀ e ∈ ir.entities,
      (∀ n ∈ [100, 101, 102], FreeNumber e filterable n) ∧
      ∀ ref i, (computeInboundRefs ir e.id)[i]? = some ref → (includableSource ref e).isSome →
        FreeNumber e (fun _ => true) (1000 + i + 1) := by
  obtain ⟨files', hfiles, hemit⟩ := bind_ok hemit
  cases hemit
  simp only [List.mem_insertionSort]
  have hnum := happ.accounts.numbered ir hir
  obtain ⟨hfile, hentity⟩ := mapM_mem hfiles
  constructor
  · intro hall e he
    obtain ⟨file, hmem, hfile⟩ := hfile e he
    obtain ⟨harms, hslots⟩ := (distinct_messages_iff (hnum e he) hfile).mp (hall file hmem)
    exact ⟨harms, fun ref i hi hsome => hslots _ (mem_number_includeSlots.mpr ⟨ref, i, hi, hsome, rfl⟩)⟩
  · intro hfree file hmem
    obtain ⟨e, he, hfile⟩ := hentity file hmem
    refine (distinct_messages_iff (hnum e he) hfile).mpr ⟨(hfree e he).1, fun n hn => ?_⟩
    obtain ⟨ref, i, hi, hsome, rfl⟩ := mem_number_includeSlots.mp hn
    exact (hfree e he).2 ref i hi hsome

theorem Applied.apply {h : List IR} {ir : IR} (happ : Applied h) (hfresh : FreshIR ir) :
    Applied (AssignProtoNumbers (inForce h) ir :: h) :=
  .step happ ⟨ir, rfl⟩ (show numberMachine.step h (.apply ir) = some _ from if_pos hfresh)

theorem applied_first {ir : IR} (h : FreshIR ir) : Applied [AssignProtoNumbers ⟨[]⟩ ir] := .apply (.initial rfl) h

/-- The orders lose a column, whose number is reserved; the items that refer to them have the slot 1001. -/
theorem fieldNumbers_distinct_iff_orders :
    let noted := AssignProtoNumbers ⟨[]⟩ ⟨[items, orderSource "shop" "Order" [memoField "note" "text"]]⟩
    let ir := AssignProtoNumbers noted ⟨[items, orders]⟩
    ∃ files, EmitProto ir = .ok files ∧ ∀ e ∈ ir.entities, e.name = "Order" → e.retiredProtoNumbers = [2] ∧
      (∀ n ∈ [100, 101, 102], FreeNumber e filterable n) ∧ FreeNumber e (fun _ => true) 1001 := by
  intro noted ir
  obtain ⟨files, hemit, hdistinct⟩ : ∃ files, EmitProto ir = .ok files ∧
      ∀ file ∈ files, ∀ m ∈ file.messages, m.Distinct := by
    decide +kernel
  have happ : Applied [ir, noted] := .apply (applied_first (by decide +kernel)) (by decide +kernel)
  have horder : ∀ e ∈ ir.entities, e.name = "Order" → e.retiredProtoNumbers = [2] ∧
      ∃ ref, (computeInboundRefs ir e.id)[0]? = some ref ∧ (includableSource ref e).isSome := by
    decide +kernel
  refine ⟨files, hemit, fun e he hname => ?_⟩
  obtain ⟨hretired, ref, href, hsource⟩ := horder e he hname
  obtain ⟨harms, hslots⟩ := (fieldNumbers_distinct_iff happ List.mem_cons_self hemit).mp hdistinct e he
  exact ⟨hretired, harms, hslots ref 0 href hsource⟩

/-- Memos with a hundred columns beside the key. -/
def wideMemos : IR := memosWith ("abcdefghij".toList.flatMap fun a => "abcdefghij".toList.map fun b =>
  memoField (String.ofList ['c', a, b]) "text")

/-- **The hundredth column has the number of an arm of its filter.** -/
theorem hundredth_column_collides : ∃ h, Applied h ∧ ∃ ir ∈ h, ∃ files, EmitProto ir = .ok files ∧
    ¬ ∀ file ∈ files, ∀ m ∈ file.messages, m.Distinct := by
  have hwide : FreshIR wideMemos ∧ ∃ files, EmitProto (AssignProtoNumbers ⟨[]⟩ wideMemos) = .ok files ∧
      ¬ ∀ file ∈ files, ∀ m ∈ file.messages, m.Distinct := by
    decide +kernel
  exact ⟨_, applied_first hwide.1, _, List.mem_cons_self, hwide.2⟩

end Atlantis.Proto
