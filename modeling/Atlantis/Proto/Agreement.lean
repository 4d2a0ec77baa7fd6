import Atlantis.Lib.Fold
import Atlantis.Proto.Numbers

/-!
# `Proto.Agreement` — compiled clients and the runtime server

A client is compiled from the files of `EmitProto`; the server decodes with the descriptors of
`buildProtoDescriptors`. They understand each other when every field the server builds is declared by the
client's message, with the same number, name, type and cardinality.

Where the two generators read the IR in the same way this is so: the entity message takes its numbers from
`ProtoNumber`, the request shells count the key columns. There are three differences:

- the filter message takes `ProtoNumber` on one side and a counter over the filterable columns on the other;
- an `interval` is a `Duration` on one side and a string on the other, and the server flattens what the
  client's file cannot even declare (`repeated repeated`);
- a key column of an array or vector type is repeated on one side only.

`Wired` says that none of them shows, and `agreement_iff` that this is all there is.
-/

namespace Atlantis.Proto

open Schema Lib

/-! ## Types -/

/-- The scalar types that both generators map to the same wire type. -/
def sharedScalars : List String :=
  ["smallint", "int", "bigint", "text", "varchar", "citext", "uuid", "numeric", "boolean", "timestamptz",
    "date", "bytea", "jsonb"]

/-- A column type with one meaning on the wire. -/
def WireSafe : FieldType → Bool
  | .scalar name _ _ _ _ _ => name == "vector" || sharedScalars.contains name
  | .array (.scalar name _ _ _ _ _) => sharedScalars.contains name
  | .array (.array _) => false

/-- Type and cardinality of a type text. -/
def ProtoText.wire : ProtoText → Option (WireType × Bool)
  | .single t => some (t, false)
  | .repeated (.single t) => some (t, true)
  | .repeated (.repeated _) => none

variable {t : FieldType} {l : FieldLine} {e : Entity} {f : Field}

theorem applyProtoFieldType_repeated (t : FieldType) : (applyProtoFieldType t).2 = isRepeated t := by
  cases t with
  | array elem => rfl
  | scalar name d l p s h =>
    by_cases hv : name = "vector"
    · simp [applyProtoFieldType, isRepeated, FieldType.name, FieldType.isArray, hv]
    · simp [applyProtoFieldType, isRepeated, FieldType.name, FieldType.isArray, hv]

/-- **The two type maps agree exactly on the safe types**, among those the emitter accepts. -/
theorem protoType_agrees {p : ProtoText} (h : ProtoType t = .ok p) :
    p.wire = some (applyProtoFieldType t) ↔ WireSafe t = true := by
  cases t with
  | scalar name d l n s k =>
    unfold ProtoType at h
    split at h <;> cases h <;>
      simp [ProtoText.wire, applyProtoFieldType, setProtoType, FieldType.name, WireSafe, sharedScalars]
  | array elem =>
    obtain ⟨inner, hinner, h⟩ := bind_ok h
    cases h
    cases elem with
    | array elem' =>
      obtain ⟨inner', _, hinner⟩ := bind_ok hinner
      cases hinner
      simp [ProtoText.wire, WireSafe]
    | scalar name d l n s k =>
      unfold ProtoType at hinner
      split at hinner <;> cases hinner <;>
        simp [ProtoText.wire, applyProtoFieldType, setProtoType, FieldType.name, WireSafe, sharedScalars]

/-! ## Lines and descriptors -/

/-- What a line declares, from the meaning of its type text. -/
theorem FieldLine.desc_eq (l : FieldLine) :
    l.desc = match l.type.wire with
      | some (t, false) => some (singular l.name l.number t l.optional)
      | some (t, true) => if l.optional then none else some (repeatedField l.name l.number t)
      | none => none := by
  obtain ⟨optional, type, name, number⟩ := l
  cases type with
  | single t => rfl
  | repeated t => cases t <;> rfl

theorem FieldLine.desc_name {d : FieldDesc} (h : l.desc = some d) :
    l.name = d.name ∧ l.number = d.number ∧ l.type.wire = some (d.type, d.repeated) := by
  rw [FieldLine.desc_eq] at h
  split at h
  · cases h
    exact ⟨rfl, rfl, ‹_›⟩
  · split at h
    · cases h
    · cases h
      exact ⟨rfl, rfl, ‹_›⟩
  · cases h

theorem dslFieldToProtoField_eq (f : Field) :
    (dslFieldToProtoField f).name = f.name ∧ (dslFieldToProtoField f).number = f.protoNumber ∧
      ((dslFieldToProtoField f).type, (dslFieldToProtoField f).repeated) = applyProtoFieldType f.type := by
  unfold dslFieldToProtoField
  rcases hwire : applyProtoFieldType f.type with ⟨t, repeated⟩
  cases repeated <;> exact ⟨rfl, rfl, rfl⟩

theorem columnLine_ok (h : columnLine e f = .ok l) : ∃ p, ProtoType f.type = .ok p ∧
    l = ⟨(!f.notNull || f.default.isSome) && !isRepeated f.type, p, f.name, f.protoNumber⟩ := by
  obtain ⟨p, hp, h⟩ := bind_ok h
  exact ⟨p, mapError_ok hp, (Except.ok.inj h).symm⟩

/-- **A column of the entity message** is the same on both sides exactly when its type is safe. -/
theorem columnLine_agrees (h : columnLine e f = .ok l) :
    l.desc = some (dslFieldToProtoField f) ↔ WireSafe f.type = true := by
  obtain ⟨p, hp, rfl⟩ := columnLine_ok h
  rw [← protoType_agrees hp]
  constructor
  · intro hdesc
    obtain ⟨_, _, hwire⟩ := FieldLine.desc_name hdesc
    rw [← (dslFieldToProtoField_eq f).2.2]
    exact hwire
  · intro hwire
    have hrep := applyProtoFieldType_repeated f.type
    rcases hpair : applyProtoFieldType f.type with ⟨t, repeated⟩
    rw [hpair] at hwire hrep
    simp only at hrep
    rw [FieldLine.desc_eq]
    simp only [hwire, dslFieldToProtoField, hpair, ← hrep]
    cases repeated with
    | true => simp
    | false =>
      -- neither side takes `optional` from the type, so the null and default flags decide
      have hsingle : (f.type.isArray || f.type.name == "vector") = false := hrep.symm
      rw [Bool.or_eq_false_iff, beq_eq_false_iff_ne] at hsingle
      simp [hsingle.1, hsingle.2, IsEffectivelyNullable, Bool.or_comm]

/-! ## The entity message -/

/-- Every field of the descriptor is declared by one of the lines. -/
def Declares (lines : List FieldLine) (fields : List FieldDesc) : Prop :=
  ∀ d ∈ fields, ∃ l ∈ lines, l.desc = some d

theorem setProtoType_ne_own (t : FieldType) (name : String) : setProtoType t ≠ .own name := by
  unfold setProtoType
  split <;> exact nofun

theorem applyProtoFieldType_ne_own (t : FieldType) (name : String) : (applyProtoFieldType t).1 ≠ .own name := by
  cases t with
  | array elem => exact setProtoType_ne_own elem name
  | scalar n d l p s h =>
    show (if n = "vector" then _ else _ : WireType × Bool).1 ≠ _
    split
    · exact nofun
    · exact setProtoType_ne_own _ name

theorem eq_of_name (hnodup : (e.fields.map Field.name).Nodup) {g : Field} (hf : f ∈ e.fields) (hg : g ∈ e.fields)
    (h : g.name = f.name) : g = f :=
  List.inj_on_of_nodup_map hnodup hg hf h

theorem mem_byProtoNumber {fields : List Field} : f ∈ byProtoNumber fields ↔ f ∈ fields :=
  List.mem_insertionSort _

/-- **The entity message** agrees exactly when every column has a safe type. -/
theorem entityMessage_declared_iff (hnodup : (e.fields.map Field.name).Nodup) {inbound : List InboundRef}
    {columns : List FieldLine} (hcols : (byProtoNumber e.fields).mapM (columnLine e) = .ok columns) :
    Declares (columns ++ includeSlots e inbound) (buildEntityMessage e).fields ↔
      ∀ f ∈ e.fields, WireSafe f.type = true := by
  obtain ⟨hall, honly⟩ := mapM_mem hcols
  constructor
  · intro h f hf
    obtain ⟨l, hl, hdesc⟩ := h _ (List.mem_map_of_mem hf)
    rcases List.mem_append.mp hl with hl | hl
    · obtain ⟨g, hg, hline⟩ := honly l hl
      have hname : g.name = f.name := by
        obtain ⟨_, -, rfl⟩ := columnLine_ok hline
        exact (FieldLine.desc_name hdesc).1.trans (dslFieldToProtoField_eq f).1
      have hgf := eq_of_name hnodup hf (mem_byProtoNumber.mp hg) hname
      subst hgf
      exact (columnLine_agrees hline).mp hdesc
    · -- an include slot holds messages of the package, a column never does
      obtain ⟨⟨ref, i⟩, _, hslot⟩ := List.mem_filterMap.mp hl
      obtain ⟨ent, _, rfl⟩ := Option.map_eq_some_iff.mp hslot
      have hwire := (FieldLine.desc_name hdesc).2.2
      rw [(dslFieldToProtoField_eq f).2.2] at hwire
      have hown := congrArg Prod.fst (Option.some.inj hwire)
      exact absurd hown.symm (applyProtoFieldType_ne_own f.type ent)
  · intro h d hd
    obtain ⟨f, hf, rfl⟩ := List.mem_map.mp hd
    obtain ⟨l, hl, hline⟩ := hall f (mem_byProtoNumber.mpr hf)
    exact ⟨l, List.mem_append_left _ hl, (columnLine_agrees hline).mpr (h f hf)⟩

/-! ## The filter message -/

/-- Whether a column has a predicate. -/
def filterable (f : Field) : Bool := (predicateMessageForField f.type).isSome

/-- The filterable columns, in the order they are declared, have the numbers 1, 2, 3 and so on. -/
def FilterInOrder (e : Entity) : Prop :=
  (e.fields.filter filterable).map Field.protoNumber = List.range' 1 (e.fields.filter filterable).length

instance (e : Entity) : Decidable (FilterInOrder e) := inferInstanceAs (Decidable (_ = _))

/-- A counter from `num` on gives the assigned numbers, where a field is declared under its column's number only. -/
theorem filterFieldsFrom_iff {declared : FieldDesc → Prop} {fs : List Field} {num : Nat}
    (h : ∀ f ∈ fs, ∀ pred, predicateMessageForField f.type = some pred → ∀ n,
      declared (singular f.name n (.predicate pred) false) ↔ f.protoNumber = n) :
    (∀ d ∈ filterFieldsFrom num fs, declared d) ↔
      (fs.filter filterable).map Field.protoNumber = List.range' num (fs.filter filterable).length := by
  induction fs generalizing num with
  | nil => simp [filterFieldsFrom]
  | cons f fs ih =>
    have ih := fun num => @ih num fun g hg => h g (List.mem_cons_of_mem _ hg)
    unfold filterFieldsFrom
    cases hpred : predicateMessageForField f.type with
    | none =>
      have hskip : filterable f = false := by simp [filterable, hpred]
      rw [List.filter_cons_of_neg (by simp [hskip])]
      exact ih num
    | some pred =>
      have hkeep : filterable f = true := by simp [filterable, hpred]
      rw [List.filter_cons_of_pos hkeep]
      simp [h f List.mem_cons_self pred hpred num, ih, List.range'_succ]

/-- **The filter message** agrees exactly when the counter and the assigned numbers do. -/
theorem filterMessage_declared_iff (hnodup : (e.fields.map Field.name).Nodup) :
    Declares ((byProtoNumber e.fields).filterMap filterLine ++ filterArms e) (buildFilterMessage e).fields ↔
      FilterInOrder e := by
  have harms : ∀ d ∈ [repeatedField "and" 100 (.own (e.name ++ "Filter")),
      repeatedField "or" 101 (.own (e.name ++ "Filter")), singular "not" 102 (.own (e.name ++ "Filter")) false],
      ∃ l ∈ (byProtoNumber e.fields).filterMap filterLine ++ filterArms e, l.desc = some d := by
    simp [List.mem_append, or_and_right, exists_or, filterArms, FieldLine.desc, repeatedField, singular, WireType.isMessage]
  unfold Declares buildFilterMessage
  rw [List.forall_mem_append, and_iff_left harms]
  refine filterFieldsFrom_iff fun f hf pred hpred n => ⟨?_, ?_⟩
  · rintro ⟨l, hl, hdesc⟩
    obtain ⟨hname, hnumber, hwire⟩ := FieldLine.desc_name hdesc
    rcases List.mem_append.mp hl with hl | hl
    · obtain ⟨g, hg, hline⟩ := List.mem_filterMap.mp hl
      obtain ⟨p, _, rfl⟩ := Option.map_eq_some_iff.mp hline
      have hgf := eq_of_name hnodup hf (mem_byProtoNumber.mp hg) hname
      subst hgf
      exact hnumber
    · -- the arms are filters themselves, not predicates
      simp only [filterArms, List.mem_cons, List.not_mem_nil, or_false] at hl
      rcases hl with rfl | rfl | rfl <;> simp [ProtoText.wire, singular] at hwire
  · rintro rfl
    have hline : filterLine f = some ⟨true, .single (.predicate pred), f.name, f.protoNumber⟩ := by
      rw [filterLine, hpred]
      rfl
    exact ⟨_, List.mem_append_left _ (List.mem_filterMap.mpr ⟨f, mem_byProtoNumber.mpr hf, hline⟩), rfl⟩

/-! ## The request shells -/

/-- **The key columns** agree exactly when each of them is a single value of the type the server takes. -/
theorem keyFields_declared_iff {pk : List Field} {text : Field → ProtoText} :
    Declares (keyLines (pk.map fun f => (f.name, text f))) (keyFields pk) ↔
      ∀ f ∈ pk, (text f).wire = some (setProtoType f.type, false) := by
  have hlines : keyLines (pk.map fun f => (f.name, text f)) =
      pk.zipIdx.map fun p => { type := text p.1, name := p.1.name, number := p.2 + 1 } := by
    simp [keyLines, List.zipIdx_map, Function.comp_def]
  unfold Declares keyFields
  rw [hlines, List.forall_mem_map]
  constructor
  · intro h f hf
    obtain ⟨i, hi⟩ := List.mem_iff_getElem?.mp hf
    obtain ⟨l, hl, hdesc⟩ := h (f, i) ((List.mk_mem_zipIdx_iff_getElem? ..).mpr hi)
    obtain ⟨⟨g, j⟩, hg, rfl⟩ := List.mem_map.mp hl
    -- the number tells which column the line is for
    obtain ⟨_, hnumber, hwire⟩ := FieldLine.desc_name hdesc
    obtain rfl : j = i := Nat.succ.inj hnumber
    rw [List.mk_mem_zipIdx_iff_getElem?, hi] at hg
    cases hg
    exact hwire
  · rintro h ⟨f, i⟩ hf
    refine ⟨_, List.mem_map_of_mem hf, ?_⟩
    rw [FieldLine.desc_eq]
    simp only [h f (List.fst_mem_of_mem_zipIdx hf)]

/-- On safe types, a single value is one that is not repeated. -/
theorem wire_single_iff {p : ProtoText} (hp : ProtoType t = .ok p) (hsafe : WireSafe t = true) :
    p.wire = some (setProtoType t, false) ↔ isRepeated t = false := by
  rw [(protoType_agrees hp).mpr hsafe, ← applyProtoFieldType_repeated]
  constructor
  · intro h
    rw [Option.some.inj h]
  · intro h
    cases t with
    | array elem => cases h
    | scalar name d l n s k =>
      by_cases hv : name = "vector"
      · simp [applyProtoFieldType, FieldType.name, hv] at h
      · simp [applyProtoFieldType, FieldType.name, hv]

/-! ## All messages of an entity -/

/-- **Agreement**: each message the server builds is in the client's file, and each of its fields is declared
    there with the same number, name, type and cardinality. -/
def Agrees (built : List MessageDesc) (file : ProtoFile) : Prop :=
  ∀ m ∈ built, ∃ m' ∈ file.messages, m'.kind = m.kind ∧ Declares m'.fields m.fields

variable {inbound : List InboundRef} {file : ProtoFile} {columns : List FieldLine} {batchGet : MessageDesc}

/-- **What agreement takes**, for one entity: every column type has one meaning on the wire, no key column is
    repeated, and the filterable columns have the numbers 1, 2, 3 and so on in the order they are declared. -/
@[mk_iff]
structure Wired (e : Entity) : Prop where
  types : ∀ f ∈ e.fields, WireSafe f.type = true
  keys : ∀ f ∈ PKFields e, isRepeated f.type = false
  filter : FilterInOrder e

instance (e : Entity) : Decidable (Wired e) :=
  decidable_of_iff' _ (wired_iff e)

theorem mem_fields_of_mem_PKFields {f : Field} (h : f ∈ PKFields e) : f ∈ e.fields := by
  unfold PKFields at h
  split at h
  · obtain ⟨name, _, hf⟩ := List.mem_filterMap.mp h
    exact List.mem_of_find?_eq_some hf
  · split at h
    · rename_i pk hpk
      rw [List.mem_singleton.mp h]
      exact List.mem_of_find?_eq_some hpk
    · cases h

/-- The `BatchGet` request: built for every key, and declared once the key columns agree. -/
theorem buildBatchGetRequest_ok (hpk : PKFields e ≠ []) (text : Field → ProtoText) :
    ∃ batchGet, buildBatchGetRequest e (PKFields e) = .ok batchGet ∧ batchGet.kind = .request .batchGet ∧
      ((∀ f ∈ PKFields e, (text f).wire = some (setProtoType f.type, false)) →
        Declares (batchGetLines e ((PKFields e).map fun f => (f.name, text f))) batchGet.fields) := by
  unfold buildBatchGetRequest
  match PKFields e, hpk with
  | [f], _ =>
    refine ⟨_, rfl, rfl, fun hkeys d hd => ⟨_, List.mem_singleton_self _, ?_⟩⟩
    rw [List.mem_singleton.mp hd]
    -- a single type text, so that `repeated` may stand before it
    have hwire := hkeys f List.mem_cons_self
    cases htext : text f with
    | single t =>
      rw [htext] at hwire
      cases hwire
      rfl
    | repeated t =>
      rw [htext] at hwire
      cases t <;> cases hwire
  | f :: g :: rest, _ =>
    refine ⟨_, if_pos (by simp), rfl, fun _ d hd => ⟨_, List.mem_singleton_self _, ?_⟩⟩
    rw [List.mem_singleton.mp hd]
    rfl

/-- **What can differ**: the entity message, the key columns, the `BatchGet` request and the filter. The other messages
    depend on the entity's name only, and the file has them as the server does. -/
theorem messages_agree_iff (hfile : emitProtoEntity e inbound = .ok file)
    (hbatch : buildBatchGetRequest e (PKFields e) = .ok batchGet) (hkind : batchGet.kind = .request .batchGet)
    (hlen : (resolvePKColumns e).length = (PKFields e).length) :
    ∃ columns, (byProtoNumber e.fields).mapM (columnLine e) = .ok columns ∧
      ((∃ built, buildProtoDescriptors e = .ok built ∧ Agrees built file) ↔
        Declares (columns ++ includeSlots e inbound) (buildEntityMessage e).fields ∧
        Declares (keyLines (resolvePKColumns e)) (keyFields (PKFields e)) ∧
        Declares (batchGetLines e (resolvePKColumns e)) batchGet.fields ∧
        Declares ((byProtoNumber e.fields).filterMap filterLine ++ filterArms e) (buildFilterMessage e).fields) := by
  obtain ⟨columns, hcols, h⟩ := bind_ok hfile
  cases h
  have hsearch : ∀ k fields, (∀ field, k ≠ .searchRequest field ∧ k ≠ .searchResponse field) →
      ¬ ∃ m ∈ searchMessages e, m.kind = k ∧ Declares m.fields fields := by
    rintro k fields hk ⟨m, hm, rfl, _⟩
    obtain ⟨idx, _, hm⟩ := List.mem_flatMap.mp hm
    cases idx with
    | hnsw field ops =>
      simp only [List.mem_cons, List.not_mem_nil, or_false] at hm
      rcases hm with rfl | rfl
      · exact (hk _).1 rfl
      · exact (hk _).2 rfl
    | btree _ | partialBtree _ _ _ | gin _ => cases hm
  refine ⟨columns, hcols, ?_⟩
  simp only [buildProtoDescriptors, hbatch, bind, Except.bind, pure, Except.pure, Except.ok.injEq, exists_eq_left',
    Agrees, hlen]
  by_cases hcomposite : (PKFields e).length > 1 <;>
    -- each message of the server meets the one of its kind; then those of the name alone are compared
    simp [hcomposite, or_and_right, exists_or, or_imp, forall_and, buildEntityMessage, buildPKMessage, buildGetRequest,
      wrapEntity, buildDeleteRequest, hkind, buildQueryRequest, buildQueryResponse, buildFilterMessage, querySurface,
      hsearch] <;>
    simp [Declares, entityLine, entitiesLine, FieldLine.desc, singular, repeatedField] <;>
    exact fun _ hkeys _ _ => hkeys

/-- **Agreement of one entity.** -/
theorem entity_agrees_iff (hnodup : (e.fields.map Field.name).Nodup) (hpk : PKFields e ≠ [])
    (hfile : emitProtoEntity e inbound = .ok file) :
    (∃ built, buildProtoDescriptors e = .ok built ∧ Agrees built file) ↔ Wired e := by
  -- the type texts of the key columns
  let text : Field → ProtoText := fun f => ((ProtoType f.type).toOption).getD (.single .string)
  have htext : ∀ f ∈ PKFields e, ProtoType f.type = .ok (text f) := by
    intro f hf
    obtain ⟨columns, hcols, _⟩ := bind_ok hfile
    obtain ⟨l, _, hl⟩ := (mapM_mem hcols).1 f (mem_byProtoNumber.mpr (mem_fields_of_mem_PKFields hf))
    obtain ⟨p, hp, _⟩ := columnLine_ok hl
    simp only [text, hp, Except.toOption, Option.getD_some]
  have hresolve : resolvePKColumns e = (PKFields e).map fun f => (f.name, text f) := by
    have hcols : ∀ d : ProtoText, ((PKFields e).map fun f => (f.name, ((ProtoType f.type).toOption).getD d))
        = (PKFields e).map fun f => (f.name, text f) := by
      intro d
      refine List.map_congr_left fun f hf => ?_
      rw [htext f hf]
      rfl
    unfold resolvePKColumns
    simp only [hcols, ite_self, List.map_eq_nil_iff, hpk, if_false]
  obtain ⟨batchGet, hbatch, hkind, hbatchLines⟩ := buildBatchGetRequest_ok hpk text
  obtain ⟨columns, hcols, hagrees⟩ := messages_agree_iff hfile hbatch hkind (by rw [hresolve, List.length_map])
  rw [hagrees, entityMessage_declared_iff hnodup hcols, filterMessage_declared_iff hnodup, hresolve,
    keyFields_declared_iff]
  constructor
  · rintro ⟨htypes, hwires, _, hfilter⟩
    refine ⟨htypes, fun f hf => ?_, hfilter⟩
    exact (wire_single_iff (htext f hf) (htypes f (mem_fields_of_mem_PKFields hf))).mp (hwires f hf)
  · rintro ⟨htypes, hkeys, hfilter⟩
    have hwires : ∀ f ∈ PKFields e, (text f).wire = some (setProtoType f.type, false) := fun f hf =>
      (wire_single_iff (htext f hf) (htypes f (mem_fields_of_mem_PKFields hf))).mpr (hkeys f hf)
    exact ⟨htypes, hwires, hbatchLines hwires, hfilter⟩

/-! ## Histories -/

/-- A schema with the numbers that a history of applies gave it. -/
inductive Numbered : IR → Prop where
  | first {ir : IR} (h : Validated ir) : Numbered (AssignProtoNumbers ⟨[]⟩ ir)
  | next {old ir : IR} (hold : Numbered old) (h : Validated ir) : Numbered (AssignProtoNumbers old ir)

/-- What the builders rely on: no column twice, and a key. -/
theorem Numbered.entity {ir : IR} (h : Numbered ir) (he : e ∈ ir.entities) :
    (e.fields.map Field.name).Nodup ∧ PKFields e ≠ [] := by
  obtain ⟨ir₀, e₀, hv, he₀, oldE, rfl⟩ : ∃ ir₀ e₀, Validated ir₀ ∧ e₀ ∈ ir₀.entities ∧
      ∃ oldE, e = assignNumbers oldE e₀ := by
    cases h with
    | @first ir₀ hv =>
      obtain ⟨e₀, he₀, rfl⟩ := List.mem_map.mp he
      exact ⟨ir₀, e₀, hv, he₀, _, rfl⟩
    | @next old ir₀ hold hv =>
      obtain ⟨e₀, he₀, rfl⟩ := List.mem_map.mp he
      exact ⟨ir₀, e₀, hv, he₀, _, rfl⟩
  have hfields := congrArg Entity.fields (assignNumbers_unnumbered oldE e₀)
  have hcomp : (assignNumbers oldE e₀).compositePK = e₀.compositePK := by cases oldE <;> rfl
  refine ⟨?_, ?_⟩
  · rw [assignNumbers_names]
    exact (hv.lowered he₀).2.2.1
  · unfold PKFields
    rw [hcomp]
    rcases hv.primary_key he₀ with ⟨hne, hfound⟩ | ⟨hnil, hprim⟩
    · rw [if_pos hne]
      obtain ⟨n, ns, hns⟩ := List.exists_cons_of_ne_nil hne
      have hsome := hfound n (by simp [hns])
      rw [Entity.findField, ← find_isSome_of_unnumbered hfields fun _ => rfl] at hsome
      obtain ⟨f, hf⟩ := Option.isSome_iff_exists.mp hsome
      rw [hns, @List.filterMap_cons_some _ _ (assignNumbers oldE e₀).findField _ _ _ hf]
      exact List.cons_ne_nil _ _
    · rw [if_neg (by simpa using hnil)]
      rw [Entity.primaryField, ← find_isSome_of_unnumbered hfields fun _ => rfl] at hprim
      obtain ⟨f, hf⟩ := Option.isSome_iff_exists.mp hprim
      rw [Entity.primaryField, hf]
      exact List.cons_ne_nil _ _

/-- Safe types are types the emitter knows. -/
theorem protoType_of_wireSafe (h : WireSafe t = true) : ∃ p, ProtoType t = .ok p := by
  have hscalar : ∀ name d l n s k, name = "vector" ∨ name ∈ sharedScalars →
      ∃ p, ProtoType (.scalar name d l n s k) = .ok p := by
    intro name d l n s k hname
    simp only [sharedScalars, List.mem_cons, List.not_mem_nil, or_false] at hname
    rcases hname with rfl | rfl | rfl | rfl | rfl | rfl | rfl | rfl | rfl | rfl | rfl | rfl | rfl | rfl <;>
      exact ⟨_, rfl⟩
  match t, h with
  | .scalar name d l n s k, h => exact hscalar name d l n s k (by simpa [WireSafe] using h)
  | .array (.scalar name d l n s k), h =>
    obtain ⟨p, hp⟩ := hscalar name d l n s k (.inr (by simpa [WireSafe] using h))
    exact ⟨.repeated p, by rw [ProtoType, hp]; rfl⟩

/-- **Compiled clients and the runtime server agree on the wire exactly when every entity is wired**: the
    files can be emitted, and for each entity the descriptors built at runtime are declared by its file. -/
theorem agreement_iff {ir : IR} (h : Numbered ir) :
    (∃ files, EmitProto ir = .ok files ∧ ∀ e ∈ ir.entities, ∃ file ∈ files,
        emitProtoEntity e (computeInboundRefs ir e.id) = .ok file ∧
          ∃ built, buildProtoDescriptors e = .ok built ∧ Agrees built file) ↔
      ∀ e ∈ ir.entities, Wired e := by
  constructor
  · rintro ⟨files, _, hall⟩ e he
    obtain ⟨file, _, hfile, hagrees⟩ := hall e he
    obtain ⟨hnodup, hpk⟩ := h.entity he
    exact (entity_agrees_iff hnodup hpk hfile).mp hagrees
  · intro hwired
    obtain ⟨files, hfiles⟩ := @mapM_total _ _ _ (fun e => emitProtoEntity e (computeInboundRefs ir e.id))
      ir.entities fun e he => by
        obtain ⟨columns, hcols⟩ := @mapM_total _ _ _ (columnLine e) (byProtoNumber e.fields) fun f hf => by
          obtain ⟨p, hp⟩ := protoType_of_wireSafe ((hwired e he).types f (mem_byProtoNumber.mp hf))
          exact ⟨_, by rw [columnLine, hp]; rfl⟩
        exact ⟨_, by rw [emitProtoEntity, hcols]; rfl⟩
    refine ⟨_, by rw [EmitProto, hfiles]; rfl, fun e he => ?_⟩
    obtain ⟨file, hmem, hfile⟩ := (mapM_mem hfiles).1 e he
    obtain ⟨hnodup, hpk⟩ := h.entity he
    exact ⟨file, (List.mem_insertionSort _).mpr hmem, hfile,
      (entity_agrees_iff hnodup hpk hfile).mpr (hwired e he)⟩

/-! ## A column is removed -/

instance (lines : List FieldLine) (fields : List FieldDesc) : Decidable (Declares lines fields) :=
  inferInstanceAs (Decidable (∀ d ∈ fields, ∃ l ∈ lines, l.desc = some d))

instance (built : List MessageDesc) (file : ProtoFile) : Decidable (Agrees built file) :=
  inferInstanceAs (Decidable (∀ m ∈ built, ∃ m' ∈ file.messages, m'.kind = m.kind ∧ Declares m'.fields m.fields))

def memoField (name type : String) : Field := { name, type := .simple type }

/-- Memos with the columns `fields` after the key. -/
def memosWith (fields : List Field) : IR where
  entities := [{ name := "Memo", namespace_ := "desk", fields := idField :: fields }]

/-- Three columns, numbered 1, 2, 3. -/
def memos : IR := AssignProtoNumbers ⟨[]⟩ (memosWith [memoField "title" "text", memoField "note" "text"])

/-- The second one is gone; the third keeps its number. -/
def memosAfter : IR := AssignProtoNumbers memos (memosWith [memoField "note" "text"])

theorem numbered_memos : Numbered memos := .first (by decide +kernel)

theorem numbered_memosAfter : Numbered memosAfter := .next numbered_memos (by decide +kernel)

/-- The client's filter has `note = 3`, the server's `note = 2`. -/
theorem filters_drift_after_removal :
    Numbered memosAfter ∧
      ¬ ∃ files, EmitProto memosAfter = .ok files ∧ ∀ e ∈ memosAfter.entities, ∃ file ∈ files,
        emitProtoEntity e (computeInboundRefs memosAfter e.id) = .ok file ∧
          ∃ built, buildProtoDescriptors e = .ok built ∧ Agrees built file := by
  refine ⟨numbered_memosAfter, ?_⟩
  rintro ⟨files, _, hall⟩
  obtain ⟨e, he⟩ : ∃ e, memosAfter.entities = [e] := ⟨_, rfl⟩
  obtain ⟨file, _, hfile, built, hbuilt, hagrees⟩ := hall e (by simp [he])
  have hno : ∀ e ∈ memosAfter.entities, ∀ file ∈ (emitProtoEntity e (computeInboundRefs memosAfter e.id)).toOption,
      ∀ built ∈ (buildProtoDescriptors e).toOption, ¬ Agrees built file := by decide +kernel
  exact hno e (by simp [he]) file (by rw [hfile]; rfl) built (by rw [hbuilt]; rfl) hagrees

theorem agreement_iff_memos :
    Numbered memos ∧ (∀ e ∈ memos.entities, Wired e) ∧
      ∃ files, EmitProto memos = .ok files ∧ ∀ e ∈ memos.entities, ∃ file ∈ files,
        emitProtoEntity e (computeInboundRefs memos e.id) = .ok file ∧
          ∃ built, buildProtoDescriptors e = .ok built ∧ Agrees built file := by
  have hwired : ∀ e ∈ memos.entities, Wired e := by decide +kernel
  exact ⟨numbered_memos, hwired, (agreement_iff numbered_memos).mpr hwired⟩

end Atlantis.Proto
