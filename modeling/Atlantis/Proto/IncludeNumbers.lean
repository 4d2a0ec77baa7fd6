import Mathlib.Data.Prod.Lex
import Atlantis.Proto.Emit
import Atlantis.Schema.Validate

/-!
# `Proto.IncludeNumbers` — the numbers of include values and slots

A relation of an entity is numbered by its position in `computeInboundRefs`: the `i`-th has the enum value
`i + 1` and, if its source is in the namespace, the slot `1000 + i + 1`. In the sorted list a position is
the count of the references before it (`countP_before`), so the numbers stay exactly if the references that
come or go sort after all that stay.
-/

namespace Atlantis.Proto

open Schema

/-- `FilterIR`. -/
def FilterIR (ir : IR) (namespaces : List String) : IR := ⟨ir.entities.filter (·.namespace_ ∈ namespaces)⟩

/-- The relations of `e`, each with its enum value and its slot, if it has one. -/
def includeNumbers (e : Entity) (inbound : List InboundRef) : List (InboundRef × Nat × Option Nat) :=
  inbound.zipIdx.map fun (ref, i) => (ref, i + 1, (includableSource ref e).map fun _ => 1000 + i + 1)

theorem number_includeSlots (e : Entity) (inbound : List InboundRef) :
    (includeSlots e inbound).map FieldLine.number = (includeNumbers e inbound).filterMap (·.2.2) := by
  simp [includeSlots, includeNumbers, List.map_filterMap, List.filterMap_map, Function.comp_def]

/-- The field `ref` of a schema refers to the entity `id`. -/
def Refers (ir : IR) (id : String) (ref : InboundRef) : Prop :=
  ∃ src ∈ ir.entities, ∃ f ∈ src.fields, ref = ⟨src.id, f.name⟩ ∧ ∃ r ∈ f.ref, r.targetID = id

/-- `ir'` has the entities and fields of `ir`, and others. -/
def Grown (ir ir' : IR) : Prop :=
  Validated ir' ∧ ∀ src ∈ ir.entities, ∃ src' ∈ ir'.entities, src'.id = src.id ∧ src.fields ⊆ src'.fields

/-- The relations both schemas have keep their numbers; `e` and `e'` are the entity in the one and the other. -/
def NumbersStay (ir ir' : IR) (e e' : Entity) : Prop :=
  ∀ x ∈ includeNumbers e (computeInboundRefs ir e.id), ∀ x' ∈ includeNumbers e' (computeInboundRefs ir' e'.id),
    x.1 = x'.1 → x.2 = x'.2

instance (ir ir' : IR) (e e' : Entity) : Decidable (NumbersStay ir ir' e e') :=
  inferInstanceAs (Decidable (∀ _ ∈ _, ∀ _ ∈ _, _))

/-! ## The order of references -/

theorem InboundRef.le_iff {a b : InboundRef} :
    a.le b ↔ toLex (a.fromEntityID, a.fromField) ≤ toLex (b.fromEntityID, b.fromField) := by
  rw [Prod.Lex.toLex_le_toLex]
  rfl

instance : Std.Total InboundRef.le :=
  ⟨fun a b => by rw [InboundRef.le_iff, InboundRef.le_iff]; exact le_total _ _⟩

instance : IsTrans InboundRef InboundRef.le :=
  ⟨fun a b c => by rw [InboundRef.le_iff, InboundRef.le_iff, InboundRef.le_iff]; exact le_trans⟩

theorem InboundRef.le_antisymm {a b : InboundRef} (hab : a.le b) (hba : b.le a) : a = b := by
  have h := (InboundRef.le_iff.mp hab).antisymm (InboundRef.le_iff.mp hba)
  cases a
  cases b
  simpa using h

variable {ir ir' : IR} {e e' : Entity} {l l' : List InboundRef}

theorem countP_before {ref : InboundRef} {i : Nat} (hnodup : l.Nodup) (hle : l.Pairwise InboundRef.le)
    (hi : l[i]? = some ref) : l.countP (¬ ref.le ·) = i := by
  induction l generalizing i with
  | nil => cases hi
  | cons a l ih =>
    obtain ⟨⟨hne, hnodup⟩, hle, hl⟩ := And.intro (List.nodup_cons.mp hnodup) (List.pairwise_cons.mp hle)
    cases i with
    | zero =>
      cases hi
      have hself : ref.le ref := (Std.Total.total ref ref).elim id id
      simpa [hself] using hle
    | succ i =>
      have href : ref ∈ l := List.mem_of_getElem? hi
      have hbefore : ¬ ref.le a := by
        intro hra
        rw [InboundRef.le_antisymm hra (hle ref href)] at href
        exact hne href
      rw [List.countP_cons_of_pos (by simpa using hbefore), ih hnodup hl hi]

theorem countP_eq_iff {p : InboundRef → Bool} (h : l.Nodup) (h' : l'.Nodup) (hsub : l ⊆ l') :
    l.countP p = l'.countP p ↔ ∀ a, (a ∈ l ↔ a ∉ l') → p a = false := by
  have hsubperm : (l.filter p).Subperm (l'.filter p) := by
    refine List.subperm_of_subset (h.filter p) fun a ha => ?_
    rw [List.mem_filter] at ha ⊢
    exact ⟨hsub ha.1, ha.2⟩
  rw [List.countP_eq_length_filter, List.countP_eq_length_filter]
  constructor
  · intro hlen a hone
    have hperm := (hsubperm.perm_of_length_le hlen.ge).mem_iff (a := a)
    grind
  · intro hall
    refine hsubperm.length_le.antisymm (List.subperm_of_subset (h'.filter p) fun a ha => ?_).length_le
    grind

/-! ## The references of a schema -/

theorem inboundRef_eq_some {src : Entity} {f : Field} {ref : InboundRef} :
    (f.ref.bind fun r => if r.targetID = e.id ∧ r.targetID ≠ "" then some (InboundRef.mk src.id f.name) else none)
      = some ref ↔ ref = ⟨src.id, f.name⟩ ∧ ∃ r ∈ f.ref, r.targetID = e.id := by
  have hid : e.id ≠ "" := by
    intro h
    have := congrArg String.length h
    simp [Entity.id] at this
  cases f.ref with
  | none => simp
  | some r =>
    by_cases h : r.targetID = e.id <;> simp [h, hid]
    exact eq_comm

theorem mem_computeInboundRefs {ref : InboundRef} : ref ∈ computeInboundRefs ir e.id ↔ Refers ir e.id ref := by
  simp only [computeInboundRefs, List.mem_insertionSort, List.mem_flatMap, List.mem_filterMap, inboundRef_eq_some, Refers]

theorem nodup_computeInboundRefs (h : Validated ir) (hsub : ir'.entities.Sublist ir.entities) :
    (computeInboundRefs ir' e.id).Nodup := by
  refine (List.perm_insertionSort _ _).nodup_iff.mpr (List.pairwise_flatMap.mpr ⟨fun src hsrc => ?_, ?_⟩)
  · have hnames := (h.2.1 src (hsub.subset hsrc)).2.2.1
    rw [List.pairwise_filterMap]
    refine (List.pairwise_map.mp hnames).imp fun hne ref href ref' href' heq => ?_
    rw [(inboundRef_eq_some.mp href).1, (inboundRef_eq_some.mp href').1] at heq
    exact hne (InboundRef.mk.inj heq).2
  · refine (h.1.sublist hsub).imp fun hlt ref href ref' href' heq => ?_
    simp only [List.mem_filterMap, inboundRef_eq_some] at href href'
    obtain ⟨⟨f, _, rfl, _⟩, f', _, rfl, _⟩ := And.intro href href'
    exact hlt.ne (InboundRef.mk.inj heq).1

/-- **The numbers stay exactly if the references that come or go sort after those that stay.** -/
theorem numbersStay_iff (hv : Validated ir) (h : Grown ir ir' ∨ ∃ namespaces, ir' = FilterIR ir namespaces)
    (hns : e'.namespace_ = e.namespace_) (hname : e'.name = e.name) :
    NumbersStay ir ir' e e' ↔ ∀ ref ref', Refers ir e.id ref → Refers ir' e.id ref →
      (Refers ir e.id ref' ↔ ¬ Refers ir' e.id ref') → ref.le ref' := by
  have hid : e'.id = e.id := by
    unfold Entity.id
    rw [hns, hname]
  have hnodup : (computeInboundRefs ir e.id).Nodup := nodup_computeInboundRefs hv (.refl _)
  obtain ⟨hnodup', hsub⟩ : (computeInboundRefs ir' e.id).Nodup ∧
      (computeInboundRefs ir e.id ⊆ computeInboundRefs ir' e.id ∨
        computeInboundRefs ir' e.id ⊆ computeInboundRefs ir e.id) := by
    simp only [List.subset_def, mem_computeInboundRefs]
    rcases h with ⟨hv', hgrown⟩ | ⟨namespaces, rfl⟩
    · refine ⟨nodup_computeInboundRefs hv' (.refl _), .inl ?_⟩
      rintro ref ⟨src, hsrc, f, hf, rfl, hr⟩
      obtain ⟨src', hsrc', hid, hfields⟩ := hgrown src hsrc
      exact ⟨src', hsrc', f, hfields hf, by rw [hid], hr⟩
    · refine ⟨nodup_computeInboundRefs hv List.filter_sublist, .inr ?_⟩
      rintro ref ⟨src, hsrc, hf⟩
      exact ⟨src, List.mem_of_mem_filter hsrc, hf⟩
  have hpos : ∀ {ref : InboundRef} {i i' : Nat}, (computeInboundRefs ir e.id)[i]? = some ref → (computeInboundRefs ir' e.id)[i']? = some ref →
      (i = i' ↔ ∀ ref', (Refers ir e.id ref' ↔ ¬ Refers ir' e.id ref') → ref.le ref') := by
    intro ref i i' hi hi'
    rw [← countP_before hnodup (List.pairwise_insertionSort _ _) hi,
      ← countP_before hnodup' (List.pairwise_insertionSort _ _) hi']
    simp only [← mem_computeInboundRefs]
    rcases hsub with hsub | hsub
    · rw [countP_eq_iff hnodup hnodup' hsub]
      simp
    · rw [eq_comm, countP_eq_iff hnodup' hnodup hsub]
      simp [iff_not_comm]
  unfold NumbersStay includeNumbers
  simp only [List.forall_mem_map, Prod.forall, List.mem_zipIdx_iff_getElem?, hid, includableSource, hns]
  constructor
  · intro hstay ref ref' href href' hone
    obtain ⟨i, hi⟩ := List.mem_iff_getElem?.mp (mem_computeInboundRefs.mpr href)
    obtain ⟨i', hi'⟩ := List.mem_iff_getElem?.mp (mem_computeInboundRefs.mpr href')
    have hnum := congrArg Prod.fst (hstay ref i hi ref i' hi' rfl)
    exact (hpos hi hi').mp (by simpa using hnum) ref' hone
  · rintro hlast ref i hi _ i' hi' rfl
    have href := mem_computeInboundRefs.mp (List.mem_of_getElem? hi)
    have href' := mem_computeInboundRefs.mp (List.mem_of_getElem? hi')
    rw [(hpos hi hi').mpr fun ref' => hlast ref ref' href href']

/-- A table with a key, and a reference to the orders. -/
def orderSource (ns name : String) (ref : List Field) : Entity where
  name := name
  namespace_ := ns
  fields := idField :: ref

def orderID : Field :=
  { name := "order_id", type := .simple "bigint", ref := some { targetID := "shop.Order", targetField := "id" } }

def orders : Entity := orderSource "shop" "Order" []

def items : Entity := orderSource "shop" "Item" [orderID]

/-- The namespace that goes sorts after the one that stays. -/
theorem numbersStay_iff_web :
    let ir : IR := ⟨[items, orders, orderSource "web" "Cart" [orderID]]⟩
    Validated ir ∧ ∀ ref ref', Refers ir "shop.Order" ref → Refers (FilterIR ir ["shop"]) "shop.Order" ref →
      (Refers ir "shop.Order" ref' ↔ ¬ Refers (FilterIR ir ["shop"]) "shop.Order" ref') → ref.le ref' := by
  intro ir
  have hv : Validated ir := by decide +kernel
  exact ⟨hv, (numbersStay_iff (e := orders) hv (.inr ⟨["shop"], rfl⟩) rfl rfl).mp (by decide +kernel)⟩

/-- Without the invoices an item's relation has the number 1 in place of 2. -/
theorem filtered_client_renumbered :
    let ir : IR := ⟨[orderSource "billing" "Invoice" [orderID], items, orders]⟩
    Validated ir ∧ ¬ NumbersStay ir (FilterIR ir ["shop"]) orders orders := by
  decide +kernel

end Atlantis.Proto
