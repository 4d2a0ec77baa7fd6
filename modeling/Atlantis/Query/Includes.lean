import Atlantis.Query.CachedQuery

/-!
# `Query.Includes` — included children against the child's own query

A request may ask for the rows that refer to the entities of its page. The attach helper of such a relation
reads them by the printed first key of the parents and groups them by their printed reference. Its statement
is `SELECT … WHERE fk = ANY($1)`: it has neither the child's soft-delete predicate nor its partition, and it
takes the reference to be one to the parent's first key column.

`includesRespectVisibility_iff` says for which relations of a schema this is enough, on every database: the
child is not soft-deleted, it has no partition of its own that the parent's partition does not imply, and its
reference is to the first key column. A parent partitioned by its key and a child partitioned by its
reference are the one case in which the partition takes care of itself.
-/

namespace Atlantis.Query

open Sql Schema Lib Cache

variable {V : Type} (W : Wire) (db : Db V) (ir : IR) (e : Entity) (ref : InboundRef)

/-- What the database and its driver guarantee: equality is equality, arguments are bound alike everywhere,
    the parent's first key is not null, and keys and references print alike exactly when they are equal. -/
structure IncludeDb : Prop where
  eq_iff : ∀ id c v w, (db.driver id).cmp c .eq v w = true ↔ v = w
  bind_eq : ∀ id a, (db.driver id).bind a = (db.driver e.id).bind a
  notNull : ∀ p ∈ db.table e.id, (p (primaryPKName e)).isSome
  printed_iff : ∀ v w, (db.driver ref.fromEntity.id).printed ref.fromField.name (some v)
    = (db.driver e.id).printed (primaryPKName e) (some w) ↔ v = w

/-- The child refers to the parent. -/
def References (ref : InboundRef) (child parent : Row V) : Prop :=
  ∃ r v, ref.fromField.ref = some r ∧ child ref.fromField.name = some v ∧ parent r.targetField = some v

/-- The slots of a page are right: what is in them is visible to the caller, and an included child is with
    exactly the parents it refers to. -/
def SlotsRight (caller : Option Arg) (parents : List (Row V)) (children : List (List (Row V))) : Prop :=
  (∀ px ∈ parents.zip children, ∀ x ∈ px.2, x ∈ db.table ref.fromEntity.id ∧
    Visible (db.driver ref.fromEntity.id).toPg ref.fromEntity caller x) ∧
  ∀ x ∈ children.flatten, ∀ px ∈ parents.zip children, x ∈ px.2 ↔ References ref x px.1

/-- **Includes respect the child's own visibility**: on every database, for every caller and every request. -/
def IncludesRespectVisibility (ir : IR) (e : Entity) (ref : InboundRef) : Prop :=
  ∀ (V : Type) (W : Wire) (db : Db V), IncludeDb db e ref →
    ∀ (s s' : Tier2) (caller : Option Arg) (req : QueryXRequest) (page : QueryResponse V) (slots : List (Slots V)),
      QueryX W db ir e s caller req (.ok (page, slots)) s' →
      ∀ slot ∈ slots, slot.ref = ref → SlotsRight db ref caller page.entities slot.children

/-- The relations for which the statement of the attach helper is enough. (The first case is an entity whose
    key column marks its deletion: it has no live row.) -/
def IncludeSafe (e : Entity) (ref : InboundRef) : Prop :=
  e.softDeleteField = primaryPKName e ∨
    (ref.fromEntity.softDeleteField = "" ∧
      (ref.fromEntity.partitionField = "" ∨
        (ref.fromEntity.partitionField = ref.fromField.name ∧ e.partitionField = primaryPKName e)) ∧
      ∀ r ∈ ref.fromField.ref, r.targetField = primaryPKName e)

instance (e : Entity) (ref : InboundRef) : Decidable (IncludeSafe e ref) :=
  inferInstanceAs (Decidable (_ ∨ (_ ∧ (_ ∨ (_ ∧ _)) ∧ ∀ r ∈ ref.fromField.ref, _)))

/-! ## Where the statement is enough -/

variable {W db ir e ref} {caller : Option Arg} {req : QueryXRequest} {page : QueryResponse V} {parents : List (Row V)}

theorem visible_of_page (h : Page W db e caller req (.ok page)) {r : Row V} (hr : r ∈ page.entities) :
    r ∈ db.table e.id ∧ Visible (db.driver e.id).toPg e caller r := by
  cases h with
  | answered hst hrows =>
    rw [trimPage_entities] at hr
    obtain ⟨htable, hvalue⟩ := hrows.mem (List.mem_of_mem_take hr)
    exact ⟨htable, visible_of_value hst hvalue⟩

/-- Every slot was filled by its attach helper. -/
theorem Dispatch.attach {incs : List Int32} {slots : List (Slots V)}
    (h : Dispatch db ir e parents incs (.ok slots)) :
    ∀ slot ∈ slots, Attach db e slot.ref parents (.ok slot.children) := by
  generalize hres : Except.ok slots = res at h
  induction h generalizing slots with
  | nil =>
    cases hres
    intro slot hslot
    cases hslot
  | unknown _ _ ih => exact ih hres
  | unsupported _ _ | failed _ _ _ => cases hres
  | @attached inc incs ref children res _ _ hattach _ ih =>
    cases res with
    | error err => cases hres
    | ok rest =>
      cases hres
      intro slot hslot
      rcases List.mem_cons.mp hslot with rfl | hslot
      · exact hattach
      · exact ih rfl slot hslot

/-- What an attach helper puts into the slots: children whose reference is the parent's first key. -/
theorem Attach.slots {children : List (List (Row V))} (hdb : IncludeDb db e ref)
    (hparents : ∀ p ∈ parents, p ∈ db.table e.id) (h : Attach db e ref parents (.ok children)) {x : Row V}
    (hx : x ∈ children.flatten) :
    x ∈ db.table ref.fromEntity.id ∧ (x ref.fromField.name).isSome ∧
      ∀ px ∈ parents.zip children, x ∈ px.2 ↔ x ref.fromField.name = px.1 (primaryPKName e) := by
  cases h with
  | none _ => cases hx
  | @found keys rows _ _ hrows =>
    have hrow : x ∈ rows := by
      obtain ⟨slot, hslot, hx⟩ := List.mem_flatten.mp hx
      obtain ⟨p, _, rfl⟩ := List.mem_map.mp hslot
      exact (List.mem_filter.mp hx).1
    obtain ⟨htable, hany⟩ := List.mem_filter.mp (hrows.mem_iff.mp hrow)
    obtain ⟨v, hv⟩ : ∃ v, x ref.fromField.name = some v := by
      unfold GoDriver.anyKey at hany
      split at hany
      · cases hany
      · exact ⟨_, ‹_›⟩
    refine ⟨htable, by rw [hv]; rfl, fun px hpx => ?_⟩
    rw [← List.map_prod_left_eq_zip] at hpx
    obtain ⟨p, hp, rfl⟩ := List.mem_map.mp hpx
    obtain ⟨w, hw⟩ := Option.isSome_iff_exists.mp (hdb.notNull p (hparents p hp))
    dsimp only
    rw [List.mem_filter, beq_iff_eq, hv, hw, hdb.printed_iff, Option.some_inj]
    exact and_iff_right hrow

/-- **Where the statement is enough.** -/
theorem IncludeSafe.includesRespectVisibility (hname : primaryPKName e ≠ "") (hsafe : IncludeSafe e ref)
    (href : ∃ r, ref.fromField.ref = some r) : IncludesRespectVisibility ir e ref := by
  intro V W db hdb s s' caller req page slots hrun slot hslot hslotref
  have hpage : Page W db e caller req (.ok page) ∧ Attach db e ref page.entities (.ok slot.children) := by
    generalize hres : Except.ok (page, slots) = res at hrun
    cases hrun with
    | @hit entry res' _ _ =>
      -- an answer from the cache has no slots
      cases res' with
      | error err => cases hres
      | ok page' =>
        obtain ⟨_, rfl⟩ := Prod.mk.inj (Except.ok.inj hres)
        cases hslot
    | refused _ _ | notAttached _ _ _ => cases hres
    | answered _ hpage hinc =>
      cases hres
      exact ⟨hpage, hslotref ▸ hinc.attach slot hslot⟩
  obtain ⟨hpage, hattach⟩ := hpage
  have hparents : ∀ p ∈ page.entities, p ∈ db.table e.id := fun p hp => (visible_of_page hpage hp).1
  rcases hsafe with hdead | ⟨hsoft, hpart, htarget⟩
  · -- no parent at all
    have hnone : page.entities = [] := by
      rw [List.eq_nil_iff_forall_not_mem]
      intro p hp
      obtain ⟨hmem, hlive, _⟩ := visible_of_page hpage hp
      have hsome := hdb.notNull p hmem
      rcases hlive with hlive | hlive
      · exact hname (hdead.symm.trans hlive)
      · rw [← hdead, hlive] at hsome
        cases hsome
    rw [hnone]
    refine ⟨fun px hpx => ?_, fun x _ px hpx => ?_⟩ <;> cases hpx
  · obtain ⟨r, hr⟩ := href
    refine ⟨fun px hpx x hx => ?_, fun x hx px hpx => ?_⟩
    · have hflat : x ∈ slot.children.flatten := List.mem_flatten.mpr ⟨px.2, (List.of_mem_zip hpx).2, hx⟩
      obtain ⟨htable, hsome, hiff⟩ := hattach.slots hdb hparents hflat
      refine ⟨htable, .inl hsoft, ?_⟩
      unfold inPartition
      rcases hpart with hpart | ⟨hchild, hparent⟩
      · simp [hpart]
      · -- the parent is in the caller's partition, and its key is the child's reference
        have hin := (visible_of_page hpage (List.of_mem_zip hpx).1).2.2
        unfold inPartition at hin
        rw [hparent] at hin
        rw [hchild, (hiff px hpx).mp hx]
        cases caller <;> cases hp : px.1 (primaryPKName e) <;> simp_all [hdb.eq_iff, hdb.bind_eq ref.fromEntity.id]
    · obtain ⟨_, hsome, hiff⟩ := hattach.slots hdb hparents hx
      rw [hiff px hpx]
      obtain ⟨v, hv⟩ := Option.isSome_iff_exists.mp hsome
      have hfield := htarget r hr
      constructor
      · intro hkey
        exact ⟨r, v, hr, hv, by rw [hfield, ← hkey, hv]⟩
      · rintro ⟨r', v', hr', hv', hp⟩
        obtain rfl : r = r' := Option.some.inj (hr.symm.trans hr')
        rw [hfield] at hp
        exact hv'.trans hp.symm

/-! ## Where it is not -/

section

open Server

variable {p x : Row String}

/-- A parent and a child, in the tables of their entities (which may be one). -/
def familyDb (e : Entity) (ref : InboundRef) (p x : Row String) : Db String where
  driver _ := textGoDriver
  table id := (if id = e.id then [p] else []) ++ (if id = ref.fromEntity.id then [x] else [])

theorem utf8_inj {a b : String} (h : a.toUTF8.data.toList = b.toUTF8.data.toList) : a = b := by
  refine String.toByteArray_inj.mp (ByteArray.ext (Array.toList_inj.mp h))

theorem includeDb_family (hp : (p (primaryPKName e)).isSome) (hx : (x (primaryPKName e)).isSome) :
    IncludeDb (familyDb e ref p x) e ref where
  eq_iff _ c := (textPg_linear c).eq_iff
  bind_eq _ _ := rfl
  notNull r hr := by
    rcases List.mem_append.mp hr with hr | hr
    · rw [if_pos rfl] at hr
      rw [List.mem_singleton.mp hr]
      exact hp
    · split at hr
      · rw [List.mem_singleton.mp hr]
        exact hx
      · cases hr
  printed_iff v w := ⟨utf8_inj, fun h => by rw [h]; rfl⟩

theorem Page.with_includes {W : Wire} {db : Db String} {res : Except QueryError (QueryResponse String)}
    (h : Page W db e caller {} res) (incs : List Int32) : Page W db e caller { includes := incs } res := by
  cases h with
  | refused h => exact .refused h
  | answered h hrows => exact .answered h hrows

/-- **A child that refers to the first key of a visible parent is attached to it**, whatever else holds of it;
    so it had better be visible and refer to that parent. -/
theorem IncludesRespectVisibility.child {inc : Int32} {extras : List Frag} {pargs : List Arg}
    (h : IncludesRespectVisibility ir e ref) (hinc : includeVariant ir e inc = some ref)
    (hsrc : includableSource ref e = true) (hex : extraPredicates e caller = .ok (extras, pargs))
    (hp : p (primaryPKName e) = some "k") (hvisible : Visible textPg e caller p)
    (hx : (x (primaryPKName e)).isSome) (hxf : x ref.fromField.name = some "k") :
    Visible textPg ref.fromEntity caller x ∧ References ref x p := by
  let db := familyDb e ref p x
  let pk := primaryPKName e
  have hdb : IncludeDb db e ref := includeDb_family (by rw [hp]; rfl) hx
  -- the first page has the parent on it
  obtain ⟨rows, hperm, hsorted⟩ := exists_inOrder (fun k _ => textPg_linear k.column)
    ((db.table e.id).filter fun r => decide (Visible textPg e caller r))
  have hshort : rows.length ≤ 100 := by
    have hlen : (db.table e.id).length ≤ 2 := by
      show ((if e.id = e.id then [p] else []) ++ (if e.id = ref.fromEntity.id then [x] else [])).length ≤ 2
      rw [if_pos rfl]
      split <;> simp
    have hle := (List.length_filter_le (fun r => decide (Visible textPg e caller r)) (db.table e.id)).trans hlen
    rw [hperm.length_eq]
    omega
  have hpage : Page plainWire db e caller {} (.ok ⟨rows, .empty⟩) := by
    apply (page_plain_iff [] hex).mpr
    refine ⟨rows, hperm, hsorted, ?_⟩
    show _ = Except.ok (trimPage _ _ 100 (rows.take 101))
    unfold trimPage
    rw [List.take_of_length_le (by omega), if_neg (by omega)]
  have hmem : p ∈ rows := by
    rw [hperm.mem_iff, List.mem_filter]
    refine ⟨?_, decide_eq_true hvisible⟩
    show p ∈ (if e.id = e.id then [p] else []) ++ _
    rw [if_pos rfl]
    exact List.mem_cons_self
  -- this driver binds every key
  obtain ⟨keys, hkeys⟩ : ∃ keys, textGoDriver.bindKeys ref.fromField.name
      (rows.map fun r => textGoDriver.printed pk (r pk)) = .ok keys := mapM_total fun _ _ => ⟨_, rfl⟩
  -- the page is answered, with the child in the parent's slot
  let slot : Row String → List (Row String) := fun r =>
    ((db.table ref.fromEntity.id).filter (textGoDriver.anyKey ref.fromField.name keys)).filter fun child =>
      textGoDriver.printed ref.fromField.name (child ref.fromField.name) == textGoDriver.printed pk (r pk)
  have hattach : Attach db e ref rows (.ok (rows.map slot)) := .found (List.ne_nil_of_mem hmem) hkeys (.refl _)
  have hrun : QueryX plainWire db ir e ⟨fun _ => none, 0⟩ caller { includes := [inc] }
      (.ok (⟨rows, .empty⟩, [⟨ref, rows.map slot⟩])) _ :=
    .answered rfl (hpage.with_includes [inc]) (.attached hinc hsrc hattach .nil)
  obtain ⟨hvisibles, hexact⟩ := h _ _ db hdb _ _ _ _ _ _ hrun _ (List.mem_singleton.mpr rfl) rfl
  have hpx : (p, slot p) ∈ rows.zip (rows.map slot) := by
    rw [← List.map_prod_left_eq_zip]
    exact List.mem_map_of_mem hmem
  have hslot : x ∈ slot p := by
    have hkey : "k" ∈ keys := by
      obtain ⟨v, hv, hbind⟩ := (mapM_mem hkeys).1 _ (List.mem_map.mpr ⟨p, hmem, rfl⟩)
      rw [show p pk = some "k" from hp] at hbind
      have hback : textGoDriver.bindKey "" (textGoDriver.printed "" (some "k")) = .ok "k" := by decide +kernel
      rw [Except.ok.inj (hback.symm.trans hbind)]
      exact hv
    rw [List.mem_filter, List.mem_filter]
    refine ⟨⟨?_, ?_⟩, ?_⟩
    · apply List.mem_append_right
      rw [if_pos rfl]
      exact List.mem_cons_self
    · exact (anyKey_iff (textPg_linear _)).mpr ⟨"k", hkey, hxf⟩
    · rw [hxf, show p pk = some "k" from hp]
      exact beq_self_eq_true _
  refine ⟨(hvisibles _ hpx x hslot).2, ?_⟩
  exact (hexact x (List.mem_flatten.mpr ⟨_, (List.of_mem_zip hpx).2, hslot⟩) _ hpx).mp hslot

theorem primaryPKName_ne_empty (hv : Validated ir) (he : e ∈ ir.entities) : primaryPKName e ≠ "" := by
  unfold primaryPKName
  rcases hv.primary_key he with ⟨hcomp, hfields⟩ | ⟨_, hprim⟩
  · rw [hv.primaryField_eq_none he hcomp]
    obtain ⟨c, cs, hcs⟩ := List.exists_cons_of_ne_nil hcomp
    obtain ⟨f, hf, hname⟩ := exists_field_of_findField_isSome (hfields c (by rw [hcs]; simp))
    simp only [hcs, List.headD_cons]
    rw [← hname]
    exact hv.field_name_ne_empty he hf
  · obtain ⟨f, hf⟩ := Option.isSome_iff_exists.mp hprim
    rw [hf]
    exact hv.field_name_ne_empty he (List.mem_of_find?_eq_some hf)

theorem ref_of_includeVariant {inc : Int32} (h : includeVariant ir e inc = some ref) :
    ∃ r, ref.fromField.ref = some r := by
  unfold includeVariant at h
  split at h
  · cases h
  have hmem := List.mem_of_getElem? h
  unfold computeInboundRefs at hmem
  rw [List.mem_mergeSort, List.mem_flatMap] at hmem
  obtain ⟨src, _, hmem⟩ := hmem
  obtain ⟨f, _, hf⟩ := List.mem_filterMap.mp hmem
  split at hf
  · rename_i r hr
    split at hf
    · cases hf
      exact ⟨r, hr⟩
    · cases hf
  · cases hf

/-- **For which relations includes are right.** -/
theorem includesRespectVisibility_iff {inc : Int32} (hv : Validated ir) (he : e ∈ ir.entities)
    (hinc : includeVariant ir e inc = some ref) (hsrc : includableSource ref e = true) :
    IncludesRespectVisibility ir e ref ↔ IncludeSafe e ref := by
  have hname := primaryPKName_ne_empty hv he
  obtain ⟨r, hr⟩ := ref_of_includeVariant hinc
  refine ⟨fun h => ?_, fun h => h.includesRespectVisibility hname ⟨r, hr⟩⟩
  by_cases hdead : e.softDeleteField = primaryPKName e
  · exact .inl hdead
  have hdead' : primaryPKName e ≠ e.softDeleteField := fun heq => hdead heq.symm
  -- a live parent with key `k`, in the partition of a caller that the other columns have nothing to do with
  let p : Row String := fun c => if c = e.softDeleteField then none else if c = primaryPKName e then some "k" else some "t"
  let partition := if e.partitionField = primaryPKName e then "k" else "t"
  have hp : p (primaryPKName e) = some "k" := by
    show (if primaryPKName e = e.softDeleteField then none else _) = _
    rw [if_neg hdead', if_pos rfl]
  have hvisible : Visible textPg e (some (.str partition)) p := by
    refine ⟨.inr (if_pos rfl), ?_⟩
    by_cases hpart : e.partitionField = ""
    · unfold inPartition
      simp [hpart]
    · have hval : p e.partitionField = some partition := by
        show (if e.partitionField = e.softDeleteField then none else _) = _
        rw [if_neg (hv.partition_ne_softDelete he hpart)]
        show (if e.partitionField = primaryPKName e then some "k" else some "t") = _
        split <;> simp_all [partition]
      unfold inPartition
      rw [hval]
      simp [textPg]
  obtain ⟨extras, pargs, hex⟩ := exists_extraPredicates e (.str partition)
  have hchild := fun x hx hxf => h.child (x := x) hinc hsrc hex hp hvisible hx hxf
  refine .inr ⟨?_, ?_, ?_⟩
  · -- a child with a deletion mark
    obtain ⟨⟨hlive | hlive, _⟩, _⟩ := hchild (fun _ => some "k") rfl rfl
    · exact hlive
    · cases hlive
  · -- a child of another partition
    by_contra hpart
    obtain ⟨hnone, hcase⟩ := not_or.mp hpart
    let x : Row String := fun c => if c = ref.fromField.name then some "k" else some "u"
    have hx : (x (primaryPKName e)).isSome := by
      show (if _ then some "k" else some "u").isSome
      split <;> rfl
    obtain ⟨⟨_, hin⟩, _⟩ := hchild x hx (if_pos rfl)
    unfold inPartition at hin
    rw [Bool.or_eq_true, decide_eq_true_eq] at hin
    rcases hin with hin | hin
    · exact hnone hin
    by_cases hf : ref.fromEntity.partitionField = ref.fromField.name
    · have hother : e.partitionField ≠ primaryPKName e := fun heq => hcase ⟨hf, heq⟩
      have hxp : x ref.fromEntity.partitionField = some "k" := if_pos hf
      rw [hxp] at hin
      simp [textPg, partition, hother] at hin
    · have hxp : x ref.fromEntity.partitionField = some "u" := if_neg hf
      rw [hxp] at hin
      by_cases hother : e.partitionField = primaryPKName e <;> simp [textPg, partition, hother] at hin
  · -- a reference to another column
    intro r' hr'
    obtain ⟨_, r'', v, hr'', hv', hpv⟩ := hchild (fun _ => some "k") rfl rfl
    obtain rfl : r' = r'' := Option.some.inj (Eq.trans hr'.symm hr'')
    obtain rfl : "k" = v := Option.some.inj hv'
    simp only [p] at hpv
    split_ifs at hpv with _ hpk
    · exact hpk
    · simp at hpv

end

/-! ## Memos of another tenant, and deleted ones -/

open Server

def account : Entity where
  name := "Account"
  namespace_ := "crm"
  fields := [{ name := "id", type := .simple "text", primary := true, notNull := true, protoNumber := 1 }]

def memoAccount : Field where
  name := "account_id"
  type := .simple "text"
  notNull := true
  ref := some { targetID := "crm.Account", targetField := "id" }
  protoNumber := 2

def memo : Entity where
  name := "Memo"
  namespace_ := "crm"
  fields := [
    { name := "id", type := .simple "text", primary := true, notNull := true, protoNumber := 1 },
    memoAccount,
    { name := "tenant", type := .simple "text", notNull := true, protoNumber := 3 },
    { name := "deleted_at", type := .simple "timestamptz", protoNumber := 4 }]
  softDeleteField := "deleted_at"
  partitionField := "tenant"

def crm : IR := ⟨[account, memo]⟩

/-- The reference of a memo to its account. -/
def memoRef : InboundRef := ⟨memo, memoAccount⟩

def accountRow : Row String := fun c => if c = "id" then some "1" else none

def memoRow (id tenant : String) (deletedAt : Option String) : Row String := fun c =>
  if c = "id" then some id else if c = "account_id" then some "1" else if c = "tenant" then some tenant
  else if c = "deleted_at" then deletedAt else none

def crmDb : Db String where
  driver _ := textGoDriver
  table id :=
    if id = "crm.Account" then [accountRow]
    else if id = "crm.Memo" then [memoRow "1" "globex" none, memoRow "2" "acme" (some "2024-05-01")]
    else []

def memos : List (Row String) := [memoRow "1" "globex" none, memoRow "2" "acme" (some "2024-05-01")]

theorem includeVariant_memo : includeVariant crm account 1 = some memoRef := by
  decide +kernel

/-- A tenant includes the memos of an account and gets one of another tenant and one that was deleted. -/
theorem includes_show_hidden_memos :
    ∃ page slots s, QueryX plainWire crmDb crm account ⟨fun _ => none, 0⟩ (some (.str "acme")) { includes := [1] }
        (.ok (page, slots)) s ∧
      ∃ slot ∈ slots, ∃ xs ∈ slot.children, xs ≠ [] ∧ ∀ x ∈ xs, ¬Visible textPg memo (some (.str "acme")) x := by
  have hpage : Page plainWire crmDb account (some (.str "acme")) {} (.ok ⟨[accountRow], .empty⟩) := by
    apply (page_plain_iff [] rfl).mpr
    refine ⟨[accountRow], ?_, List.pairwise_singleton _ _, rfl⟩
    show List.Perm _ ([accountRow].filter fun r => decide (Visible textPg account (some (.str "acme")) r))
    rw [List.filter_cons_of_pos (by decide +kernel), List.filter_nil]
  have hkeys : textGoDriver.bindKeys "account_id" [textGoDriver.printed "id" (accountRow "id")] = .ok ["1"] := by
    decide +kernel
  have hmemos : memos.filter (textGoDriver.anyKey "account_id" ["1"]) = memos := by
    rw [List.filter_eq_self]
    decide +kernel
  have hgroup : (memos.filter fun child => textGoDriver.printed "account_id" (child "account_id")
      == textGoDriver.printed "id" (accountRow "id")) = memos := by
    rw [List.filter_eq_self]
    decide +kernel
  have hattach : Attach crmDb account memoRef [accountRow] (.ok [memos]) := by
    rw [← hgroup]
    refine .found (List.cons_ne_nil _ _) hkeys ?_
    show memos.Perm (memos.filter (textGoDriver.anyKey "account_id" ["1"]))
    rw [hmemos]
  have hsrc : includableSource memoRef account = true := by decide +kernel
  refine ⟨_, _, _, .answered rfl (hpage.with_includes [1]) (.attached includeVariant_memo hsrc hattach .nil), ?_⟩
  refine ⟨_, List.mem_singleton.mpr rfl, memos, List.mem_singleton.mpr rfl, List.cons_ne_nil _ _, ?_⟩
  decide +kernel

theorem includesRespectVisibility_iff_memos :
    Validated crm ∧ includeVariant crm account 1 = some memoRef ∧ includableSource memoRef account = true ∧
      (IncludesRespectVisibility crm account memoRef ↔ IncludeSafe account memoRef) :=
  have hv : Validated crm := by decide +kernel
  have hsrc : includableSource memoRef account = true := by decide +kernel
  ⟨hv, includeVariant_memo, hsrc,
    includesRespectVisibility_iff hv (List.mem_cons_self ..) includeVariant_memo hsrc⟩

end Atlantis.Query
