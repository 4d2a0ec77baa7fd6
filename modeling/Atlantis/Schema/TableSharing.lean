import Mathlib.Data.List.Pairwise
import Atlantis.Schema.Lower
import Atlantis.Schema.Physical

/-!
# `Schema.TableSharing` — two entities in one table

`validateUniqueTableNames` is there so that no two entities claim one physical table. It compares the `table "…"`
values as they are written, and only those. A table has more than one spelling, though: `orders` and `public.orders`
are one table; an override may spell the name that is computed for another entity; and the computed name joins
namespace and snake-cased name by the underscore that both may hold. `tables_apart_iff` says that these are all the
ways in which accepted entities come to share a table.
-/

namespace Atlantis.Schema

open Pg (TableRef)

/-! ## Spellings of one table -/

/-- The namespace of `e'` is the one of `e` and further words, and with these words the table part of `e` begins:
    `app_line` and `Item` against `app` and `LineItem`. -/
def Continues (e e' : Entity) : Prop :=
  ∃ words, e'.namespace_ = e.namespace_ ++ "_" ++ words ∧ snakeCase e.name = words ++ "_" ++ snakeCase e'.name

/-- The override of `e` spells out the default table of `e'`, or the bare override of `e'` with its schema. -/
def Overlays (e e' : Entity) : Prop :=
  e.tableName ≠ "" ∧ e.tableName = if e'.tableName = "" then "atlantis." ++ tableName e' else "public." ++ e'.tableName

/-- Computed names that come out alike. -/
def Joins (e e' : Entity) : Prop :=
  (e.namespace_ = e'.namespace_ ∧ snakeCase e.name = snakeCase e'.name) ∨ Continues e e' ∨ Continues e' e

/-- What two declarations that are not told apart look like. -/
def SharesTable (e e' : Entity) : Prop :=
  (e.tableName = "" ∧ e'.tableName = "" ∧ Joins e e') ∨ Overlays e e' ∨ Overlays e' e

theorem Joins.symm {e e' : Entity} (h : Joins e e') : Joins e' e :=
  h.imp (fun heq => ⟨heq.1.symm, heq.2.symm⟩) Or.symm

theorem SharesTable.symm {e e' : Entity} (h : SharesTable e e') : SharesTable e' e :=
  h.imp (fun hbare => ⟨hbare.2.1, hbare.1, hbare.2.2.symm⟩) Or.symm

/-! ## Computed names -/

theorem toList_tableName (e : Entity) :
    (tableName e).toList = e.namespace_.toList ++ '_' :: (snakeCase e.name).toList := by
  simp [tableName]

theorem Continues.tableName_eq {e e' : Entity} (h : Continues e e') : tableName e = tableName e' := by
  obtain ⟨words, hns, hname⟩ := h
  unfold tableName
  rw [hns, hname]
  simp only [String.append_assoc]

/-- The rest of a longer namespace is what the other name begins with. -/
theorem continues_of_append {e e' : Entity} {rest : List Char}
    (hns : e'.namespace_.toList = e.namespace_.toList ++ rest)
    (hname : '_' :: (snakeCase e.name).toList = rest ++ '_' :: (snakeCase e'.name).toList) :
    (e.namespace_ = e'.namespace_ ∧ snakeCase e.name = snakeCase e'.name) ∨ Continues e e' := by
  cases rest with
  | nil =>
    left
    rw [List.append_nil] at hns
    exact ⟨String.toList_inj.mp hns.symm, String.toList_inj.mp (List.cons.inj hname).2⟩
  | cons c words =>
    right
    obtain ⟨rfl, hwords⟩ := List.cons.inj hname
    refine ⟨String.ofList words, ?_, ?_⟩
    · apply String.toList_inj.mp
      simpa using hns
    · apply String.toList_inj.mp
      simpa using hwords

/-- **Computed names meet** where one namespace is the other and both names snake-case alike, or where one goes on. -/
theorem tableName_eq_iff (e e' : Entity) : tableName e = tableName e' ↔ Joins e e' := by
  constructor
  · intro h
    have hlist := congrArg String.toList h
    rw [toList_tableName, toList_tableName, List.append_eq_append_iff] at hlist
    rcases hlist with ⟨rest, hns, hname⟩ | ⟨rest, hns, hname⟩
    · exact (continues_of_append hns hname).imp id Or.inl
    · exact (continues_of_append hns hname).imp (fun heq => ⟨heq.1.symm, heq.2.symm⟩) Or.inr
  · rintro (⟨hns, hname⟩ | h | h)
    · unfold tableName
      rw [hns, hname]
    · exact h.tableName_eq
    · exact h.tableName_eq.symm

/-! ## Overrides -/

theorem qualifiedTable_of_bare {e : Entity} (h : e.tableName = "") : qualifiedTable e = ⟨"atlantis", tableName e⟩ := by
  simp [qualifiedTable, entitySchema, entityPhysicalTable, h]

theorem qualifiedTable_of_cutDot {e : Entity} (hne : e.tableName ≠ "") {s t : String}
    (hcut : cutDot e.tableName = some (s, t)) : qualifiedTable e = ⟨s, t⟩ := by
  simp [qualifiedTable, entitySchema, entityPhysicalTable, hne, hcut]

theorem qualifiedTable_of_not_dotted {e : Entity} (hne : e.tableName ≠ "") (hcut : cutDot e.tableName = none) :
    qualifiedTable e = ⟨"public", e.tableName⟩ := by
  simp [qualifiedTable, entitySchema, entityPhysicalTable, hne, hcut]

theorem cutDot_segment {cs : String} (h : isTableSegment cs.toList = true) : cutDot cs = none := by
  rw [cutDot_eq_none_iff]
  intro hdot
  unfold isTableSegment at h
  generalize cs.toList = l at h hdot
  cases l with
  | nil => cases hdot
  | cons c rest =>
    rw [Bool.and_eq_true, List.all_eq_true] at h
    rcases List.mem_cons.mp hdot with rfl | hdot
    · exact absurd h.1 (by decide)
    · exact absurd (h.2 '.' hdot) (by decide)

/-- No `table "…"` value twice. -/
theorem pairwise_of_validateUniqueTableNames {es : List Entity} (h : validateUniqueTableNames es = []) :
    es.Pairwise fun a b => a.tableName = b.tableName → a.tableName = "" := by
  induction es with
  | nil => exact List.Pairwise.nil
  | cons e es ih =>
    unfold validateUniqueTableNames at h
    obtain ⟨hhead, hrest⟩ := List.append_eq_nil_iff.mp h
    refine List.Pairwise.cons ?_ (ih hrest)
    intro e' he' heq
    by_contra hne
    rw [if_neg hne, List.map_eq_nil_iff, List.filter_eq_nil_iff] at hhead
    exact hhead e' he' (by simpa using heq.symm)

section Pair

variable {ir : IR} (h : Validated ir) {e e' : Entity} (he : e ∈ ir.entities)
include h he

theorem Validated.tableName_eq_empty (he' : e' ∈ ir.entities) (hne : e ≠ e') (heq : e.tableName = e'.tableName) : e.tableName = "" := by
  have hpair := pairwise_of_validateUniqueTableNames (List.append_eq_nil_iff.mp h.2.2).2
  have : Std.Symm fun a b : Entity => a.tableName = b.tableName → a.tableName = "" :=
    ⟨fun a b hab heq => heq.trans (hab heq.symm)⟩
  exact hpair.forall he he' hne heq

/-- An overlay is found under the name it spells. -/
theorem Overlays.qualifiedTable_eq (hover : Overlays e e') : qualifiedTable e = qualifiedTable e' := by
  obtain ⟨hne, hspelled⟩ := hover
  by_cases hbare : e'.tableName = ""
  · rw [if_pos hbare] at hspelled
    have hcut : cutDot e.tableName = some ("atlantis", tableName e') := by
      rw [hspelled]
      exact cutDot_append (l := "atlantis") (by decide)
    rw [qualifiedTable_of_cutDot hne hcut, qualifiedTable_of_bare hbare]
  · rw [if_neg hbare] at hspelled
    have hcut : cutDot e.tableName = some ("public", e'.tableName) := by
      rw [hspelled]
      exact cutDot_append (l := "public") (by decide)
    -- the shape check leaves no second dot
    have hshape := h.tableNameShape he hne
    unfold Schema.tableNameShape at hshape
    rw [hcut] at hshape
    have hsegment := (Bool.and_eq_true _ _ ▸ hshape).2
    rw [qualifiedTable_of_cutDot hne hcut, qualifiedTable_of_not_dotted hbare (cutDot_segment hsegment)]

/-- Two overrides of one table: one is bare, the other says `public`. -/
theorem overlays_of_overrides (he' : e' ∈ ir.entities) (hne : e ≠ e') (hover : e.tableName ≠ "") (hover' : e'.tableName ≠ "")
    (heq : qualifiedTable e = qualifiedTable e') : Overlays e e' ∨ Overlays e' e := by
  unfold Overlays
  rw [if_neg hover, if_neg hover']
  cases hcut : cutDot e.tableName with
  | none =>
    rw [qualifiedTable_of_not_dotted hover hcut] at heq
    cases hcut' : cutDot e'.tableName with
    | none =>
      rw [qualifiedTable_of_not_dotted hover' hcut'] at heq
      exact absurd (h.tableName_eq_empty he he' hne (TableRef.mk.inj heq).2) hover
    | some p =>
      rw [qualifiedTable_of_cutDot hover' hcut'] at heq
      obtain ⟨hs, ht⟩ := TableRef.mk.inj heq
      exact Or.inr ⟨hover', by rw [eq_of_cutDot hcut', ← hs, ← ht]; rfl⟩
  | some p =>
    rw [qualifiedTable_of_cutDot hover hcut] at heq
    cases hcut' : cutDot e'.tableName with
    | none =>
      rw [qualifiedTable_of_not_dotted hover' hcut'] at heq
      obtain ⟨hs, ht⟩ := TableRef.mk.inj heq
      exact Or.inl ⟨hover, by rw [eq_of_cutDot hcut, hs, ht]; rfl⟩
    | some p' =>
      rw [qualifiedTable_of_cutDot hover' hcut'] at heq
      obtain ⟨hs, ht⟩ := TableRef.mk.inj heq
      have hsame : e.tableName = e'.tableName := by rw [eq_of_cutDot hcut, eq_of_cutDot hcut', hs, ht]
      exact absurd (h.tableName_eq_empty he he' hne hsame) hover

end Pair

/-- An override in the place of a computed name spells it. -/
theorem overlays_of_computed {e e' : Entity} (hover : e.tableName ≠ "") (hbare : e'.tableName = "")
    (heq : qualifiedTable e = qualifiedTable e') : Overlays e e' := by
  refine ⟨hover, ?_⟩
  rw [qualifiedTable_of_bare hbare] at heq
  rw [if_pos hbare]
  cases hcut : cutDot e.tableName with
  | none =>
    rw [qualifiedTable_of_not_dotted hover hcut] at heq
    exact absurd (TableRef.mk.inj heq).1 (by decide)
  | some p =>
    rw [qualifiedTable_of_cutDot hover hcut] at heq
    obtain ⟨hs, ht⟩ := TableRef.mk.inj heq
    rw [eq_of_cutDot hcut, hs, ht]
    rfl

/-- **Two accepted entities share their table exactly as `SharesTable` lists.** -/
theorem qualifiedTable_eq_iff {ir : IR} (h : Validated ir) {e e' : Entity} (he : e ∈ ir.entities)
    (he' : e' ∈ ir.entities) (hne : e ≠ e') : qualifiedTable e = qualifiedTable e' ↔ SharesTable e e' := by
  constructor
  · intro heq
    by_cases hbare : e.tableName = ""
    · by_cases hbare' : e'.tableName = ""
      · rw [qualifiedTable_of_bare hbare, qualifiedTable_of_bare hbare'] at heq
        exact Or.inl ⟨hbare, hbare', (tableName_eq_iff e e').mp (TableRef.mk.inj heq).2⟩
      · exact Or.inr (Or.inr (overlays_of_computed hbare' hbare heq.symm))
    · by_cases hbare' : e'.tableName = ""
      · exact Or.inr (Or.inl (overlays_of_computed hbare hbare' heq))
      · exact Or.inr (overlays_of_overrides h he he' hne hbare hbare' heq)
  · rintro (⟨hbare, hbare', hjoins⟩ | hover | hover)
    · rw [qualifiedTable_of_bare hbare, qualifiedTable_of_bare hbare', (tableName_eq_iff e e').mpr hjoins]
    · exact hover.qualifiedTable_eq h he
    · exact (hover.qualifiedTable_eq h he').symm

/-! ## Accepted files -/

/-- **The entities of accepted files have tables of their own exactly when no two declarations spell one table.** -/
theorem tables_apart_iff {files : List File} {ir : IR} (hlower : Lower files = .ok ir) :
    (∀ e ∈ ir.entities, ∀ e' ∈ ir.entities, e ≠ e' → qualifiedTable e ≠ qualifiedTable e') ↔
      (declaredEntities files).Pairwise fun e e' => ¬ SharesTable e e' := by
  have hvalid := Lower_validated hlower
  obtain ⟨-, -, -, hir⟩ := Lower_ok_iff.mp hlower
  have : Std.Symm fun e e' => ¬ SharesTable e e' := ⟨fun _ _ hno hshare => hno hshare.symm⟩
  have hnodup : ir.entities.Nodup := hvalid.nodup.of_map
  have hpairwise : ir.entities.Pairwise (fun e e' => ¬ SharesTable e e') ↔
      (declaredEntities files).Pairwise fun e e' => ¬ SharesTable e e' := by
    rw [hir]
    show (List.map _ _).Pairwise _ ↔ _
    rw [List.pairwise_map]
    -- threading the references leaves the names alone
    exact (sortByID_perm (declaredEntities files)).pairwise_iff (R := fun e e' => ¬ SharesTable e e')
      fun hno hshare => hno hshare.symm
  rw [← hpairwise]
  constructor
  · intro hapart
    refine hnodup.pairwise_of_forall_ne ?_
    intro e he e' he' hne hshare
    exact hapart e he e' he' hne ((qualifiedTable_eq_iff hvalid he he' hne).mpr hshare)
  · intro hno e he e' he' hne heq
    exact hno.forall he he' hne ((qualifiedTable_eq_iff hvalid he he' hne).mp heq)

/-- Overrides that differ in the spelling only, and computed names that meet. -/
def sharingFile : File where
  path := "shop.atl"
  decls := [⟨keyTable "app" "LineItem" "", [], by decide +kernel⟩, ⟨keyTable "app_line" "Item" "", [], by decide +kernel⟩,
    ⟨keyTable "shop" "Order" "orders", [], by decide +kernel⟩, ⟨keyTable "shop" "Sale" "public.orders", [], by decide +kernel⟩]

/-- The file is accepted; `LineItem` and `Item` share a table, `Order` and `Sale` another. -/
theorem Lower_accepts_sharing :
    ∃ ir, Lower [sharingFile] = .ok ir ∧
      (ir.entities.map fun e => (e.id, qualifiedTable e)) =
        [("app.LineItem", ⟨"atlantis", "app_line_item"⟩), ("app_line.Item", ⟨"atlantis", "app_line_item"⟩),
          ("shop.Order", ⟨"public", "orders"⟩), ("shop.Sale", ⟨"public", "orders"⟩)] :=
  ⟨threadRefs ⟨sortByID (declaredEntities [sharingFile])⟩,
    Lower_ok_iff.mpr ⟨by decide +kernel, by decide +kernel, by decide +kernel, rfl⟩, by decide +kernel⟩

/-- A computed name beside an override. -/
def apartFile : File where
  path := "shop.atl"
  decls := [⟨keyTable "shop" "Order" "sales.orders", [], by decide +kernel⟩, ⟨keyTable "shop" "Item" "", [], by decide +kernel⟩]

/-- They do not share, so no two entities of the schema do. -/
theorem tables_apart_iff_apartFile :
    ∃ ir, Lower [apartFile] = .ok ir ∧
      ∀ e ∈ ir.entities, ∀ e' ∈ ir.entities, e ≠ e' → qualifiedTable e ≠ qualifiedTable e' := by
  have hlower : Lower [apartFile] = .ok (threadRefs ⟨sortByID (declaredEntities [apartFile])⟩) :=
    Lower_ok_iff.mpr ⟨by decide +kernel, by decide +kernel, by decide +kernel, rfl⟩
  refine ⟨_, hlower, (tables_apart_iff hlower).mpr (List.pairwise_pair.mpr ?_)⟩
  rintro (⟨hbare, -⟩ | hover | hover)
  · exact absurd hbare (by decide)
  · exact absurd hover.2 (by decide +kernel)
  · exact hover.1 rfl

end Atlantis.Schema
