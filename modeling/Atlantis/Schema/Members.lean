import Atlantis.Schema.Lower

/-!
# `Schema.Members` — the uniques of an entity

`lowerMembers` of `internal/dsl/ir.go` makes an entity of its members, one after the other. A `unique by` clause over one
column becomes the flag of a field, which is looked for among the fields so far: a clause that stands before its field, or
names none, leaves nothing, and no error. A clause over several columns becomes a `UniqueSpec`, which has no place for
`deferrable`. `uniques_kept_iff` says for which members the schema that `Lower` makes has every clause.
-/

namespace Atlantis.Schema

/-- `dsl.UniqueDecl`. -/
structure UniqueDecl where
  fields : List String
  deferrable : Bool := false
  deriving DecidableEq, Repr

/-- The members that touch neither fields nor uniques. An index and a timeout are given by what lowering makes of them;
    relations, `ttl` and cache blocks, of which the model's entity has nothing, by their errors. -/
inductive Setting where
  | index (idx : Index) (errs : List String)
  | primary (fields : List String)
  | tableCheck (c : TableCheck)
  | softDelete (field : String)
  | touchOnUpdate (field : String)
  | partitionBy (field : String)
  | tableName (name : String)
  | queryTimeout (ms : Except String Nat)
  | unmodelled (errs : List String)
  deriving DecidableEq

/-- `dsl.EntityMember`; a field is given by what `lowerField` makes of it. -/
inductive EntityMember where
  | field (f : Field) (errs : List String)
  | unique (u : UniqueDecl)
  | setting (s : Setting)
  deriving DecidableEq

def Setting.lower (e : Entity) : Setting → Entity × List String
  | index idx errs => ({ e with indexes := e.indexes ++ [idx] }, errs)
  | primary fields => ({ e with compositePK := fields }, [])
  | tableCheck c => ({ e with checks := e.checks ++ [c] }, [])
  | softDelete field => ({ e with softDeleteField := field }, [])
  | touchOnUpdate field => ({ e with touchOnUpdateField := field }, [])
  | partitionBy field => ({ e with partitionField := field }, [])
  | tableName name => ({ e with tableName := name }, [])
  | queryTimeout (.error err) => (e, [err])
  | queryTimeout (.ok ms) => ({ e with queryTimeoutMS := ms }, [])
  | unmodelled errs => (e, errs)

/-- A `unique by` clause over one column, on the fields so far. -/
def markUnique (name : String) : List Field → List Field
  | [] => []
  | f :: fs => if f.name = name then { f with unique := true } :: fs else f :: markUnique name fs

/-- One member, on the entity and the errors so far. -/
def lowerMember (acc : Entity × List String) : EntityMember → Entity × List String
  | .field f errs =>
    if acc.1.fields.any (·.name = f.name) then (acc.1, acc.2 ++ ["duplicate field " ++ f.name])
    else ({ acc.1 with fields := acc.1.fields ++ [f] }, acc.2 ++ errs)
  | .unique u =>
    match u.fields with
    | [name] => ({ acc.1 with fields := markUnique name acc.1.fields }, acc.2)
    | _ => ({ acc.1 with uniques := acc.1.uniques ++ [⟨u.fields⟩] }, acc.2)
  | .setting s => ((s.lower acc.1).1, acc.2 ++ (s.lower acc.1).2)

def lowerMembers (ms : List EntityMember) (e : Entity) : Entity × List String := ms.foldl lowerMember (e, [])

/-- `lowerDecl`: the declaration has these members. -/
def EntityDecl.HasMembers (d : EntityDecl) (ms : List EntityMember) : Prop :=
  lowerMembers ms ⟨d.entity.name, d.entity.namespace_, d.entity.kind, d.entity.timeField, [], [], [], [], 0, [], "", "",
    "", "", []⟩ = (d.entity, d.errs)

instance (d : EntityDecl) (ms : List EntityMember) : Decidable (d.HasMembers ms) := inferInstanceAs (Decidable (_ = _))

/-! ## What is kept -/

/-- The entity has the clause: all columns it names, unique together, and as a constraint that is not deferred. -/
def UniqueDecl.KeptIn (u : UniqueDecl) (e : Entity) : Prop :=
  (∀ x ∈ u.fields, ∃ f ∈ e.fields, f.name = x) ∧ u.deferrable = false ∧
    ((∃ f ∈ e.fields, u.fields = [f.name] ∧ f.unique = true) ∨ ⟨u.fields⟩ ∈ e.uniques)

/-- There is a clause over this column alone. -/
def Clause (ms : List EntityMember) (x : String) : Prop := ∃ u, .unique u ∈ ms ∧ u.fields = [x]

/-- A field is declared that is unique by itself or by a clause behind it. -/
def Marked (x : String) : List EntityMember → Prop
  | [] => False
  | .field f _ :: ms => (f.name = x ∧ (f.unique = true ∨ Clause ms x)) ∨ Marked x ms
  | _ :: ms => Marked x ms

variable {ms : List EntityMember} {acc : Entity × List String} {x : String}

theorem Setting.lower_eq (e : Entity) (s : Setting) :
    (s.lower e).1.fields = e.fields ∧ (s.lower e).1.uniques = e.uniques := by
  unfold Setting.lower
  split <;> exact ⟨rfl, rfl⟩

theorem exists_markUnique {y : String} {fs : List Field} {P : Prop} :
    (∃ f ∈ markUnique y fs, f.name = x ∧ (f.unique = true ∨ P)) ↔
      ∃ f ∈ fs, f.name = x ∧ (f.unique = true ∨ y = x ∨ P) := by
  induction fs with
  | nil => simp [markUnique]
  | cons f fs ih =>
    unfold markUnique
    split
    · rename_i hf
      by_cases hxy : y = x <;> simp [hf, hxy]
    · rename_i hf
      simp only [List.mem_cons, exists_eq_or_imp, ih]
      refine or_congr_left (and_congr_right fun hname => ?_)
      have hxy : ¬ y = x := fun h => hf (hname.trans h.symm)
      simp [hxy]

/-- Errors are kept. -/
theorem errs_of_foldl (h : (ms.foldl lowerMember acc).2 = []) : acc.2 = [] := by
  induction ms generalizing acc with
  | nil => exact h
  | cons m ms ih =>
    have hnone := ih h
    unfold lowerMember at hnone
    split at hnone
    · split at hnone <;> exact (List.append_eq_nil_iff.mp hnone).1
    · split at hnone <;> exact hnone
    · exact (List.append_eq_nil_iff.mp hnone).1

/-- A clause over several columns is in the entity, and stays there. -/
theorem mem_uniques_of_foldl {spec : UniqueSpec}
    (h : spec ∈ acc.1.uniques ∨ ∃ u, .unique u ∈ ms ∧ u.fields.length ≠ 1 ∧ spec = ⟨u.fields⟩) :
    spec ∈ (ms.foldl lowerMember acc).1.uniques := by
  induction ms generalizing acc with
  | nil => simpa using h
  | cons m ms ih =>
    refine ih ?_
    rcases h with h | ⟨u, hu, hlen, rfl⟩
    · left
      cases m with
      | field f errs =>
        simp only [lowerMember]
        split <;> exact h
      | unique u =>
        simp only [lowerMember]
        split
        · exact h
        · exact List.mem_append_left _ h
      | setting s => exact (s.lower_eq acc.1).2 ▸ h
    · rcases List.mem_cons.mp hu with rfl | hu
      · left
        simp only [lowerMember]
        split
        · rename_i hname
          exact absurd (congrArg List.length hname) hlen
        · simp
      · exact .inr ⟨u, hu, hlen, rfl⟩

/-- **Which fields are unique at the end**: those that were declared so, and those with a clause behind them. -/
theorem unique_of_foldl_iff (h : (ms.foldl lowerMember acc).2 = []) :
    (∃ f ∈ (ms.foldl lowerMember acc).1.fields, f.name = x ∧ f.unique = true) ↔
      (∃ f ∈ acc.1.fields, f.name = x ∧ (f.unique = true ∨ Clause ms x)) ∨ Marked x ms := by
  induction ms generalizing acc with
  | nil => simp [Marked, Clause]
  | cons m ms ih =>
    rw [List.foldl_cons, ih h]
    cases m with
    | field f errs =>
      have hnone := @errs_of_foldl ms (lowerMember acc (.field f errs)) h
      simp only [lowerMember] at hnone ⊢
      split at hnone
      · simp at hnone
      rename_i hnew
      rw [if_neg hnew]
      simp [Clause, Marked, or_and_right, exists_or, or_assoc]
    | unique u =>
      simp only [lowerMember]
      split
      · rename_i name hname
        have hclause : Clause (.unique u :: ms) x ↔ name = x ∨ Clause ms x := by
          simp [Clause, or_and_right, exists_or, hname]
        rw [exists_markUnique, hclause]
        rfl
      · rename_i hname
        have hclause : Clause (.unique u :: ms) x ↔ Clause ms x := by
          simp [Clause, or_and_right, exists_or, show u.fields ≠ [x] from hname x]
        rw [hclause]
        rfl
    | setting s => simp [Clause, Marked, lowerMember, (s.lower_eq acc.1).1]

/-- **The schema has every clause exactly if none is deferrable and one over a single column marks a field before it.** -/
theorem uniques_kept_iff {files : List File} {ir : IR} (h : Lower files = .ok ir) {d : EntityDecl}
    (hd : d ∈ files.flatMap File.decls) (hms : d.HasMembers ms) :
    (∃ e ∈ ir.entities, e.id = d.entity.id ∧ ∀ u, .unique u ∈ ms → u.KeptIn e) ↔
      ∀ u, .unique u ∈ ms → u.deferrable = false ∧ ∀ x, u.fields = [x] → Marked x ms := by
  have hvalid := Lower_validated h
  obtain ⟨hsound, _, _, hir⟩ := Lower_ok_iff.mp h
  have herrs := hsound d hd
  -- the entity of the schema has the names, flags and uniques that its members were lowered to
  obtain ⟨e, he, hid, hfields, huniques⟩ : ∃ e ∈ ir.entities, e.id = d.entity.id ∧
      (∀ p : String → Bool → Prop, (∃ f ∈ e.fields, p f.name f.unique) ↔ ∃ f ∈ d.entity.fields, p f.name f.unique) ∧
      e.uniques = d.entity.uniques := by
    have hmem : d.entity ∈ sortByID (declaredEntities files) :=
      (sortByID_perm _).mem_iff.mpr (List.mem_map_of_mem hd)
    rw [hir]
    exact ⟨_, List.mem_map_of_mem hmem, rfl, fun p => by simp [threadEntity, threadField], rfl⟩
  unfold EntityDecl.HasMembers lowerMembers at hms
  have hentity := congrArg Prod.fst hms
  dsimp only at hentity
  have hmarked : ∀ x, (∃ f ∈ e.fields, f.name = x ∧ f.unique = true) ↔ Marked x ms := by
    intro x
    rw [hfields fun n b => n = x ∧ b = true, ← hentity, unique_of_foldl_iff ((congrArg Prod.snd hms).trans herrs)]
    simp
  constructor
  · rintro ⟨e', he', hid', hkept⟩ u hu
    obtain rfl := List.inj_on_of_nodup_map hvalid.nodup he' he (hid'.trans hid.symm)
    obtain ⟨_, hnow, hunique⟩ := hkept u hu
    refine ⟨hnow, fun x hx => (hmarked x).mp ?_⟩
    rcases hunique with ⟨f, hf, hname, hflag⟩ | hspec
    · exact ⟨f, hf, (List.singleton_inj.mp (hx.symm.trans hname)).symm, hflag⟩
    · exact absurd (congrArg List.length hx) ((hvalid.lowered he).2.2.2.2 _ hspec)
  · intro hall
    refine ⟨e, he, hid, fun u hu => ?_⟩
    obtain ⟨hnow, hone⟩ := hall u hu
    by_cases hlen : u.fields.length = 1
    · obtain ⟨x, hx⟩ := List.length_eq_one_iff.mp hlen
      obtain ⟨f, hf, rfl, hflag⟩ := (hmarked x).mpr (hone x hx)
      exact ⟨fun y hy => ⟨f, hf, (List.mem_singleton.mp (hx ▸ hy)).symm⟩, hnow, .inl ⟨f, hf, hx, hflag⟩⟩
    · have hspec : ⟨u.fields⟩ ∈ e.uniques := by
        rw [huniques, ← hentity]
        exact mem_uniques_of_foldl (.inr ⟨u, hu, hlen, rfl⟩)
      exact ⟨(hvalid.unique_fields he hspec).2, hnow, .inr hspec⟩

/-! ## Seats -/

def seatCode : Field := { name := "code", type := .simple "text", primary := true, notNull := true }

/-- `row text`, with a flag where lowering has put one. -/
def seatRow (unique : Bool) : Field := { name := "row", type := .simple "text", unique }

/-- `unique by row`, and then the field. -/
def seat : EntityDecl where
  entity := { name := "Seat", namespace_ := "app", fields := [seatCode, seatRow false], uniques := [⟨["row", "code"]⟩] }

/-- **Clauses that are lost**: one before its field, one over a field that is not there, and one that is deferrable. -/
theorem clauses_lost :
    seat.HasMembers [.field seatCode [], .unique ⟨["row"], false⟩, .field (seatRow false) [], .unique ⟨["aisle"], false⟩,
      .unique ⟨["row", "code"], true⟩] ∧
    Lower [{ path := "seat.atl", decls := [seat] }] = .ok ⟨[seat.entity]⟩ ∧
    ∀ u ∈ [⟨["row"], false⟩, ⟨["aisle"], false⟩, (⟨["row", "code"], true⟩ : UniqueDecl)], ¬ u.KeptIn seat.entity := by
  refine ⟨by decide +kernel, by decide +kernel, ?_⟩
  simp [UniqueDecl.KeptIn, seat, seatCode, seatRow]

/-- The field, and then the clause. -/
def seatMarked : EntityDecl where
  entity := { name := "Seat", namespace_ := "app", fields := [seatCode, seatRow true] }

/-- Behind its field the clause is kept. -/
theorem uniques_kept_seat : ∃ ir, Lower [{ path := "seat.atl", decls := [seatMarked] }] = .ok ir ∧
    ∃ e ∈ ir.entities, e.id = "app.Seat" ∧ (⟨["row"], false⟩ : UniqueDecl).KeptIn e := by
  let ms : List EntityMember := [.field seatCode [], .field (seatRow false) [], .unique ⟨["row"], false⟩]
  have hms : seatMarked.HasMembers ms := by decide +kernel
  have hlower : Lower [{ path := "seat.atl", decls := [seatMarked] }] = .ok ⟨[seatMarked.entity]⟩ := by decide +kernel
  obtain ⟨e, he, hid, hkept⟩ := (uniques_kept_iff hlower (by simp) hms).mpr (by simp [ms, Marked, Clause, seatRow])
  exact ⟨_, hlower, e, he, hid.trans (by decide), hkept _ (by simp [ms])⟩

end Atlantis.Schema
