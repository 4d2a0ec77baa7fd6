import Mathlib.Data.List.Induction
import Atlantis.RawSql.Validate

/-!
# `RawSql.Coverage` — whether `touches(…)` has every entity that is touched

Postgres and the validator look for tables in the same tree (`Reads`, `Seen`), and the validator sees less:

* it does not enter expressions (`AND`, `CASE`, function arguments …), join conditions, `ORDER BY`, `GROUP BY`, `SET`,
  `RETURNING`, `ON CONFLICT`, or the `WITH` clause of an `UPDATE` or `DELETE`;
* a `WITH` name hides the tables of that name in the whole statement, and not only where it is visible;
* of two entities with one bare table name only the last is found by it, whatever the search path says.

`covers_iff` says that these are all: **a body that is accepted has every touched entity in its `touches(…)`, whatever the
list, exactly when each touched entity is referred to at a place the walk enters, by a name that is no `WITH` name of the
statement and that the table set gives to this entity.**
-/

namespace Atlantis.RawSql

open Schema

/-! ## Places the walk enters -/

/-- The parts of a node that `collectTableRefs` enters. -/
def Node.entered : Node → List Node
  | .selectStmt with_ _ targets from_ where_ having larg rarg _ _ =>
    from_ ++ targets ++ with_ ++ where_ ++ having ++ larg ++ rarg
  | .insertStmt with_ _ _ select _ => select ++ with_
  | .updateStmt _ _ _ from_ where_ _ => from_ ++ where_
  | .deleteStmt _ _ _ using_ where_ _ => using_ ++ where_
  | .joinExpr larg rarg _ => [larg, rarg]
  | .rangeSubselect q | .commonTableExpr _ q | .subLink _ q => [q]
  | .resTarget val _ => val
  | .rangeVar _ | .other _ _ => []

/-- **The validator comes across the reference `rv`.** -/
inductive Seen : Node → RangeVar → Prop where
  | table (rv : RangeVar) : Seen (.rangeVar rv) rv
  | target {n : Node} {rv : RangeVar} (h : n.relation = some rv) : Seen n rv
  | enter {n c : Node} {rv : RangeVar} (hc : c ∈ n.entered) (h : Seen c rv) : Seen n rv

/-- The reference a node is by itself. -/
def Node.own : Node → Option RangeVar
  | .rangeVar rv => some rv
  | n => n.relation

theorem Seen.of_own {n : Node} {rv : RangeVar} (h : n.own = some rv) : Seen n rv := by
  cases n with
  | rangeVar rv' =>
    obtain rfl := Option.some.inj h
    exact .table rv'
  | _ => exact .target h

theorem own_of_relation {n : Node} {rv : RangeVar} (h : n.relation = some rv) : n.own = some rv := by
  cases n with
  | rangeVar rv' => cases h
  | _ => exact h

theorem collectAll_eq (ns : List Node) : collectAll ns = ns.flatMap collectTableRefs := by
  induction ns with
  | nil => rw [collectAll, List.flatMap_nil]
  | cons n rest ih => rw [collectAll, List.flatMap_cons, ih]

/-- One level of the walk. -/
theorem collectTableRefs_eq (n : Node) :
    collectTableRefs n = (n.own.map normalizeTableRef).toList ++ n.entered.flatMap collectTableRefs := by
  cases n <;> simp [collectTableRefs, collectAll_eq, Node.own, Node.relation, Node.entered]

/-- The parts of a node are smaller than it. -/
theorem sizeOf_parts {n c : Node} (hc : c ∈ n.withClause.1 ++ n.clauses) : sizeOf c < sizeOf n := by
  have hlist : ∀ ns : List Node, c ∈ ns → sizeOf c < sizeOf ns := fun _ => List.sizeOf_lt_of_mem
  cases n <;> simp only [Node.withClause, Node.clauses, List.mem_append, List.mem_cons, List.not_mem_nil, false_or,
    or_false, or_assoc, Node.selectStmt.sizeOf_spec, Node.insertStmt.sizeOf_spec, Node.updateStmt.sizeOf_spec,
    Node.deleteStmt.sizeOf_spec, Node.joinExpr.sizeOf_spec, Node.rangeSubselect.sizeOf_spec,
    Node.commonTableExpr.sizeOf_spec, Node.subLink.sizeOf_spec, Node.resTarget.sizeOf_spec,
    Node.other.sizeOf_spec] at hc ⊢ <;> grind

theorem entered_subset (n : Node) : n.entered ⊆ n.withClause.1 ++ n.clauses := by
  intro c hc
  cases n <;> simp [Node.entered, Node.withClause, Node.clauses] at hc ⊢ <;> tauto

theorem seen_of_mem (n : Node) {ref : String} (h : ref ∈ collectTableRefs n) :
    ∃ rv, Seen n rv ∧ ref = normalizeTableRef rv := by
  rw [collectTableRefs_eq, List.mem_append] at h
  rcases h with h | h
  · obtain ⟨rv, hown, rfl⟩ := Option.map_eq_some_iff.mp (Option.mem_toList.mp h)
    exact ⟨rv, .of_own hown, rfl⟩
  · obtain ⟨c, hc, h⟩ := List.mem_flatMap.mp h
    obtain ⟨rv, hseen, rfl⟩ := seen_of_mem c h
    exact ⟨rv, .enter hc hseen, rfl⟩
termination_by sizeOf n
decreasing_by exact sizeOf_parts (entered_subset n hc)

theorem Seen.mem {n : Node} {rv : RangeVar} (h : Seen n rv) : normalizeTableRef rv ∈ collectTableRefs n := by
  induction h with
  | table rv =>
    rw [collectTableRefs]
    exact List.mem_singleton_self _
  | target h =>
    rw [collectTableRefs_eq, own_of_relation h]
    exact List.mem_cons_self
  | enter hc _ ih =>
    rw [collectTableRefs_eq]
    exact List.mem_append_right _ (List.mem_flatMap.mpr ⟨_, hc, ih⟩)

/-! ## Names the table set gives away -/

/-- The two names an entity is registered under. -/
def Keyed (C : Casing) (e : Entity) (key : String) : Prop := key = (tableKeys C e).1 ∨ key = (tableKeys C e).2

/-- **The last entity with the name** has this id. -/
def LastKeyed (C : Casing) (es : List Entity) (key id : String) : Prop :=
  ∃ before e after, es = before ++ e :: after ∧ Keyed C e key ∧ (∀ e' ∈ after, ¬ Keyed C e' key) ∧ e.id = id

theorem lookup_snoc (C : Casing) (es : List Entity) (e : Entity) (key : String) :
    (buildTableSet C ⟨es ++ [e]⟩).lookup key =
      if key = (tableKeys C e).2 ∨ key = (tableKeys C e).1 then some e.id else (buildTableSet C ⟨es⟩).lookup key := by
  unfold buildTableSet
  rw [List.foldl_append]
  simp only [List.foldl_cons, List.foldl_nil, List.lookup_cons]
  by_cases hbare : key = (tableKeys C e).2
  · rw [if_pos (.inl hbare), beq_iff_eq.mpr hbare]
  · rw [beq_eq_false_iff_ne.mpr hbare]
    by_cases hqualified : key = (tableKeys C e).1
    · rw [if_pos (.inr hqualified), beq_iff_eq.mpr hqualified]
    · rw [if_neg (not_or.mpr ⟨hbare, hqualified⟩), beq_eq_false_iff_ne.mpr hqualified]

/-- **`buildTableSet` gives a name to the last entity that has it.** -/
theorem lookup_buildTableSet (C : Casing) (es : List Entity) (key id : String) :
    (buildTableSet C ⟨es⟩).lookup key = some id ↔ LastKeyed C es key id := by
  have hfind : (buildTableSet C ⟨es⟩).lookup key =
      (es.reverse.find? fun e => key = (tableKeys C e).2 ∨ key = (tableKeys C e).1).map Entity.id := by
    induction es using List.reverseRecOn with
    | nil => rfl
    | append_singleton es e ih =>
      rw [lookup_snoc, ih, List.reverse_append, List.reverse_singleton, List.singleton_append, List.find?_cons]
      split <;> simp [*]
  rw [hfind, Option.map_eq_some_iff]
  constructor
  · rintro ⟨e, he, hid⟩
    obtain ⟨hkey, after, before, heq, hlast⟩ := List.find?_eq_some_iff_append.mp he
    refine ⟨before.reverse, e, after.reverse, ?_, (of_decide_eq_true hkey).symm, ?_, hid⟩
    · rw [← List.reverse_reverse es, heq]
      simp
    · intro e' he' hkeyed
      simpa [hkeyed.symm] using hlast e' (List.mem_reverse.mp he')
  · rintro ⟨before, e, after, rfl, hkey, hlast, hid⟩
    refine ⟨e, List.find?_eq_some_iff_append.mpr ⟨decide_eq_true hkey.symm, after.reverse, before.reverse, by simp, ?_⟩, hid⟩
    intro e' he'
    have hnot := hlast e' (List.mem_reverse.mp he')
    simpa [Keyed, and_comm] using hnot

/-! ## Accepted bodies -/

variable {C : Casing} {tables : List (String × String)} {stmts : List Node} {mode : Mode} {context : String}
  {touches : List String}

/-- The entity ids that the statements' references stand for. -/
def resolved (C : Casing) (tables : List (String × String)) (stmts : List Node) : List String :=
  stmts.flatMap fun stmt => (tableRefs C stmt).filterMap (resolveTable C tables)

theorem checkTouchesCoverage_eq_nil {declared referenced : List String} :
    checkTouchesCoverage declared referenced context = [] ↔ ∀ id ∈ referenced, id ∈ declared := by
  have hnil : (referenced.filter fun id => !declared.contains id).eraseDups = [] ↔ ∀ id ∈ referenced, id ∈ declared := by
    rw [List.eq_nil_iff_forall_not_mem]
    simp only [List.mem_eraseDups, List.mem_filter, Bool.not_eq_true', List.contains_eq_mem, decide_eq_false_iff_not,
      not_and, not_not]
  unfold checkTouchesCoverage
  simp only
  split
  · rename_i hmissing
    exact iff_of_true rfl (hnil.mp hmissing)
  · rename_i hmissing
    exact iff_of_false (List.cons_ne_nil _ _) fun h => hmissing (hnil.mpr h)

/-- A statement without errors, and its entities. -/
theorem checkStatement_fst_eq_nil {i : Nat} {stmt : Node} : (checkStatement C mode tables context i stmt).1 = [] ↔
    checkStatementKind stmt mode = none ∧ ∀ ref ∈ tableRefs C stmt, (resolveTable C tables ref).isSome := by
  unfold checkStatement
  cases hkind : checkStatementKind stmt mode with
  | some err => exact iff_of_false (List.cons_ne_nil _ _) fun h => by cases h.1
  | none =>
    simp only [List.map_eq_nil_iff, List.filter_eq_nil_iff, true_and, Option.isNone_iff_eq_none,
      Option.isSome_iff_ne_none, Ne]

/-- A condition on the results of the loop that the numbers of the statements do not matter for. -/
theorem forall_mem_mapIdx {α : Type} {f : Nat → Node → α} {P : α → Prop} {Q : Node → Prop}
    (h : ∀ i, ∀ stmt ∈ stmts, P (f i stmt) ↔ Q stmt) : (∀ x ∈ stmts.mapIdx f, P x) ↔ ∀ stmt ∈ stmts, Q stmt := by
  constructor
  · intro hall stmt hstmt
    obtain ⟨i, hi, rfl⟩ := List.getElem_of_mem hstmt
    exact (h i _ hstmt).mp (hall _ (List.mem_mapIdx.mpr ⟨i, hi, rfl⟩))
  · intro hall x hx
    obtain ⟨i, hi, rfl⟩ := List.mem_mapIdx.mp hx
    exact (h i _ (List.getElem_mem hi)).mpr (hall _ (List.getElem_mem hi))

/-- What acceptance comes to. -/
theorem checkStatements_eq_nil : checkStatements C stmts mode tables context touches = [] ↔
    (∀ stmt ∈ stmts, checkStatementKind stmt mode = none ∧ ∀ ref ∈ tableRefs C stmt, (resolveTable C tables ref).isSome) ∧
      ∀ id ∈ resolved C tables stmts, id ∈ touches := by
  unfold checkStatements resolved
  simp only [List.append_eq_nil_iff, checkTouchesCoverage_eq_nil, List.flatMap_eq_nil_iff, List.forall_mem_flatMap]
  have hclean : (∀ x ∈ stmts.mapIdx (checkStatement C mode tables context), x.1 = []) ↔ _ :=
    forall_mem_mapIdx fun i stmt _ => checkStatement_fst_eq_nil
  rw [hclean]
  -- the loop's second list is that of the references, since no statement is skipped
  refine and_congr_right fun hall => forall_mem_mapIdx fun i stmt hstmt => ?_
  unfold checkStatement
  rw [(hall stmt hstmt).1]

theorem validateBlock_eq_ok {parse : String → Except String (List Node)} {sql : String}
    (hparse : parse (normalizeNamedParams sql) = .ok stmts) :
    validateBlock C parse sql mode tables context touches = .ok () ↔
      stmts ≠ [] ∧ checkStatements C stmts mode tables context touches = [] := by
  unfold validateBlock
  rw [hparse]
  cases stmts with
  | nil => exact iff_of_false (fun h => by cases h) fun h => h.1 rfl
  | cons stmt rest =>
    simp only [ne_eq, reduceCtorEq, not_false_eq_true, true_and]
    cases checkStatements C (stmt :: rest) mode tables context touches with
    | nil => simp
    | cons err errs => simp

/-! ## Covered bodies -/

/-- **The validator finds the entity**: the statements refer to it where the walk enters, by a name that is no `WITH` name
    of the statement and that belongs to this entity. -/
def Found (C : Casing) (es : List Entity) (stmts : List Node) (id : String) : Prop :=
  ∃ stmt ∈ stmts, ∃ rv, Seen stmt rv ∧ C.toLower (normalizeTableRef rv) ∉ collectCTENames C stmt ∧
    LastKeyed C es (C.toLower (normalizeTableRef rv)) id

theorem mem_resolved {es : List Entity} {id : String} :
    id ∈ resolved C (buildTableSet C ⟨es⟩) stmts ↔ Found C es stmts id := by
  unfold resolved Found
  rw [List.mem_flatMap]
  refine exists_congr fun stmt => and_congr_right fun _ => ?_
  rw [List.mem_filterMap]
  unfold tableRefs resolveTable
  constructor
  · rintro ⟨ref, href, hid⟩
    obtain ⟨hmem, hnot⟩ := List.mem_filter.mp href
    obtain ⟨rv, hseen, rfl⟩ := seen_of_mem stmt hmem
    exact ⟨rv, hseen, by simpa using hnot, (lookup_buildTableSet C es _ id).mp hid⟩
  · rintro ⟨rv, hseen, hnot, hlast⟩
    exact ⟨normalizeTableRef rv, List.mem_filter.mpr ⟨hseen.mem, by simpa using hnot⟩,
      (lookup_buildTableSet C es _ id).mpr hlast⟩

/-- **An accepted body covers what it touches, whatever its list, exactly when the validator finds each entity that
    Postgres touches.** -/
theorem covers_iff {C : Casing} {pg : Postgres} {ir : IR} {parse : String → Except String (List Node)}
    {sql context : String} {mode : Mode} {stmts : List Node} (hparse : parse (normalizeNamedParams sql) = .ok stmts)
    (haccepted : ∃ touches, validateBlock C parse sql mode (buildTableSet C ir) context touches = .ok ()) :
    (∀ touches, validateBlock C parse sql mode (buildTableSet C ir) context touches = .ok () →
      ∀ e ∈ ir.entities, pg.Touches stmts e → e.id ∈ touches) ↔
    ∀ e ∈ ir.entities, pg.Touches stmts e → Found C ir.entities stmts e.id := by
  obtain ⟨list, hlist⟩ := haccepted
  obtain ⟨hne, hlist⟩ := (validateBlock_eq_ok hparse).mp hlist
  obtain ⟨hclean, -⟩ := checkStatements_eq_nil.mp hlist
  constructor
  · intro h e he htouched
    -- the shortest list that is accepted has the entities that are found
    refine mem_resolved.mp (h (resolved C (buildTableSet C ir) stmts) ?_ e he htouched)
    exact (validateBlock_eq_ok hparse).mpr ⟨hne, checkStatements_eq_nil.mpr ⟨hclean, fun _ hid => hid⟩⟩
  · intro h touches haccepted e he htouched
    obtain ⟨-, haccepted⟩ := (validateBlock_eq_ok hparse).mp haccepted
    exact (checkStatements_eq_nil.mp haccepted).2 _ (mem_resolved.mpr (h e he htouched))

/-! ## Bodies that are accepted with too short a list -/

private def item : Entity := keyTable "shop" "Item" ""
private def order : Entity := keyTable "shop" "Order" ""

/-- `SELECT … FROM … WHERE …`. -/
private def select (with_ from_ where_ : List Node) : Node :=
  .selectStmt with_ false [.resTarget [.other "*pg_query.Node_ColumnRef" []] []] from_ where_ [] [] [] [] none

private def ref (relname : String) : Node := .rangeVar { relname }

/-- A table in the `FROM` list, out of reach of the `WITH` names. -/
private theorem reads_from {scope : List String} {from_ where_ : List Node} {relname : String}
    (hmem : ref relname ∈ from_) (hscope : relname ∉ scope) :
    Reads scope (select [] from_ where_) { relname } := by
  refine .clause (c := ref relname) ?_ (.table fun h => hscope h.2)
  simp [Node.clauses, select, hmem]

private def atlantisPath : Postgres := ⟨["atlantis"], fun _ => true⟩

/-- A parser that knows some texts. -/
def parserOf (texts : List (String × Node)) (sql : String) : Except String (List Node) :=
  match texts.lookup sql with
  | some stmt => .ok [stmt]
  | none => .error "syntax error"

private def selectItem : Node := select [] [ref "shop_item"] []

private def selectAnd : Node := select [] [ref "shop_item"]
  [.other "*pg_query.Node_BoolExpr" [.other "*pg_query.Node_ColumnRef" [], .subLink [] (select [] [ref "shop_order"] [])]]

private def selectHidden : Node := select [] [.rangeSubselect (select [.commonTableExpr "shop_order" (select [] [] [])]
  [ref "shop_order"] []), ref "shop_order"] []

private def selectOrders : Node := select [] [ref "orders"] []

private def shopTexts : List (String × Node) :=
  [("SELECT id FROM shop_item", selectItem),
    ("SELECT id FROM shop_item WHERE live AND EXISTS (SELECT id FROM shop_order)", selectAnd),
    ("SELECT id FROM (WITH shop_order AS (SELECT id) SELECT id FROM shop_order) s, shop_order", selectHidden),
    ("SELECT id FROM orders", selectOrders)]

/-- The text is accepted with a list that does not have an entity which its statement touches. -/
def Uncovered (pg : Postgres) (es : List Entity) (sql : String) (touches : List String) (e : Entity) : Prop :=
  validateBlock asciiCasing (parserOf shopTexts) sql .query (buildTableSet asciiCasing ⟨es⟩) "query shop.q" touches = .ok () ∧
    e ∈ es ∧ (∃ stmts, parserOf shopTexts (normalizeNamedParams sql) = .ok stmts ∧ pg.Touches stmts e) ∧ e.id ∉ touches

/-- A text whose statement reads the table of an entity. -/
private theorem touched {pg : Postgres} {sql : String} {stmt : Node} {e : Entity} (relname : String)
    (hparse : (parserOf shopTexts (normalizeNamedParams sql)) = .ok [stmt]) (hreads : Reads [] stmt { relname })
    (hlocate : pg.locate { relname } = some (qualifiedTable e)) :
    ∃ stmts, parserOf shopTexts (normalizeNamedParams sql) = .ok stmts ∧ pg.Touches stmts e :=
  ⟨[stmt], hparse, stmt, List.mem_singleton_self _, _, hreads, hlocate⟩

/-- The parser finds a text under its normal form. -/
private theorem parserOf_eq {sql : String} {stmt : Node} (hsql : normalizeNamedParams sql = sql)
    (hstmt : shopTexts.lookup sql = some stmt) : parserOf shopTexts (normalizeNamedParams sql) = .ok [stmt] := by
  rw [hsql, parserOf, hstmt]

/-- **Three ways past the check.** `… AND EXISTS (SELECT id FROM shop_order)`: the walk does not enter `AND`. `… (WITH
    shop_order …) s, shop_order`: the second `shop_order` is the table. `… FROM orders` with two tables of that name: the
    search path decides, not the order of declaration. -/
theorem uncovered_bodies :
    Uncovered atlantisPath [item, order] "SELECT id FROM shop_item WHERE live AND EXISTS (SELECT id FROM shop_order)"
      ["shop.Item"] order ∧
    Uncovered atlantisPath [item, order]
      "SELECT id FROM (WITH shop_order AS (SELECT id) SELECT id FROM shop_order) s, shop_order" [] order ∧
    Uncovered ⟨["sales", "crm"], fun _ => true⟩ [keyTable "shop" "Order" "sales.orders", keyTable "crm" "Order" "crm.orders"]
      "SELECT id FROM orders" ["crm.Order"] (keyTable "shop" "Order" "sales.orders") := by
  refine ⟨⟨by decide +kernel, by simp, touched "shop_order" (parserOf_eq (by decide +kernel) rfl) ?_ (by decide +kernel),
      by decide +kernel⟩,
    ⟨by decide +kernel, by simp, touched "shop_order" (parserOf_eq (by decide +kernel) rfl) ?_ (by decide +kernel),
      by decide +kernel⟩,
    ⟨by decide +kernel, by simp, touched "orders" (parserOf_eq (by decide +kernel) rfl) ?_ (by decide +kernel),
      by decide +kernel⟩⟩
  · have hexists : Reads [] (.subLink [] (select [] [ref "shop_order"] [])) ⟨"", "shop_order"⟩ :=
      .clause List.mem_cons_self (reads_from List.mem_cons_self List.not_mem_nil)
    have hand : Reads [] (.other "*pg_query.Node_BoolExpr" [.other "*pg_query.Node_ColumnRef" [],
        .subLink [] (select [] [ref "shop_order"] [])]) ⟨"", "shop_order"⟩ :=
      .clause (List.mem_cons_of_mem _ List.mem_cons_self) hexists
    refine .clause ?_ hand
    simp [Node.clauses, selectAnd, select]
  · exact reads_from (by simp) List.not_mem_nil
  · exact reads_from List.mem_cons_self List.not_mem_nil

/-- `SELECT id FROM shop_item` has what it touches in every list it is accepted with. -/
theorem select_item_covered : atlantisPath.Touches [selectItem] item ∧ ∀ touches,
    validateBlock asciiCasing (parserOf shopTexts) "SELECT id FROM shop_item" .query (buildTableSet asciiCasing ⟨[item]⟩)
      "query shop.q" touches = .ok () →
    ∀ e ∈ [item], atlantisPath.Touches [selectItem] e → e.id ∈ touches := by
  have haccepted : ∃ touches, validateBlock asciiCasing (parserOf shopTexts) "SELECT id FROM shop_item" .query
      (buildTableSet asciiCasing ⟨[item]⟩) "query shop.q" touches = .ok () :=
    ⟨["shop.Item"], by decide +kernel⟩
  have hfound : Found asciiCasing [item] [selectItem] "shop.Item" := by
    refine ⟨_, List.mem_singleton_self _, ⟨"", "shop_item"⟩, .enter (c := ref "shop_item") ?_ (.table _),
      by decide +kernel, [], item, [], rfl, .inr (by decide +kernel), fun _ h => absurd h List.not_mem_nil,
      by decide +kernel⟩
    simp [Node.entered, selectItem, select]
  have hid : item.id = "shop.Item" := by decide +kernel
  refine ⟨⟨_, List.mem_singleton_self _, ⟨"", "shop_item"⟩, reads_from List.mem_cons_self List.not_mem_nil,
    by decide +kernel⟩, (@covers_iff _ atlantisPath ⟨[item]⟩ _ _ _ _ _ (parserOf_eq (by decide +kernel) rfl)
      haccepted).mpr fun e he _ => ?_⟩
  rw [List.mem_singleton.mp he, hid]
  exact hfound

end Atlantis.RawSql
