import Atlantis.Introspect.Postgres

/-!
# `RawSql.BackfillExpr` — the text of a `backfill "…"` in the `UPDATE` it is spliced into

`ValidateBackfillExpression` (`internal/dsl/sqlvalidate/backfill.go`) checks the tree of `SELECT (<text>)`, and `ChunkSQL`
(`internal/backfill/splicer.go`) writes the text, without the parentheses, after `SET <field> =`. What is accepted may be
something else there:

* `1, qty = 2` is a row in the one and two assignments in the other;
* `1) + (2` is a sum in the one and no SQL in the other;
* `id` is one column in the one; in the other the table has it and `chunk` too;
* `(nosuch IS TRUE)` is a node whose parts the walk does not see.

`assignsOnly_iff` says that there is nothing else. The parser is a parameter, with what its grammar says about the two
places (`Grammar`).

What the walk does not see may also call any function, or a subquery; and what it sees it takes by the last part of its name,
in lower case: `other.lower(name)` and `"LOWER"(name)` are `lower` to it, and `t.*` is nothing (`whitelistHolds_iff`).
-/

namespace Atlantis.RawSql

open Schema Introspect

/-! ## The validator -/

/-- The fields of a `ColumnRef`; `none` is the star. -/
abbrev ColumnFields := List (Option String)

/-- The Go types that the walk has a case for. -/
inductive ExprKind where
  | subLink
  /-- With the last part of the name, and those before it. -/
  | funcCall (name : String) (schema : List String)
  | columnRef (fields : ColumnFields)
  | selectStmt | resTarget | aExpr | boolExpr | caseExpr | caseWhen | list | typeCast | coalesceExpr | nullTest | aArrayExpr
  | rowExpr
  | other
  deriving DecidableEq, Repr

/-- A node: the parts that the walk has for its kind, in this order, and all others. The parts of a subquery are the
    references that its own tables leave to the statement around it. -/
inductive ExprNode where
  | mk (kind : ExprKind) (parts rest : List ExprNode)
  deriving Repr

/-- `safeBackfillFunctions`. -/
def safeBackfillFunctions : List String :=
  ["coalesce", "nullif", "lower", "upper", "length", "char_length", "trim", "ltrim", "rtrim", "abs", "concat", "concat_ws",
    "substring", "substr", "replace", "left", "right", "to_char"]

/-- `columnRefName`. -/
def columnRefName (fields : ColumnFields) : String := (fields.getLast?.bind id).getD ""

section

variable (C : Casing) (allowedCols : List String) (selfFieldName : String)

mutual

/-- `walk`: what it appends to `errs`. -/
def walk : ExprNode → List String
  | .mk .subLink _ _ => ["backfill expression cannot contain subqueries"]
  | .mk (.funcCall name _) args _ =>
    (if C.toLower name ∈ safeBackfillFunctions then []
      else ["backfill expression cannot call " ++ quoted name ++ " (not in safe-function whitelist)"]) ++ walkAll args
  | .mk (.columnRef fields) _ _ =>
    let name := columnRefName fields
    if name = "" then []
    else if selfFieldName ≠ "" ∧ name = selfFieldName then
      ["backfill expression cannot reference its own column " ++ quoted name]
    else if name ∈ allowedCols then []
    else ["backfill expression references unknown column " ++ quoted name]
  | .mk .other _ _ => []
  | .mk _ parts _ => walkAll parts

/-- The walk over a list of nodes. -/
def walkAll : List ExprNode → List String
  | [] => []
  | n :: rest => walk n ++ walkAll rest

end

/-- `ValidateBackfillExpression`. -/
def ValidateBackfillExpression (parse : String → Except String (List ExprNode)) (expr : String) : Except String Unit :=
  if trimSpace expr = "" then .error "backfill expression is empty"
  else
    match parse ("SELECT (" ++ expr ++ ")") with
    | .error err => .error ("backfill expression parse failed: " ++ err)
    | .ok [stmt] =>
      match walk C allowedCols selfFieldName stmt with
      | [] => .ok ()
      | errs => .error ("; ".intercalate errs)
    | .ok stmts => .error ("backfill expression must be a single scalar; got " ++ toString stmts.length ++ " statements")

end

/-! ## The `UPDATE` -/

/-- `ChunkSQL`. -/
def ChunkSQL (qualifiedTable pkColumn field expression : String) : String :=
  let pk := quoteIdent pkColumn
  "WITH chunk AS (\n    SELECT " ++ pk ++ " FROM " ++ qualifiedTable ++ "\n    WHERE " ++ quoteIdent field ++
    " IS NULL AND " ++ pk ++ " > $1\n    ORDER BY " ++ pk ++ "\n    LIMIT $2\n),\nupdated AS (\n    UPDATE " ++
    qualifiedTable ++ " t\n    SET " ++ quoteIdent field ++ " = " ++ expression ++ "\n    FROM chunk\n    WHERE t." ++ pk ++
    " = chunk." ++ pk ++ "\n    RETURNING t." ++ pk ++ "\n)\nSELECT COALESCE(MAX(" ++ pk ++
    "), $1) AS new_last_pk, COUNT(*) AS rows_updated FROM updated"

/-- Postgres' grammar, as far as it is about the two texts. -/
structure Grammar (table pk field : String) where
  /-- `pg.Parse`, of the validator's text. -/
  parse : String → Except String (List ExprNode)
  /-- The assignments of the `UPDATE`, if the text is SQL in which the `UPDATE` stands as in `ChunkSQL`. -/
  chunkSets : String → Option (List (String × ExprNode))
  /-- The text is an expression (`a_expr`), with this tree. -/
  IsExpr : String → ExprNode → Prop
  /-- Parentheses around an expression leave its tree as it is. -/
  parse_expr {expr : String} {n : ExprNode} {stmts : List ExprNode} (h : IsExpr expr n)
    (hparse : parse ("SELECT (" ++ expr ++ ")") = .ok stmts) :
    stmts = [.mk .selectStmt [.mk .resTarget [n] []] []]
  /-- What stands between `SET <field> =` and `FROM` is one assignment if it is an expression. -/
  chunk_expr {expr : String} {n : ExprNode} {stmts : List ExprNode}
    (hparse : parse ("SELECT (" ++ expr ++ ")") = .ok stmts) :
    chunkSets (ChunkSQL table pk field expr) = some [(field, n)] ↔ IsExpr expr n

/-- The tree refers to a column. -/
inductive Refers : ExprNode → ColumnFields → Prop where
  | ref {fields : ColumnFields} {parts rest : List ExprNode} : Refers (.mk (.columnRef fields) parts rest) fields
  | inside {kind : ExprKind} {parts rest : List ExprNode} {n : ExprNode} {r : ColumnFields} (hn : n ∈ parts ++ rest)
      (h : Refers n r) : Refers (.mk kind parts rest) r

/-- The relations in scope, with their columns, that a reference may mean. A name that is no column is that of a row. -/
def meanings (cols : List String) (pk : String) (r : ColumnFields) : List (String × List String) :=
  let scope := [("t", cols), ("chunk", [pk])]
  match r with
  | [some c] =>
    match scope.filter (c ∈ ·.2) with
    | [] => scope.filter (·.1 = c)
    | found => found
  | [some q, some c] => scope.filter fun rel => rel.1 = q ∧ c ∈ rel.2
  | [some q, none] => scope.filter (·.1 = q)
  | _ => []

/-- **The property.** The `UPDATE` parses, each reference means one thing, and the field alone is assigned. -/
def AssignsOnly {table pk field : String} (G : Grammar table pk field) (cols : List String) (expr : String) : Prop :=
  ∃ sets, G.chunkSets (ChunkSQL table pk field expr) = some sets ∧ sets.map Prod.fst = [field] ∧
    ∀ a ∈ sets, ∀ r, Refers a.2 r → (meanings cols pk r).length = 1

/-! ## When it holds -/

/-- No bare primary key, and no relation other than `t` and `chunk`, which has but the key. -/
def Unambiguous (pk : String) : ColumnFields → Prop
  | [some c] => c ≠ pk
  | [some q, some c] => q = "t" ∨ q = "chunk" ∧ c = pk
  | [some q, none] => q = "t" ∨ q = "chunk"
  | _ => False

/-- There is something of the name. -/
def Known (cols : List String) : ColumnFields → Prop
  | [some c] => c ∈ cols ∨ c = "t" ∨ c = "chunk"
  | [_, some c] => c ∈ cols
  | _ => True

/-- The walk comes to the reference and looks at its name. -/
inductive Checked : ExprNode → ColumnFields → Prop where
  | ref {fields : ColumnFields} {parts rest : List ExprNode} (h : columnRefName fields ≠ "") :
      Checked (.mk (.columnRef fields) parts rest) fields
  | inside {kind : ExprKind} {parts rest : List ExprNode} {n : ExprNode} {r : ColumnFields}
      (hkind : ∀ fields, kind ≠ .columnRef fields) (hother : kind ≠ .other) (hn : n ∈ parts) (h : Checked n r) :
      Checked (.mk kind parts rest) r

variable {C : Casing} {allowedCols cols : List String} {selfFieldName table pk field expr : String} {n m : ExprNode}
  {r : ColumnFields}

theorem meanings_eq_one_iff (hpk : pk ∈ cols) : (meanings cols pk r).length = 1 ↔ Unambiguous pk r ∧ Known cols r := by
  unfold meanings
  split
  · rename_i c
    by_cases hc : c ∈ cols
    · by_cases hkey : c = pk <;> simp [Unambiguous, Known, hc, hkey, hpk]
    · have hkey : c ≠ pk := by
        rintro rfl
        exact hc hpk
      by_cases ht : c = "t"
      · simp_all [Unambiguous, Known]
      · by_cases hchunk : c = "chunk" <;> simp_all [Unambiguous, Known, eq_comm]
  · rename_i q c
    by_cases ht : q = "t"
    · by_cases hc : c ∈ cols <;> simp [Unambiguous, Known, ht, hc]
    · by_cases hchunk : q = "chunk"
      · by_cases hkey : c = pk <;> simp [Unambiguous, Known, hchunk, hkey, hpk]
      · simp [Unambiguous, ht, hchunk, Ne.symm ht, Ne.symm hchunk]
  · rename_i q
    by_cases ht : q = "t"
    · simp [Unambiguous, Known, ht]
    · by_cases hchunk : q = "chunk" <;> simp_all [Unambiguous, Known, eq_comm]
  · rename_i hbare hqualified hrow
    unfold Unambiguous
    split
    · exact absurd rfl (hbare _)
    · exact absurd rfl (hqualified _ _)
    · exact absurd rfl (hrow _)
    · simp

theorem known_of_name (h : columnRefName r ∈ cols) : Known cols r := by
  unfold Known
  split
  · exact .inl h
  · exact h
  · trivial

theorem walk_of_walkAll {ns : List ExprNode} (h : walkAll C allowedCols selfFieldName ns = []) (hn : n ∈ ns) :
    walk C allowedCols selfFieldName n = [] := by
  induction ns with
  | nil => cases hn
  | cons m rest ih =>
    rw [walkAll, List.append_eq_nil_iff] at h
    rcases List.mem_cons.mp hn with rfl | hn
    · exact h.1
    · exact ih h.2 hn

theorem walk_of_part {kind : ExprKind} {parts rest : List ExprNode}
    (h : walk C allowedCols selfFieldName (.mk kind parts rest) = []) (hkind : ∀ fields, kind ≠ .columnRef fields)
    (hother : kind ≠ .other) (hn : n ∈ parts) : walk C allowedCols selfFieldName n = [] := by
  have hparts : walkAll C allowedCols selfFieldName parts = [] := by
    cases kind with
    | subLink => cases h
    | funcCall name =>
      rw [walk, List.append_eq_nil_iff] at h
      exact h.2
    | columnRef fields => exact absurd rfl (hkind fields)
    | other => exact absurd rfl hother
    | _ => exact h
  exact walk_of_walkAll hparts hn

/-- What is checked and not refused is an allowed column. -/
theorem Checked.allowed (hr : Checked n r) (h : walk C allowedCols selfFieldName n = []) :
    columnRefName r ∈ allowedCols := by
  induction hr with
  | ref hname =>
    rw [walk, if_neg hname] at h
    split at h
    · cases h
    split at h
    · assumption
    · cases h
  | inside hkind hother hn _ ih => exact ih (walk_of_part h hkind hother hn)

/-- **An accepted text changes the field and nothing else exactly if it is an expression by itself whose references are
    unambiguous, and known also where the walk does not look.** -/
theorem assignsOnly_iff (G : Grammar table pk field) (hpk : pk ∈ cols) (hcols : ∀ c ∈ allowedCols, c ∈ cols)
    (h : ValidateBackfillExpression C allowedCols selfFieldName G.parse expr = .ok ()) :
    AssignsOnly G cols expr ↔
      ∃ n, G.IsExpr expr n ∧ ∀ r, Refers n r → Unambiguous pk r ∧ (Checked n r ∨ Known cols r) := by
  unfold ValidateBackfillExpression at h
  split at h
  · cases h
  split at h
  case h_1 => cases h
  case h_3 => cases h
  case h_2 stmt hparse =>
  have hwalk : walk C allowedCols selfFieldName stmt = [] := by
    split at h
    · assumption
    · cases h
  constructor
  · rintro ⟨sets, hsets, hfield, hrefs⟩
    obtain ⟨⟨f, n⟩, rfl, rfl⟩ := List.map_eq_singleton_iff.mp hfield
    refine ⟨n, (G.chunk_expr hparse).mp hsets, ?_⟩
    intro r hr
    have hone := (meanings_eq_one_iff hpk).mp (hrefs _ List.mem_cons_self r hr)
    exact ⟨hone.1, .inr hone.2⟩
  · rintro ⟨n, hexpr, hrefs⟩
    refine ⟨[(field, n)], (G.chunk_expr hparse).mpr hexpr, rfl, ?_⟩
    intro a ha r hr
    obtain rfl := List.mem_singleton.mp ha
    obtain ⟨hone, hchecked | hknown⟩ := hrefs r hr
    · -- the validator has walked the tree that is assigned
      obtain rfl := List.singleton_inj.mp (G.parse_expr hexpr hparse)
      have hn : walk C allowedCols selfFieldName n = [] := by simpa [walk, walkAll] using hwalk
      exact (meanings_eq_one_iff hpk).mpr ⟨hone, known_of_name (hcols _ (hchecked.allowed hn))⟩
    · exact (meanings_eq_one_iff hpk).mpr ⟨hone, hknown⟩

/-! ## The whitelist -/

/-- The node is somewhere in the tree. -/
inductive Within : ExprNode → ExprNode → Prop where
  | self {n : ExprNode} : Within n n
  | inside {kind : ExprKind} {parts rest : List ExprNode} {n m : ExprNode} (hn : n ∈ parts ++ rest) (h : Within n m) :
      Within (.mk kind parts rest) m

/-- The walk comes to the node. -/
inductive Reached : ExprNode → ExprNode → Prop where
  | self {n : ExprNode} : Reached n n
  | inside {kind : ExprKind} {parts rest : List ExprNode} {n m : ExprNode} (hkind : ∀ fields, kind ≠ .columnRef fields)
      (hother : kind ≠ .other) (hn : n ∈ parts) (h : Reached n m) : Reached (.mk kind parts rest) m

/-- What the whitelist is for, of one node: a call is of the built-in function, a reference is of an allowed column, and
    there is no subquery. -/
def Whitelisted (allowedCols : List String) (selfFieldName : String) : ExprNode → Prop
  | .mk .subLink _ _ => False
  | .mk (.funcCall name schema) _ _ => name ∈ safeBackfillFunctions ∧ (schema = [] ∨ schema = ["pg_catalog"])
  | .mk (.columnRef fields) _ _ =>
    columnRefName fields ≠ "" ∧ columnRefName fields ∈ allowedCols ∧ columnRefName fields ≠ selfFieldName
  | _ => True

/-- **The property.** It holds of all nodes. -/
def WhitelistHolds (allowedCols : List String) (selfFieldName : String) (stmts : List ExprNode) : Prop :=
  ∀ stmt ∈ stmts, ∀ m, Within stmt m → Whitelisted allowedCols selfFieldName m

/-- The node is what its name alone says: no other schema, no capitals, no star. -/
def Plain (C : Casing) : ExprNode → Prop
  | .mk (.funcCall name schema) _ _ => C.toLower name = name ∧ (schema = [] ∨ schema = ["pg_catalog"])
  | .mk (.columnRef fields) _ _ => columnRefName fields ≠ ""
  | _ => True

theorem Reached.walk_eq (hm : Reached n m) (h : walk C allowedCols selfFieldName n = []) :
    walk C allowedCols selfFieldName m = [] := by
  induction hm with
  | self => exact h
  | inside hkind hother hn _ ih => exact ih (walk_of_part h hkind hother hn)

theorem toLower_safe {name : String} (h : name ∈ safeBackfillFunctions) : C.toLower name = name := by
  have hall : safeBackfillFunctions.all (fun s => s.toList.all fun c => c.toNat < 128 ∧ c.toLower = c) = true := by
    decide +kernel
  have hlower : ∀ c ∈ name.toList, C.lower c = id c := by
    intro c hc
    obtain ⟨hascii, hsame⟩ := of_decide_eq_true (List.all_eq_true.mp (List.all_eq_true.mp hall name h) c hc)
    exact (C.ascii c hascii).trans hsame
  rw [Casing.toLower, List.map_congr_left hlower, List.map_id, String.ofList_toList]

/-- **A node the walk has passed is as the whitelist wants it exactly if it is plain.** -/
theorem whitelisted_iff_plain (h : walk C allowedCols selfFieldName m = []) :
    Whitelisted allowedCols selfFieldName m ↔ Plain C m := by
  obtain ⟨kind, parts, rest⟩ := m
  cases kind with
  | subLink => cases h
  | funcCall name schema =>
    rw [walk, List.append_eq_nil_iff] at h
    have hsafe : C.toLower name ∈ safeBackfillFunctions := by
      by_contra hnot
      rw [if_neg hnot] at h
      cases h.1
    refine and_congr_left fun _ => ⟨toLower_safe, fun hlower => hlower ▸ hsafe⟩
  | columnRef fields =>
    refine and_iff_left_of_imp fun hname => ?_
    rw [walk, if_neg hname] at h
    split at h
    · cases h
    rename_i hself
    split at h
    · rename_i hallowed
      refine ⟨hallowed, ?_⟩
      rintro rfl
      exact hself ⟨hname, rfl⟩
    · cases h
  | _ => rfl

/-- **The whitelist holds throughout an accepted text exactly if what the walk comes to is plain, and it holds where the walk
    does not come.** -/
theorem whitelistHolds_iff {parse : String → Except String (List ExprNode)} {expr : String} {stmts : List ExprNode}
    (hparse : parse ("SELECT (" ++ expr ++ ")") = .ok stmts)
    (h : ValidateBackfillExpression C allowedCols selfFieldName parse expr = .ok ()) :
    WhitelistHolds allowedCols selfFieldName stmts ↔
      ∀ stmt ∈ stmts, ∀ m, Within stmt m →
        Reached stmt m ∧ Plain C m ∨ ¬ Reached stmt m ∧ Whitelisted allowedCols selfFieldName m := by
  have hwalk : ∀ stmt ∈ stmts, walk C allowedCols selfFieldName stmt = [] := by
    unfold ValidateBackfillExpression at h
    rw [hparse] at h
    split at h
    · cases h
    split at h
    · cases h
    · rename_i stmt heq
      cases heq
      split at h
      · simpa
      · cases h
    · cases h
  refine forall₄_congr fun stmt hstmt m _ => ?_
  by_cases hm : Reached stmt m
  · simp [hm, whitelisted_iff_plain (hm.walk_eq (hwalk stmt hstmt))]
  · simp [hm]

/-! ## Two texts -/

private abbrev nameRef : ExprNode := .mk (.columnRef [some "name"]) [] []

private abbrev constant : ExprNode := .mk .other [] []

/-- `SELECT (1, qty = 2)`. -/
private abbrev rowTree : ExprNode :=
  let qty : ExprNode := .mk .aExpr [.mk (.columnRef [some "qty"]) [] [], constant] []
  .mk .selectStmt [.mk .resTarget [.mk .rowExpr [constant, qty] []] []] []

/-- The `UPDATE` with the text. -/
private abbrev itemChunk (expr : String) : String := ChunkSQL "atlantis.shop_item" "id" "label" expr

private theorem itemChunk_ne : itemChunk "1, qty = 2" ≠ itemChunk "name" := by decide +kernel

/-- The grammar, where it is about `name` and `1, qty = 2`. -/
def itemGrammar : Grammar "atlantis.shop_item" "id" "label" where
  parse text :=
    if text = "SELECT (" ++ "name" ++ ")" then .ok [.mk .selectStmt [.mk .resTarget [nameRef] []] []]
    else if text = "SELECT (" ++ "1, qty = 2" ++ ")" then .ok [rowTree]
    else .error "syntax error"
  chunkSets text :=
    if text = itemChunk "name" then some [("label", nameRef)]
    else if text = itemChunk "1, qty = 2" then some [("label", constant), ("qty", constant)]
    else none
  IsExpr expr n := expr = "name" ∧ n = nameRef
  parse_expr := by
    rintro expr n stmts ⟨rfl, rfl⟩ hparse
    exact (Except.ok.inj hparse).symm
  chunk_expr := by
    intro expr n stmts hparse
    have hcases : expr = "name" ∨ expr = "1, qty = 2" := by
      simp only [String.append_left_inj, String.append_right_inj] at hparse
      split at hparse
      · left
        assumption
      · split at hparse
        · right
          assumption
        · cases hparse
    rcases hcases with rfl | rfl
    · simp [eq_comm]
    · simp [itemChunk_ne]

/-- `name` is all right. -/
theorem name_assignsOnly : AssignsOnly itemGrammar ["id", "name", "qty", "label"] "name" := by
  refine (@assignsOnly_iff asciiCasing ["id", "name", "qty"] _ "label" _ _ _ _ itemGrammar (by decide) (by decide)
    (by decide +kernel)).mpr ⟨nameRef, ⟨rfl, rfl⟩, ?_⟩
  intro r hr
  cases hr with
  | ref => exact ⟨by simp [Unambiguous], .inr (by simp [Known])⟩
  | inside hn _ => cases hn

/-- `1, qty = 2` is accepted, and assigns `qty` too. -/
theorem row_assigns_other :
    ValidateBackfillExpression asciiCasing ["id", "name", "qty"] "label" itemGrammar.parse "1, qty = 2" = .ok () ∧
      ¬ AssignsOnly itemGrammar ["id", "name", "qty", "label"] "1, qty = 2" := by
  refine ⟨by decide +kernel, ?_⟩
  rintro ⟨sets, hsets, hfield, -⟩
  simp only [itemGrammar, itemChunk_ne, if_false, if_true, Option.some.injEq] at hsets
  subst hsets
  cases hfield

/-- `name` again. -/
theorem name_whitelisted : WhitelistHolds ["id", "name", "qty"] "label" [.mk .selectStmt [.mk .resTarget [nameRef] []] []] := by
  refine (@whitelistHolds_iff asciiCasing _ _ itemGrammar.parse "name" _ rfl (by decide +kernel)).mpr ?_
  intro stmt hstmt m hm
  obtain rfl := List.mem_singleton.mp hstmt
  left
  cases hm with
  | self => exact ⟨.self, trivial⟩
  | inside hn h =>
    obtain rfl := List.mem_singleton.mp hn
    cases h with
    | self => exact ⟨.inside (by simp) (by simp) hn .self, trivial⟩
    | inside href h =>
      obtain rfl := List.mem_singleton.mp href
      cases h with
      | self =>
        refine ⟨.inside (by simp) (by simp) hn (.inside (by simp) (by simp) href .self), ?_⟩
        simp [Plain, columnRefName]
      | inside hpart => cases hpart

/-- `greatest(nextval('s'), 1)`, where the walk does not come to `nextval`. -/
theorem hidden_call_accepted :
    let call : ExprNode := .mk (.funcCall "nextval" []) [constant] []
    let stmts := [.mk .selectStmt [.mk .resTarget [.mk .other [] [call, constant]] []] []]
    ValidateBackfillExpression asciiCasing ["id", "name", "qty"] "label" (fun _ => .ok stmts) "greatest(nextval('s'), 1)" =
        .ok () ∧
      ¬ WhitelistHolds ["id", "name", "qty"] "label" stmts := by
  refine ⟨by decide +kernel, ?_⟩
  intro h
  have hcall := h _ List.mem_cons_self _ (.inside List.mem_cons_self (.inside List.mem_cons_self (.inside List.mem_cons_self .self)))
  exact absurd hcall.1 (by decide)

end Atlantis.RawSql
