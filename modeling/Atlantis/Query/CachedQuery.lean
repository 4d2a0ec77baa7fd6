import Atlantis.Query.Generated
import Atlantis.Server.Query

/-!
# `Query.CachedQuery` — a cache hit against a miss

The handler looks into the tier-2 cache before it asks for the caller's partition, under a key that only the
request goes into, and a hit re-reads the rows of the entry by their printed first key, without an `ORDER BY`
and without the partition. So a hit is a miss of another statement.

`hitsAnswerLikeMisses_iff` says when the two agree for every pair of requests and callers: the entity is not
partitioned, and there is at most one live row, whose printed key binds back to it. With a partition, a
caller without one is refused on a miss and served on a hit. With two live rows, either they share their
first key and a hit returns more than the limit, or they do not and a hit may return them in the other order.
-/

namespace Atlantis.Query

open Sql Schema Lib Cache

section

variable {V : Type} (W : Wire) (db : Db V) (ir : IR) (e : Entity)

/-- What is assumed of the encodings: equal digests are digests of equal texts, and orders with the same bytes
    are equal. -/
structure Wire.Faithful : Prop where
  digest : Function.Injective W.digest
  order : Function.Injective W.order

/-- The first key column: never `NULL`, and compared by a linear order. -/
structure KeyColumn : Prop where
  linear : (db.driver e.id).Linear (primaryPKName e)
  notNull : ∀ r ∈ db.table e.id, (r (primaryPKName e)).isSome

/-- The keys of the table and the tokens of its first pages are within the caps of the codec. -/
structure EntriesFit : Prop where
  key : ∀ r ∈ db.table e.id,
    ((db.driver e.id).printed (primaryPKName e) (r (primaryPKName e))).length ≤ MaxPKByteLen
  token : ∀ r ∈ db.table e.id,
    (W.tokenText (nextPageToken e.id (extractCursor (db.driver e.id).toDriver e []) (some r))).length
      ≤ MaxNextPageTokenLen

/-- The printed first key of a row binds to that key. -/
def KeyBindsBack (r : Row V) : Prop :=
  ∃ v, r (primaryPKName e) = some v ∧
    (db.driver e.id).bindKey (primaryPKName e) ((db.driver e.id).printed (primaryPKName e) (some v)) = .ok v

/-- The rows that are not soft-deleted. -/
def liveRows : List (Row V) := (db.table e.id).filter fun r => decide (Live e r)

/-- **A hit answers like a miss**, for every two callers and every two requests: when the first one missed and
    stored its page, and the second one is answered from that entry, then the answer is one that the second
    caller may get from an empty cache. -/
def HitsAnswerLikeMisses : Prop :=
  ∀ (s s₁ s₂ : Tier2) (c₁ c₂ : Option Arg) (r₁ r₂ : QueryXRequest) (page : QueryResponse V)
    (res : Except QueryError (QueryResponse V × List (Slots V))),
    cacheHit W e s r₁ = none → QueryX W db ir e s c₁ r₁ (.ok (page, [])) s₁ → r₁.cacheable = true →
    cacheHash W e r₂ s.generation = cacheHash W e r₁ s.generation →
    cacheHit W e s₁ r₂ = some (pagePayload W db e page) → QueryX W db ir e s₁ c₂ r₂ res s₂ →
    ∃ s', QueryX W db ir e ⟨fun _ => none, s.generation⟩ c₂ r₂ res s'

/-- When hits and misses agree. -/
def SingleLiveRow : Prop :=
  e.partitionField = "" ∧ (liveRows db e).length ≤ 1 ∧ ∀ r ∈ liveRows db e, KeyBindsBack db e r

variable {W db ir e} {caller c₁ c₂ : Option Arg} {req r₁ r₂ : QueryXRequest} {s s' : Tier2} {page : QueryResponse V}
  {res : Except QueryError (QueryResponse V × List (Slots V))}

/-! ## Hits and misses apart -/

/-- What a request without includes may get from an empty cache. -/
theorem exists_queryX_empty_iff (hinc : req.cacheable = true) (generation : Int64) :
    (∃ s', QueryX W db ir e ⟨fun _ => none, generation⟩ caller req res s') ↔
      ∃ res', Page W db e caller req res' ∧ res = res'.map (·, []) := by
  have hnone : cacheHit W e ⟨fun _ => none, generation⟩ req = none := by
    unfold cacheHit
    split <;> rfl
  have hnil : req.includes = [] := List.isEmpty_iff.mp hinc
  constructor
  · rintro ⟨s', hrun⟩
    cases hrun with
    | hit h _ =>
      rw [hnone] at h
      cases h
    | refused _ hpage => exact ⟨_, hpage, rfl⟩
    | notAttached _ hpage hd =>
      rw [hnil] at hd
      cases hd
    | answered _ hpage hd =>
      rw [hnil] at hd
      cases hd
      exact ⟨_, hpage, rfl⟩
  · rintro ⟨res', hpage, rfl⟩
    cases res' with
    | error err => exact ⟨_, .refused hnone hpage⟩
    | ok page => exact ⟨_, .answered hnone hpage (by rw [hnil]; exact .nil)⟩

/-- A stored page is found by the same request. -/
theorem cacheHit_storePage (hinc : req.includes = []) (hskip : req.cacheSkip = false)
    (hfit : (pagePayload W db e page).Storable) :
    cacheHit W e (storePage W db e s req page) req = some (pagePayload W db e page) := by
  have hcacheable : req.cacheable = true := List.isEmpty_iff.mpr hinc
  unfold cacheHit storePage
  rw [hcacheable, hskip, if_pos rfl, Store_generation]
  exact Lookup_Store hfit

/-- A page that is stored, and what the next caller may make of the entry. -/
theorem HitsAnswerLikeMisses.of_page (c₂ : Option Arg) {res : Except QueryError (QueryResponse V)}
    (h : HitsAnswerLikeMisses W db ir e) (hpage : Page W db e c₁ req (.ok page)) (hinc : req.includes = [])
    (hskip : req.cacheSkip = false) (hfit : (pagePayload W db e page).Storable)
    (hres : AssembleFromPKs W db e (pagePayload W db e page) res) : Page W db e c₂ req res := by
  have hcacheable : req.cacheable = true := List.isEmpty_iff.mpr hinc
  have hmiss : cacheHit W e ⟨fun _ => none, 0⟩ req = none := by
    unfold cacheHit
    split <;> rfl
  have hrun : QueryX W db ir e ⟨fun _ => none, 0⟩ c₁ req (.ok (page, []))
      (storePage W db e ⟨fun _ => none, 0⟩ req page) :=
    .answered hmiss hpage (by rw [hinc]; exact .nil)
  have hhit := cacheHit_storePage (s := ⟨fun _ => none, 0⟩) hinc hskip hfit
  obtain ⟨s', hempty⟩ := h _ _ _ c₁ c₂ req req page _ hmiss hrun hcacheable rfl hhit (.hit hhit hres)
  obtain ⟨res', hpage', heq⟩ := (exists_queryX_empty_iff hcacheable 0).mp ⟨s', hempty⟩
  obtain rfl : res = res' := by cases res <;> cases res' <;> simp_all [Except.map]
  exact hpage'

/-- An entry has some outcome. -/
theorem exists_assemble (W : Wire) (db : Db V) (e : Entity) (entry : Payload) : ∃ res, AssembleFromPKs W db e entry res := by
  by_cases hnil : entry.pks = []
  · exact ⟨_, .none hnil⟩
  · cases hkeys : (db.driver e.id).bindKeys (pkSpecFirst e) entry.pks with
    | error msg => exact ⟨_, .refused hnil hkeys⟩
    | ok keys => exact ⟨_, .found hnil hkeys (.refl _)⟩

/-! ## Where there is one row -/

theorem Page.congr {generation : Int64} {res : Except QueryError (QueryResponse V)} (hW : W.Faithful) (hpart : e.partitionField = "")
    (hkey : cacheHash W e r₂ generation = cacheHash W e r₁ generation) (h : Page W db e c₁ r₁ res) :
    Page W db e c₂ r₂ res := by
  obtain ⟨_, hfilter, horders, hlimit, htoken, _⟩ := canonical_inj (hW.digest hkey)
  have horder : r₂.order = r₁.order := List.map_injective_iff.mpr hW.order horders
  have hlimit : r₂.limit = r₁.limit := hlimit
  have htoken : r₂.pageToken = r₁.pageToken := htoken
  have hfilter : r₂.filter = r₁.filter := hfilter
  have hextras : extraPredicates e c₂ = extraPredicates e c₁ := by
    unfold extraPredicates
    rw [if_pos hpart, if_pos hpart]
  have hst : queryStatement W e c₂ r₂ = queryStatement W e c₁ r₁ := by
    unfold queryStatement
    rw [htoken, hextras, horder, hlimit, hfilter]
  cases h with
  | refused h => exact .refused (hst.trans h)
  | answered h hrows =>
    have hanswer := Page.answered (hst.trans h) hrows
    rw [horder, hlimit] at hanswer
    exact hanswer

/-- On at most one live row a page has that row or none, and no next page. -/
theorem Page.of_single (hone : (liveRows db e).length ≤ 1) (h : Page W db e caller req (.ok page)) :
    page = ⟨[], .empty⟩ ∨ page = ⟨liveRows db e, .empty⟩ := by
  cases h with
  | @answered st rows hst hrows =>
    obtain ⟨_, all, hperm, _, hout⟩ := hrows
    have hlive : (st.select.matching (db.driver e.id).toDialect (st.params (db.driver e.id).toPg)
        (db.table e.id)).Sublist (liveRows db e) := by
      refine List.monotone_filter_right _ fun r hr => ?_
      exact decide_eq_true (visible_of_value hst (by simpa using hr)).1
    have hall : rows.Sublist all := by
      rw [hout]
      split
      · exact .refl _
      · exact List.take_sublist _ _
    have hsub : rows.Subperm (liveRows db e) := hall.subperm.trans (hperm.subperm.trans hlive.subperm)
    have htrim : trimPage e.id (extractCursor (db.driver e.id).toDriver e req.order) (clampLimit req.limit) rows
        = ⟨rows, .empty⟩ := by
      have hlen := hsub.length_le
      have hpos := (clampLimit_bounds req.limit).1
      unfold trimPage
      rw [if_neg (by omega)]
    rw [htrim]
    match rows, hsub with
    | [], _ => exact .inl rfl
    | [r], hsub => exact .inr (by rw [List.singleton_perm.mp (hsub.perm_of_length_le hone)])
    | _ :: _ :: _, hsub => exact absurd (hsub.length_le.trans hone) (by simp)

theorem sqlBatchGet_eq (keys : List V) :
    sqlBatchGet db e keys = (liveRows db e).filter ((db.driver e.id).anyKey (pkSpecFirst e) keys) := by
  unfold sqlBatchGet liveRows
  rw [List.filter_filter]

theorem pkSpecFirst_eq (hv : Validated ir) (he : e ∈ ir.entities) : pkSpecFirst e = primaryPKName e := by
  unfold pkSpecFirst primaryPKName
  rcases hv.primary_key he with ⟨hcomp, _⟩ | ⟨hcomp, hprim⟩
  · rw [hv.primaryField_eq_none he hcomp]
    obtain ⟨c, cs, hcs⟩ := List.exists_cons_of_ne_nil hcomp
    rw [hcs]
    rfl
  · obtain ⟨pk, hpk⟩ := Option.isSome_iff_exists.mp hprim
    rw [hcomp, hpk]
    rfl

theorem anyKey_iff {D : GoDriver V} {col : String} {keys : List V} {r : Row V} (hlin : D.Linear col) :
    D.anyKey col keys r = true ↔ ∃ v ∈ keys, r col = some v := by
  unfold GoDriver.anyKey
  cases r col with
  | none => simp
  | some v =>
    show keys.any _ = true ↔ _
    rw [List.any_eq_true]
    exact exists_congr fun w => and_congr_right fun _ => by rw [hlin.eq_iff, Option.some_inj]

/-- The entry of a page on one live row leads back to it. -/
theorem assemble_single {res : Except QueryError (QueryResponse V)} (hv : Validated ir) (he : e ∈ ir.entities)
    (hkeys : KeyColumn db e) (hone : (liveRows db e).length ≤ 1) (hback : ∀ r ∈ liveRows db e, KeyBindsBack db e r)
    (hpage : Page W db e caller req (.ok page)) (h : AssembleFromPKs W db e (pagePayload W db e page) res) :
    res = .ok page := by
  have htoken : W.tokenOf (W.tokenText .empty) = .empty := by rw [W.tokenText_empty, W.tokenOf_nil]
  have hempty : ∀ {res}, AssembleFromPKs W db e (pagePayload W db e ⟨[], .empty⟩) res → res = .ok ⟨[], .empty⟩ := by
    intro res h
    cases h with
    | none _ =>
      show Except.ok (QueryResponse.mk [] (W.tokenOf (W.tokenText .empty))) = _
      rw [htoken]
    | refused hne _ | found hne _ _ => exact absurd rfl hne
  rcases hpage.of_single hone with rfl | rfl
  · exact hempty h
  · match hlive : liveRows db e, hone, hback with
    | [], _, _ =>
      rw [hlive] at h
      exact hempty h
    | [r], _, hback =>
      obtain ⟨v, hr, hbind⟩ := hback r (by simp)
      have hpks : (pagePayload W db e ⟨liveRows db e, .empty⟩).pks
          = [(db.driver e.id).printed (primaryPKName e) (some v)] := by
        rw [pagePayload, hlive, List.map_singleton, hr]
      have hbinds : (db.driver e.id).bindKeys (pkSpecFirst e) (pagePayload W db e ⟨liveRows db e, .empty⟩).pks
          = .ok [v] := by
        rw [hpks, pkSpecFirst_eq hv he, GoDriver.bindKeys, List.mapM_cons, hbind]
        rfl
      cases h with
      | none hnil =>
        rw [hpks] at hnil
        cases hnil
      | refused _ hkeys' =>
        rw [hbinds] at hkeys'
        cases hkeys'
      | @found keys rows _ hkeys' hrows =>
        rw [hbinds] at hkeys'
        cases hkeys'
        have hmatch : (db.driver e.id).anyKey (pkSpecFirst e) [v] r = true := by
          rw [pkSpecFirst_eq hv he, anyKey_iff hkeys.linear]
          exact ⟨v, by simp, hr⟩
        rw [sqlBatchGet_eq, hlive, List.filter_singleton, hmatch] at hrows
        rw [List.perm_singleton.mp hrows]
        show Except.ok (QueryResponse.mk [r] (W.tokenOf (W.tokenText .empty))) = _
        rw [htoken]

/-- **One live row is enough.** The two requests have one statement, and the entry leads back to its rows. -/
theorem SingleLiveRow.hitsAnswerLikeMisses (hv : Validated ir) (he : e ∈ ir.entities) (hW : W.Faithful)
    (hkeys : KeyColumn db e) (h : SingleLiveRow db e) : HitsAnswerLikeMisses W db ir e := by
  obtain ⟨hpart, hone, hback⟩ := h
  intro s s₁ s₂ c₁ c₂ r₁ r₂ page res hmiss hrun₁ _ hkey hhit hrun₂
  have hpage : Page W db e c₁ r₁ (.ok page) := by
    generalize hres : Except.ok (page, _) = res₁ at hrun₁
    cases hrun₁ with
    | hit h _ => cases hmiss.symm.trans h
    | refused _ _ | notAttached _ _ _ => cases hres
    | answered _ hpage _ =>
      cases hres
      exact hpage
  obtain ⟨res', hres, rfl⟩ : ∃ res', AssembleFromPKs W db e _ res' ∧ res = res'.map (·, []) := by
    cases hrun₂ with
    | hit h hres =>
      cases hhit.symm.trans h
      exact ⟨_, hres, rfl⟩
    | refused h _ | notAttached h _ _ | answered h _ _ => cases hhit.symm.trans h
  rw [assemble_single hv he hkeys hone hback hpage hres]
  have hcacheable : r₂.cacheable = true := by
    obtain ⟨hc, hhit⟩ := Option.ite_none_right_eq_some.mp hhit
    exact (Bool.and_eq_true_iff.mp hc).1
  exact (exists_queryX_empty_iff hcacheable _).mpr ⟨_, hpage.congr hW hpart hkey, rfl⟩

/-! ## Where there are more -/

/-- A caller with a partition gets past the partition check. -/
theorem exists_extraPredicates (e : Entity) (a : Arg) :
    ∃ extras pargs, extraPredicates e (some a) = .ok (extras, pargs) := by
  unfold extraPredicates
  split <;> exact ⟨_, _, rfl⟩

theorem buildKeysetCols_nil (e : Entity) : buildKeysetCols e [] = [⟨primaryPKName e, false⟩] := rfl

/-- A first page is stored. -/
theorem storable_plain {limit : Int32} {extras : List Frag} {pargs : List Arg} (hfit : EntriesFit W db e)
    (hex : extraPredicates e caller = .ok (extras, pargs))
    (h : Page W db e caller { limit := limit } (.ok page)) : (pagePayload W db e page).Storable := by
  obtain ⟨rows, hperm, _, hres⟩ := (page_plain_iff [] hex).mp h
  cases hres
  have htable : ∀ r ∈ rows, r ∈ db.table e.id := fun r hr => (List.mem_filter.mp (hperm.mem_iff.mp hr)).1
  have hlimit := (clampLimit_bounds limit).2
  refine ⟨?_, ?_, ?_⟩
  · simp only [pagePayload, List.length_map, trimPage_entities]
    have hlen := List.length_take_le (clampLimit limit) (rows.take (clampLimit limit + 1))
    unfold MaxPKListSize
    omega
  · unfold pagePayload trimPage
    split
    · rename_i hmore
      obtain ⟨r, hr⟩ : ∃ r, (rows.take (clampLimit limit + 1))[clampLimit limit - 1]? = some r :=
        ⟨_, List.getElem?_eq_getElem (by omega)⟩
      rw [hr]
      exact hfit.token r (htable r (List.mem_of_mem_take (List.mem_of_getElem? hr)))
    · simp only [W.tokenText_empty, List.length_nil]
      exact Nat.zero_le _
  · intro key hkey
    obtain ⟨r, hr, rfl⟩ := List.mem_map.mp hkey
    rw [trimPage_entities] at hr
    exact hfit.key r (htable r (List.mem_of_mem_take (List.mem_of_mem_take hr)))

variable {limit : Int32}

theorem KeyColumn.linear_all (hkeys : KeyColumn db e) :
    ∀ k ∈ [(⟨primaryPKName e, false⟩ : KeysetColumn)], (db.driver e.id).Linear k.column := by
  intro k hk
  rw [List.mem_singleton.mp hk]
  exact hkeys.linear

/-- **With a partition hits are never like misses**: a caller without a partition is refused on a miss. -/
theorem HitsAnswerLikeMisses.partition (hkeys : KeyColumn db e) (hfit : EntriesFit W db e)
    (h : HitsAnswerLikeMisses W db ir e) : e.partitionField = "" := by
  by_contra hpart
  let anyone : Option Arg := some (.bool true)
  obtain ⟨extras, pargs, hex⟩ := exists_extraPredicates e (.bool true)
  have hlinear : ∀ k ∈ buildKeysetCols e [], (db.driver e.id).Linear k.column := hkeys.linear_all
  obtain ⟨rows, hperm, hsorted⟩ := exists_inOrder hlinear
    ((db.table e.id).filter fun r => decide (Visible (db.driver e.id).toPg e anyone r))
  have hpage : Page W db e anyone { limit := 1 } _ := (page_plain_iff [] hex).mpr ⟨rows, hperm, hsorted, rfl⟩
  obtain ⟨res, hres⟩ := exists_assemble W db e (pagePayload W db e _)
  have hnone := h.of_page none hpage rfl rfl (storable_plain hfit hex hpage) hres
  -- without a partition the statement is not even built
  have hrefused : queryStatement W e none { limit := 1 } = .error .noCallerPartition := by
    unfold queryStatement extraPredicates
    rw [if_neg hpart, W.tokenOf_nil]
    rfl
  cases hnone with
  | refused herr =>
    rw [hrefused] at herr
    obtain rfl := Except.error.inj herr
    cases hres
  | answered hst _ =>
    rw [hrefused] at hst
    cases hst

theorem extraPredicates_unpartitioned (hpart : e.partitionField = "") (caller : Option Arg) :
    extraPredicates e caller = .ok (softDeletePredicate e, []) := by
  unfold extraPredicates
  rw [if_pos hpart]

/-- The live rows, by their first key. -/
def ByKey (db : Db V) (e : Entity) (rows : List (Row V)) : Prop :=
  rows.Perm (liveRows db e) ∧ InOrder (db.driver e.id).toDialect [⟨primaryPKName e, false⟩] rows

/-- Rows with one key may change places, their keys stand in one order. -/
theorem ByKey.keys_eq (hkeys : KeyColumn db e) {rows rows' : List (Row V)} (h : ByKey db e rows) (h' : ByKey db e rows') :
    rows.map (· (primaryPKName e)) = rows'.map (· (primaryPKName e)) := by
  let inOrder : Option V → Option V → Prop := fun u v =>
    rowBefore (db.driver e.id).toDialect [⟨primaryPKName e, false⟩] (fun _ => v) (fun _ => u) = false
  have hanti : ∀ u v, inOrder u v → inOrder v u → u = v :=
    fun u v huv hvu => eq_of_not_rowBefore hkeys.linear_all hvu huv _ List.mem_cons_self
  have hpair : ∀ {l : List (Row V)}, ByKey db e l → (l.map (· (primaryPKName e))).Pairwise inOrder :=
    fun hl => List.pairwise_map.mpr (hl.2.imp fun hbefore => hbefore)
  exact List.Perm.eq_of_pairwise (fun u v _ _ => hanti u v) (hpair h) (hpair h') ((h.1.trans h'.1.symm).map _)

section

variable (hpart : e.partitionField = "")

include hpart

/-- The pages of an unpartitioned entity, without a filter. -/
theorem page_live_iff {res : Except QueryError (QueryResponse V)} :
    Page W db e caller { limit := limit } res ↔
      ∃ rows : List (Row V), ByKey db e rows ∧
        res = .ok (trimPage e.id (extractCursor (db.driver e.id).toDriver e []) (clampLimit limit)
          (rows.take (clampLimit limit + 1))) := by
  have hvisible : ((db.table e.id).filter fun r => decide (Visible (db.driver e.id).toPg e caller r))
      = liveRows db e := by
    refine List.filter_congr fun r _ => decide_eq_decide.mpr ?_
    unfold Visible inPartition
    simp [hpart]
  rw [page_plain_iff [] (extraPredicates_unpartitioned hpart caller), hvisible, buildKeysetCols_nil]
  simp only [ByKey, and_assoc]

variable (hv : Validated ir) (he : e ∈ ir.entities) (hfit : EntriesFit W db e) (h : HitsAnswerLikeMisses W db ir e)

include hv he hfit h

/-- What a stored first page turns into: rows of the entry in every order, each of them a first page. -/
theorem rows_of_hits (hpage : Page W db e none { limit := limit } (.ok page)) (hne : page.entities ≠ []) :
    ∃ keys, (db.driver e.id).bindKeys (primaryPKName e)
        (page.entities.map fun r => (db.driver e.id).printed (primaryPKName e) (r (primaryPKName e))) = .ok keys ∧
      ∀ out : List (Row V), out.Perm ((liveRows db e).filter ((db.driver e.id).anyKey (primaryPKName e) keys)) →
        ∃ rows : List (Row V), ByKey db e rows ∧ out = rows.take (clampLimit limit) := by
  have hstore := storable_plain hfit (extraPredicates_unpartitioned hpart none) hpage
  have hpks : (pagePayload W db e page).pks ≠ [] := by simpa [pagePayload] using hne
  cases hbind : (db.driver e.id).bindKeys (pkSpecFirst e) (pagePayload W db e page).pks with
  | error msg =>
    have hres := h.of_page none hpage rfl rfl hstore (.refused hpks hbind)
    obtain ⟨_, _, herr⟩ := (page_live_iff hpart).mp hres
    cases herr
  | ok keys =>
    have hbind' := hbind
    rw [pkSpecFirst_eq hv he] at hbind'
    refine ⟨keys, hbind', fun out hout => ?_⟩
    have hrows : out.Perm (sqlBatchGet db e keys) := by
      rw [sqlBatchGet_eq, pkSpecFirst_eq hv he]
      exact hout
    have hres := h.of_page none hpage rfl rfl hstore (.found hpks hbind hrows)
    obtain ⟨rows, hrows, hok⟩ := (page_live_iff hpart).mp hres
    refine ⟨rows, hrows, ?_⟩
    have hentities := congrArg QueryResponse.entities (Except.ok.inj hok)
    rw [trimPage_entities, List.take_take, Nat.min_eq_left (Nat.le_succ _)] at hentities
    exact hentities

variable (hkeys : KeyColumn db e)

include hkeys

/-- **Two live rows are too many.** -/
theorem live_le_one : (liveRows db e).length ≤ 1 := by
  by_contra hmany
  let D := db.driver e.id
  let pk := primaryPKName e
  have htwo : ∀ {rows : List (Row V)}, ByKey db e rows → ∃ a b rest, rows = a :: b :: rest := by
    intro rows hrows
    have hlen := hrows.1.length_eq
    match rows, hlen with
    | a :: b :: rest, _ => exact ⟨a, b, rest, rfl⟩
    | [], hlen | [_], hlen => simp at hlen; omega
  obtain ⟨rows, hperm, hsorted⟩ := exists_inOrder hkeys.linear_all (liveRows db e)
  have hrows : ByKey db e rows := ⟨hperm, hsorted⟩
  obtain ⟨a, b, rest, rfl⟩ := htwo hrows
  by_cases hab : a pk = b pk
  · -- two rows share the least key: a page of one row comes back as a page of two
    have hpage : Page W db e none { limit := 1 } _ := (page_live_iff hpart).mpr ⟨_, hrows, rfl⟩
    obtain ⟨keys, _, hout⟩ := rows_of_hits hpart hv he hfit h hpage (by rw [trimPage_entities]; exact List.cons_ne_nil _ _)
    obtain ⟨rows', hrows', heq⟩ := hout _ (.refl _)
    obtain ⟨m, w, more, rfl⟩ := htwo hrows'
    have hm : a pk = m pk := (List.cons.inj (hrows.keys_eq hkeys hrows')).1
    have hmem : m ∈ (liveRows db e).filter (D.anyKey pk keys) := by
      rw [heq]
      exact List.mem_cons_self
    obtain ⟨v, hv, hmv⟩ := (anyKey_iff hkeys.linear).mp (List.mem_filter.mp hmem).2
    have hany : ∀ r : Row V, r pk = m pk → D.anyKey pk keys r = true :=
      fun r hr => (anyKey_iff hkeys.linear).mpr ⟨v, hv, hr.trans hmv⟩
    have hlen := (hperm.filter (D.anyKey pk keys)).length_eq
    rw [heq, List.filter_cons_of_pos (hany a hm), List.filter_cons_of_pos (hany b (hab.symm.trans hm))] at hlen
    have hshort := List.length_take_le (clampLimit 1) (m :: w :: more)
    have hone : clampLimit 1 = 1 := rfl
    simp only [List.length_cons] at hlen
    omega
  · -- the two first keys differ: a page of both may come back in the other order
    have hpage : Page W db e none { limit := 2 } _ := (page_live_iff hpart).mpr ⟨_, hrows, rfl⟩
    obtain ⟨keys, _, hout⟩ := rows_of_hits hpart hv he hfit h hpage (by rw [trimPage_entities]; exact List.cons_ne_nil _ _)
    have hpair : ∀ out : List (Row V), out.Perm ((liveRows db e).filter (D.anyKey pk keys)) →
        ∃ m w, out = [m, w] ∧ m pk = a pk ∧ w pk = b pk := by
      intro out hperm'
      obtain ⟨rows', hrows', rfl⟩ := hout out hperm'
      obtain ⟨m, w, more, rfl⟩ := htwo hrows'
      obtain ⟨hm, htail⟩ := List.cons.inj (hrows.keys_eq hkeys hrows')
      exact ⟨m, w, rfl, hm.symm, (List.cons.inj htail).1.symm⟩
    obtain ⟨m, w, hS, hm, -⟩ := hpair _ (.refl _)
    obtain ⟨m', w', hR, -, hw⟩ := hpair _ (List.reverse_perm _)
    rw [hS] at hR
    obtain ⟨-, hR⟩ := List.cons.inj hR
    rw [← (List.cons.inj hR).1] at hw
    exact hab (hm.symm.trans hw)

/-- The single live row is found under its printed key. -/
theorem keyBindsBack_of_hits (hone : (liveRows db e).length ≤ 1) : ∀ r ∈ liveRows db e, KeyBindsBack db e r := by
  intro r hr
  obtain ⟨x, hx⟩ := Option.isSome_iff_exists.mp (hkeys.notNull r (List.mem_filter.mp hr).1)
  have hlive : liveRows db e = [r] := by
    match liveRows db e, hr, hone with
    | [_], hr, _ => rw [List.mem_singleton.mp hr]
  have hpage : Page W db e none { limit := 1 } _ :=
    (page_live_iff hpart).mpr ⟨[r], ⟨by rw [hlive], List.pairwise_singleton _ _⟩, rfl⟩
  obtain ⟨keys, hbind, hout⟩ := rows_of_hits hpart hv he hfit h hpage (by rw [trimPage_entities]; exact List.cons_ne_nil _ _)
  obtain ⟨rows, ⟨hperm, _⟩, heq⟩ := hout _ (.refl _)
  have hmem : r ∈ (liveRows db e).filter ((db.driver e.id).anyKey (primaryPKName e) keys) := by
    rw [hlive] at hperm
    rw [heq, List.perm_singleton.mp hperm]
    exact List.mem_cons_self
  obtain ⟨v, hv, hrv⟩ := (anyKey_iff hkeys.linear).mp (List.mem_filter.mp hmem).2
  rw [trimPage_entities] at hbind
  have hbind : [(db.driver e.id).printed (primaryPKName e) (r (primaryPKName e))].mapM
      ((db.driver e.id).bindKey (primaryPKName e)) = .ok keys := hbind
  rw [List.mapM_cons] at hbind
  obtain ⟨k, hk, hrest⟩ := bind_ok hbind
  obtain rfl : [k] = keys := Except.ok.inj hrest
  obtain rfl := List.mem_singleton.mp hv
  exact ⟨v, hrv, by rw [← hrv]; exact hk⟩

end

/-- **When a hit answers like a miss.** One live row, without a partition, is enough on every table; and on
    a table whose keys and tokens fit into cache entries nothing less will do. -/
theorem hitsAnswerLikeMisses_iff (hv : Validated ir) (he : e ∈ ir.entities) (hW : W.Faithful)
    (hkeys : KeyColumn db e) :
    (SingleLiveRow db e → HitsAnswerLikeMisses W db ir e) ∧
      (EntriesFit W db e → (HitsAnswerLikeMisses W db ir e ↔ SingleLiveRow db e)) := by
  refine ⟨fun h => h.hitsAnswerLikeMisses hv he hW hkeys, fun hfit => ⟨fun h => ?_, fun h => ?_⟩⟩
  · have hpart := h.partition hkeys hfit
    have hone := live_le_one hpart hv he hfit h hkeys
    exact ⟨hpart, hone, keyBindsBack_of_hits hpart hv he hfit h hkeys hone⟩
  · exact h.hitsAnswerLikeMisses hv he hW hkeys

end

/-! ## A page of another tenant -/

/-- A digest that forgets nothing, and no page tokens. -/
def plainWire : Wire where
  filterOf _ := none
  order o := uvarint o.field ++ [if o.desc then 1 else 0]
  fields _ := []
  tokenOf b := if b = [] then .empty else .undecodable "illegal base64 data at input byte 0"
  tokenText _ := []
  digest b := String.ofList (b.map fun x => Char.ofNat x.toNat)
  filterOf_nil := rfl
  tokenOf_nil := rfl
  tokenText_empty := rfl

theorem plainWire_faithful : plainWire.Faithful where
  digest := plainDigest_inj
  order := by
    rintro ⟨f, d⟩ ⟨f', d'⟩ h
    obtain ⟨rfl, hd⟩ := uvarint_prefixFree _ _ _ _ h
    cases d <;> cases d' <;> simp_all

open Server

def textGoDriver : GoDriver String where
  toPg := textPg
  cursorArg _ x := .arg (.str (x.getD ""))
  printed _ x := (x.getD "").toUTF8.data.toList
  bindKey _ b := .ok (String.ofList (b.map fun x => Char.ofNat x.toNat))

def notesDb : Db String where
  driver _ := textGoDriver
  table _ := notes

def noteIR : IR := ⟨[note]⟩

/-- A tenant asks for its notes, and the next one, with the same request, is answered with them. -/
theorem cacheHit_crosses_partitions :
    ∃ page s, QueryX plainWire notesDb noteIR note ⟨fun _ => none, 0⟩ (some (.str "acme")) {} (.ok (page, [])) s ∧
      QueryX plainWire notesDb noteIR note s (some (.str "globex")) {} (.ok (page, [])) s ∧
      (∃ r ∈ page.entities, r note.partitionField = some "acme") ∧
      ¬∃ s', QueryX plainWire notesDb noteIR note ⟨fun _ => none, 0⟩ (some (.str "globex")) {} (.ok (page, [])) s' := by
  let page : QueryResponse String := ⟨[noteOf "1" "acme"], .empty⟩
  have hpage : Page plainWire notesDb note (some (.str "acme")) {} (.ok page) := by
    refine (page_plain_iff [] rfl).mpr ⟨[noteOf "1" "acme"], ?_, List.pairwise_singleton _ _, rfl⟩
    show List.Perm _ (notes.filter fun r => decide (Visible textPg note (some (.str "acme")) r))
    unfold notes
    rw [List.filter_cons_of_pos (by decide +kernel), List.filter_cons_of_neg (by decide +kernel), List.filter_nil]
  have hmiss : cacheHit plainWire note ⟨fun _ => none, 0⟩ {} = none := rfl
  let s := storePage plainWire notesDb note ⟨fun _ => none, 0⟩ {} page
  have hstorable : (pagePayload plainWire notesDb note page).Storable := by
    unfold Payload.Storable
    decide +kernel
  have hhit : cacheHit plainWire note s {} = some (pagePayload plainWire notesDb note page) :=
    cacheHit_storePage rfl rfl hstorable
  have hkeys : textGoDriver.bindKeys "id" (pagePayload plainWire notesDb note page).pks = .ok ["1"] := by
    decide +kernel
  have hbatch : sqlBatchGet notesDb note ["1"] = [noteOf "1" "acme"] := by
    show notes.filter _ = _
    unfold notes
    rw [List.filter_cons_of_pos (by decide +kernel), List.filter_cons_of_neg (by decide +kernel), List.filter_nil]
  have hfound : AssembleFromPKs plainWire notesDb note (pagePayload plainWire notesDb note page) (.ok page) :=
    .found (List.cons_ne_nil _ _) hkeys (by rw [hbatch])
  refine ⟨page, s, .answered hmiss hpage .nil, .hit hhit hfound, ⟨_, List.mem_cons_self, rfl⟩, ?_⟩
  intro hrun
  obtain ⟨res, hpage', hres⟩ := (exists_queryX_empty_iff rfl 0).mp hrun
  -- from an empty cache the second tenant gets what it may see
  obtain ⟨rows, hperm, _, rfl⟩ := (page_plain_iff [] rfl).mp hpage'
  have hpages := congrArg (fun p => p.1.entities) (Except.ok.inj hres)
  have hmem : noteOf "1" "acme" ∈ rows := by
    have hfirst : noteOf "1" "acme" ∈ page.entities := List.mem_cons_self
    rw [show page.entities = _ from hpages, trimPage_entities] at hfirst
    exact List.mem_of_mem_take (List.mem_of_mem_take hfirst)
  have hvisible := of_decide_eq_true (List.mem_filter.mp (hperm.mem_iff.mp hmem)).2
  have hnot : ¬Visible textPg note (some (.str "globex")) (noteOf "1" "acme") := by decide +kernel
  exact hnot hvisible

theorem keyColumn_notes : KeyColumn notesDb note where
  linear := textPg_linear "id"
  notNull r hr := by
    simp only [notesDb, notes, List.mem_cons, List.not_mem_nil, or_false] at hr
    rcases hr with rfl | rfl <;> rfl

theorem hitsAnswerLikeMisses_iff_notes :
    Validated noteIR ∧ plainWire.Faithful ∧ KeyColumn notesDb note ∧
      ((SingleLiveRow notesDb note → HitsAnswerLikeMisses plainWire notesDb noteIR note) ∧
        (EntriesFit plainWire notesDb note →
          (HitsAnswerLikeMisses plainWire notesDb noteIR note ↔ SingleLiveRow notesDb note))) :=
  have hv : Validated noteIR := by decide +kernel
  ⟨hv, plainWire_faithful, keyColumn_notes,
    hitsAnswerLikeMisses_iff hv (List.mem_singleton.mpr rfl) plainWire_faithful keyColumn_notes⟩

end Atlantis.Query
