import Mathlib.Data.List.Induction
import Mathlib.Data.List.Perm.Subperm
import Mathlib.Data.List.Pairwise

/-!
# `Lib.Paging` — walking through a list page by page

A server that pages does not keep the rest of the result. It sorts what matches, cuts off a page, and hands
out a cursor made from the page's last element; the next page is what follows that cursor, sorted again. So
the order of the sort and the relation *follows the cursor* are two things, and the walk visits everything
once only if they fit together.

`visitsOnce_iff` says what fitting together is, when *follows* is a strict partial order: of every two
elements that may come in this order, the first one has a cursor and the second one follows it. One direction
carries the rest of the sorted list along the walk. For the other one, a walk in steps of one element goes
along a sorted arrangement as long as the elements fit, and at the first element that does not fit it leaves
something out for good: whatever is visited from there on follows that element, by transitivity.
-/

namespace Atlantis.Lib

variable {α : Type} (M : List α) (before follows : α → α → Bool) (issues : α → Bool) (allowed : Nat → Prop)

/-- No element stands behind one it sorts before. -/
def Arranged (rows : List α) : Prop := rows.Pairwise fun r s => before s r = false

/-- The cursor of a page: its last element, if something is left and the element has one. -/
def boundary (rows : List α) (limit : Nat) : Option α :=
  if rows.length > limit then (rows[limit - 1]?).filter issues else none

/-- What has been visited so far, and the cursor to go on from. -/
inductive Walk : List α → Option α → Prop where
  | first {rows : List α} {limit : Nat} (hrows : rows.Perm M) (hsorted : Arranged before rows)
      (hlimit : allowed limit) : Walk (rows.take limit) (boundary issues rows limit)
  | next {done rows : List α} {c : α} {limit : Nat} (hwalk : Walk done (some c))
      (hrows : rows.Perm (M.filter (follows c))) (hsorted : Arranged before rows) (hlimit : allowed limit) :
      Walk (done ++ rows.take limit) (boundary issues rows limit)

/-- **Everything is visited exactly once**: nothing twice on the way, everything where the walk ends, and as
    long as it goes on there is something on the next page. -/
def VisitsOnce : Prop :=
  ∀ done c, Walk M before follows issues allowed done c →
    done.Subperm M ∧ (c = none → done.Perm M) ∧ ∀ x ∈ c, M.filter (follows x) ≠ []

/-- If `r` may come before `s`, then `r` has a cursor and `s` follows it. -/
def Fits (r s : α) : Prop := before s r = false → issues r = true ∧ follows r s = true

/-- The sort is a total preorder, and *follows* a strict partial order. -/
structure PagingOrder : Prop where
  before_asymm : ∀ r s, before r s = true → before s r = false
  not_before_trans : ∀ r s t, before s r = false → before t s = false → before t r = false
  follows_irrefl : ∀ r, follows r r = false
  follows_asymm : ∀ {r s}, follows r s = true → follows s r = false
  follows_trans : ∀ {r s t}, follows r s = true → follows s t = true → follows r t = true
  one : allowed 1
  pos : ∀ {n}, allowed n → 0 < n

variable {M before follows issues allowed}

variable {limit : Nat} {rows done rest : List α} {x : α}

/-- Elements can be arranged, and two that may come in the order they have keep it. -/
theorem exists_arranged (before : α → α → Bool) (hasymm : ∀ r s, before r s = true → before s r = false)
    (htrans : ∀ r s t, before s r = false → before t s = false → before t r = false) (rows : List α) :
    ∃ rows' : List α, rows'.Perm rows ∧ Arranged before rows' ∧
      ∀ r s, before s r = false → [r, s].Sublist rows → [r, s].Sublist rows' := by
  let le : α → α → Bool := fun r s => !before s r
  have hle : ∀ r s, le r s = true ↔ before s r = false := fun r s => Bool.not_eq_eq_eq_not
  have htrans : ∀ a b c : α, le a b = true → le b c = true → le a c = true := by
    intro a b c hab hbc
    exact (hle a c).mpr (htrans a b c ((hle a b).mp hab) ((hle b c).mp hbc))
  have htotal : ∀ a b : α, (le a b || le b a) = true := by
    intro a b
    cases hba : before b a with
    | false => simp [le, hba]
    | true => simp [le, hasymm b a hba]
  refine ⟨rows.mergeSort le, List.mergeSort_perm rows le, ?_, ?_⟩
  · exact (List.pairwise_mergeSort htrans htotal rows).imp fun {r s} => (hle r s).mp
  · intro r s hrs
    exact List.pair_sublist_mergeSort htrans htotal ((hle r s).mpr hrs)

/-- A page takes all there is, or ends in an element with something behind it. -/
theorem page_cases (issues : α → Bool) (rows : List α) (hlimit : 0 < limit) :
    (rows.take limit = rows ∧ rows.drop limit = [] ∧ boundary issues rows limit = none) ∨
      ∃ page x rest, rows = page ++ x :: rest ∧ rest ≠ [] ∧ rows.take limit = page ++ [x] ∧
        rows.drop limit = rest ∧ boundary issues rows limit = if issues x then some x else none := by
  by_cases hlen : rows.length > limit
  · right
    have hlt : limit - 1 < rows.length := by omega
    have hsucc : limit = limit - 1 + 1 := by omega
    have hdrop : rows.drop (limit - 1) = rows[limit - 1] :: rows.drop limit := by
      rw [List.drop_eq_getElem_cons hlt, ← hsucc]
    refine ⟨rows.take (limit - 1), rows[limit - 1], rows.drop limit, ?_, ?_, ?_, rfl, ?_⟩
    · rw [← hdrop, List.take_append_drop]
    · intro hnil
      have hle := List.drop_eq_nil_iff.mp hnil
      omega
    · rw [List.take_append_getElem hlt, ← hsucc]
    · unfold boundary
      rw [if_pos hlen, List.getElem?_eq_getElem hlt, Option.filter_some]
  · left
    refine ⟨List.take_of_length_le (by omega), List.drop_eq_nil_of_le (by omega), ?_⟩
    unfold boundary
    rw [if_neg hlen]

/-- The element a walk goes on from has a cursor. -/
theorem issues_of_boundary (h : boundary issues rows limit = some x) : issues x = true := by
  unfold boundary at h
  split at h
  · exact (Option.filter_eq_some_iff.mp h).2
  · cases h

theorem Walk.cursor_issues (h : Walk M before follows issues allowed done (some x)) : issues x = true := by
  generalize hc : some x = c at h
  cases h with
  | first _ _ _ => exact issues_of_boundary hc.symm
  | next _ _ _ _ => exact issues_of_boundary hc.symm

/-! ## Where the two orders fit -/

/-- Both ways round. -/
def FitTogether (before follows : α → α → Bool) (issues : α → Bool) (rows : List α) : Prop :=
  rows.Pairwise fun r s => Fits before follows issues r s ∧ Fits before follows issues s r

theorem FitTogether.perm {rows' : List α} (hperm : rows.Perm rows') (h : FitTogether before follows issues rows) :
    FitTogether before follows issues rows' :=
  hperm.pairwise h fun hrs => ⟨hrs.2, hrs.1⟩

/-- In an arrangement, what comes later follows what comes earlier. -/
theorem FitTogether.arranged (h : FitTogether before follows issues rows) (hsorted : Arranged before rows) :
    rows.Pairwise fun r s => issues r = true ∧ follows r s = true :=
  (h.and hsorted).imp fun ⟨hfits, hbefore⟩ => hfits.1 hbefore

/-- The page after `x` is the rest of the arrangement. -/
theorem filter_follows (ho : PagingOrder before follows allowed) (hdone : ∀ d ∈ done, follows d x = true)
    (hrest : ∀ s ∈ rest, follows x s = true) : (done ++ x :: rest).filter (follows x) = rest := by
  have hnone : done.filter (follows x) = [] := by
    rw [List.filter_eq_nil_iff]
    intro d hd
    rw [ho.follows_asymm (hdone d hd)]
    exact Bool.false_ne_true
  rw [List.filter_append, hnone, List.filter_cons, ho.follows_irrefl, List.nil_append]
  exact List.filter_eq_self.mpr hrest

/-- The state of a walk where the orders fit: what is left, and the cursor in front of it. -/
structure OnTrack (M : List α) (before : α → α → Bool) (done : List α) (c : Option α) (rest : List α) : Prop where
  perm : (done ++ rest).Perm M
  sorted : Arranged before (done ++ rest)
  ended : c = none → rest = []
  cursor : ∀ x ∈ c, rest ≠ [] ∧ ∃ done', done = done' ++ [x]

/-- A page that is cut off an arrangement. -/
theorem onTrack_page (hfit : FitTogether before follows issues M) (hperm : (done ++ rows).Perm M)
    (hsorted : Arranged before (done ++ rows)) (hlimit : 0 < limit) :
    OnTrack M before (done ++ rows.take limit) (boundary issues rows limit) (rows.drop limit) := by
  have happ : done ++ rows.take limit ++ rows.drop limit = done ++ rows := by
    rw [List.append_assoc, List.take_append_drop]
  have hlater := (hfit.perm hperm.symm).arranged hsorted
  rcases page_cases issues rows hlimit with ⟨_, hdrop, hnone⟩ | ⟨page, x, rest, hrows, hne, htake, hdrop, hc⟩
  · refine ⟨happ ▸ hperm, happ ▸ hsorted, fun _ => hdrop, fun x hx => ?_⟩
    rw [hnone] at hx
    cases hx
  · -- something is left, so the last element of the page has a cursor
    have hissues : issues x = true := by
      obtain ⟨s, rest', rfl⟩ := List.exists_cons_of_ne_nil hne
      rw [hrows] at hlater
      have hx := (List.pairwise_append.mp (List.pairwise_append.mp hlater).2.1).2.1
      exact ((List.pairwise_cons.mp hx).1 s (by simp)).1
    rw [hissues, if_pos rfl] at hc
    refine ⟨happ ▸ hperm, happ ▸ hsorted, fun hnone => ?_, fun y hy => ?_⟩
    · rw [hc] at hnone
      cases hnone
    · rw [hc] at hy
      cases hy
      refine ⟨hdrop ▸ hne, done ++ page, ?_⟩
      rw [htake, List.append_assoc]

variable (ho : PagingOrder before follows allowed)

include ho

/-- **Along a walk the rest of an arrangement is left.** -/
theorem Walk.onTrack (hfit : FitTogether before follows issues M) {c : Option α}
    (h : Walk M before follows issues allowed done c) : ∃ rest, OnTrack M before done c rest := by
  induction h with
  | @first rows limit hrows hsorted hlimit =>
    have hpage := @onTrack_page α M before follows issues limit rows [] hfit hrows hsorted (ho.pos hlimit)
    exact ⟨_, hpage⟩
  | @next done rows c limit _ hrows hsorted hlimit ih =>
    obtain ⟨rest, htrack⟩ := ih
    obtain ⟨_, done', rfl⟩ := htrack.cursor c rfl
    -- the next page is made of exactly what is left
    have hlater := (hfit.perm htrack.perm.symm).arranged htrack.sorted
    rw [List.append_assoc, List.singleton_append] at hlater
    obtain ⟨_, hx, hcross⟩ := List.pairwise_append.mp hlater
    have hrest : (done' ++ c :: rest).filter (follows c) = rest :=
      filter_follows ho (fun d hd => (hcross d hd c (by simp)).2) fun s hs => ((List.pairwise_cons.mp hx).1 s hs).2
    have hleft : rows.Perm rest := by
      have hfilter := (htrack.perm.filter (follows c)).symm
      rw [List.append_assoc, List.singleton_append, hrest] at hfilter
      exact hrows.trans hfilter
    have hperm : (done' ++ [c] ++ rows).Perm M := (hleft.append_left _).trans htrack.perm
    have harranged : Arranged before (done' ++ [c] ++ rows) := by
      obtain ⟨hdone, _, hcross'⟩ := List.pairwise_append.mp htrack.sorted
      exact List.pairwise_append.mpr ⟨hdone, hsorted, fun d hd r hr => hcross' d hd r (hleft.mem_iff.mp hr)⟩
    exact ⟨_, onTrack_page hfit hperm harranged (ho.pos hlimit)⟩

/-- **Where the orders fit, everything is visited once.** -/
theorem FitTogether.visitsOnce (hfit : FitTogether before follows issues M) :
    VisitsOnce M before follows issues allowed := by
  intro done c h
  obtain ⟨rest, htrack⟩ := h.onTrack ho hfit
  refine ⟨?_, ?_, ?_⟩
  · exact (List.sublist_append_left done rest).subperm.trans htrack.perm.subperm
  · intro hnone
    have hperm := htrack.perm
    rwa [htrack.ended hnone, List.append_nil] at hperm
  · intro x hx
    obtain ⟨hne, done', rfl⟩ := htrack.cursor x hx
    obtain ⟨s, rest', rfl⟩ := List.exists_cons_of_ne_nil hne
    have hlater := (hfit.perm htrack.perm.symm).arranged htrack.sorted
    have hfollows := (List.pairwise_append.mp hlater).2.2 x (by simp) s (by simp)
    apply List.ne_nil_of_mem (a := s)
    exact List.mem_filter.mpr ⟨htrack.perm.mem_iff.mp (by simp), hfollows.2⟩

/-! ## Where they do not -/

section Visits

variable (hv : VisitsOnce M before follows issues allowed)

include hv

/-- A walk can be finished, and whatever is still visited follows the cursor. -/
theorem Walk.finish {c : α} (h : Walk M before follows issues allowed done (some c)) :
    ∃ more, Walk M before follows issues allowed (done ++ more) none ∧ ∀ s ∈ more, follows c s = true := by
  induction hleft : M.length - done.length using Nat.strongRecOn generalizing done c with
  | ind n ih =>
    obtain ⟨rows, hperm, hsorted, -⟩ := exists_arranged before ho.before_asymm ho.not_before_trans (M.filter (follows c))
    have hne : rows ≠ [] := by
      rintro rfl
      exact (hv _ _ h).2.2 c rfl (List.nil_perm.mp hperm)
    obtain ⟨y, rest, rfl⟩ := List.exists_cons_of_ne_nil hne
    have hy : follows c y = true := (List.mem_filter.mp (hperm.mem_iff.mp (by simp))).2
    -- one element on
    have hstep : Walk M before follows issues allowed (done ++ [y]) (boundary issues (y :: rest) 1) :=
      .next h hperm hsorted ho.one
    cases hb : boundary issues (y :: rest) 1 with
    | none =>
      rw [hb] at hstep
      exact ⟨[y], hstep, by simpa using hy⟩
    | some z =>
      rw [hb] at hstep
      have hz : z = y := by
        obtain ⟨_, hb⟩ := Option.ite_none_right_eq_some.mp hb
        obtain ⟨hget, _⟩ := Option.filter_eq_some_iff.mp hb
        exact (Option.some.inj hget).symm
      subst hz
      have hlt : M.length - (done ++ [z]).length < n := by
        have hle := (hv _ _ hstep).1.length_le
        rw [List.length_append, List.length_singleton] at hle ⊢
        omega
      obtain ⟨more, hmore, hfollows⟩ := ih _ hlt hstep rfl
      refine ⟨z :: more, ?_, ?_⟩
      · rwa [List.append_assoc] at hmore
      · intro s hs
        rcases List.mem_cons.mp hs with rfl | hs
        · exact hy
        · exact ho.follows_trans hy (hfollows s hs)

/-- Where a walk has gone along an arrangement up to `x`, the rest of it follows `x`. -/
theorem Walk.rest_follows (hperm : (done ++ x :: rest).Perm M) (hne : rest ≠ [])
    (h : Walk M before follows issues allowed (done ++ [x]) (boundary issues (x :: rest) 1)) :
    Walk M before follows issues allowed (done ++ [x]) (some x) ∧ issues x = true ∧
      ∀ s ∈ rest, follows x s = true := by
  have happ : done ++ x :: rest = done ++ [x] ++ rest := by rw [List.append_assoc, List.singleton_append]
  have hpos : 0 < rest.length := List.length_pos_iff.mpr hne
  have hb : boundary issues (x :: rest) 1 = if issues x then some x else none := by
    unfold boundary
    rw [if_pos (by rw [List.length_cons]; omega)]
    exact Option.filter_some
  rw [hb] at h
  have hissues : issues x = true := by
    by_contra hno
    rw [if_neg hno] at h
    -- the walk would end here, with the rest left out
    have hall := ((hv _ _ h).2.1 rfl).trans hperm.symm
    have hlen := hall.length_eq
    rw [happ] at hlen
    simp only [List.length_append] at hlen
    omega
  rw [if_pos hissues] at h
  refine ⟨h, hissues, fun s hs => ?_⟩
  obtain ⟨more, hend, hmore⟩ := h.finish ho hv
  have hsame := ((hv _ _ hend).2.1 rfl).trans hperm.symm
  rw [happ] at hsame
  exact hmore s (((List.perm_append_left_iff _).mp hsame).mem_iff.mpr hs)

/-- **A walk in steps of one goes along every arrangement**, up to its last element. -/
theorem walk_along (done : List α) (hperm : (done ++ x :: rest).Perm M) (hsorted : Arranged before (done ++ x :: rest))
    (hne : rest ≠ []) :
    Walk M before follows issues allowed (done ++ [x]) (some x) ∧ issues x = true ∧
      (∀ s ∈ rest, follows x s = true) ∧ ∀ d ∈ done, ∀ s ∈ x :: rest, follows d s = true := by
  induction done using List.reverseRecOn generalizing x rest with
  | nil =>
    have hwalk : Walk M before follows issues allowed ([] ++ [x]) (boundary issues (x :: rest) 1) :=
      .first hperm hsorted ho.one
    obtain ⟨hx, hissues, hrest⟩ := hwalk.rest_follows ho hv hperm hne
    exact ⟨hx, hissues, hrest, List.forall_mem_nil _⟩
  | append_singleton done y ih =>
    have happ : done ++ [y] ++ x :: rest = done ++ y :: x :: rest := by simp
    rw [happ] at hperm hsorted
    obtain ⟨hwalk, -, hy, hdone⟩ := ih hperm hsorted (List.cons_ne_nil _ _)
    -- the page after `y` is the arrangement from `x` on
    have hpage : (x :: rest).Perm (M.filter (follows y)) := by
      have hfilter := hperm.filter (follows y)
      rwa [filter_follows ho (fun d hd => hdone d hd y List.mem_cons_self) hy] at hfilter
    have htail : Arranged before (x :: rest) := (List.pairwise_cons.mp (List.pairwise_append.mp hsorted).2.1).2
    have hnext : Walk M before follows issues allowed (done ++ [y] ++ [x]) (boundary issues (x :: rest) 1) :=
      .next hwalk hpage htail ho.one
    obtain ⟨hx, hissues, hrest⟩ := hnext.rest_follows ho hv (happ ▸ hperm) hne
    refine ⟨hx, hissues, hrest, fun d hd s hs => ?_⟩
    rcases List.mem_append.mp hd with hd | hd
    · exact hdone d hd s (List.mem_cons_of_mem _ hs)
    · rw [List.mem_singleton.mp hd]
      exact hy s hs

/-- In every arrangement, what comes later follows what comes earlier. -/
theorem VisitsOnce.arranged (hperm : rows.Perm M) (hsorted : Arranged before rows) :
    rows.Pairwise fun r s => issues r = true ∧ follows r s = true := by
  -- for every element with something behind it, by the walk up to it
  apply List.pairwise_iff_forall_sublist.mpr
  intro x s hsub
  obtain ⟨front, back, rfl, hx, hs⟩ := List.cons_sublist_iff.mp hsub
  obtain ⟨done, rest, rfl⟩ := List.append_of_mem hx
  rw [List.append_assoc, List.cons_append] at hperm hsorted
  have hs : s ∈ rest ++ back := List.mem_append_right _ (List.singleton_sublist.mp hs)
  obtain ⟨-, hissues, hrest, -⟩ := walk_along ho hv done hperm hsorted (List.ne_nil_of_mem hs)
  exact ⟨hissues, hrest s hs⟩

end Visits

/-- **When a walk visits everything once.** -/
theorem visitsOnce_iff : VisitsOnce M before follows issues allowed ↔ FitTogether before follows issues M := by
  refine ⟨fun hv => ?_, fun h => h.visitsOnce ho⟩
  -- of two elements that may come in this order, there is an arrangement that has them in this order
  have hfits : ∀ r s, [r, s].Subperm M → Fits before follows issues r s := by
    intro r s hsub hbefore
    obtain ⟨rows, hrows, hsub⟩ := List.subperm_iff.mp hsub
    obtain ⟨rows', hperm, hsorted, hkeep⟩ := exists_arranged before ho.before_asymm ho.not_before_trans rows
    have hlater := hv.arranged ho (hperm.trans hrows) hsorted
    exact List.pairwise_iff_forall_sublist.mp hlater (hkeep r s hbefore hsub)
  apply List.pairwise_iff_forall_sublist.mpr
  intro r s hsub
  have hswap : [s, r].Subperm M := (List.Perm.swap r s []).subperm.trans hsub.subperm
  exact ⟨hfits r s hsub.subperm, hfits s r hswap⟩

end Atlantis.Lib
