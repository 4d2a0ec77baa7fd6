import Atlantis.Admin.Drift
import Atlantis.Admin.Registered

/-!
# `Admin.Readopt` — what "already adopted" is worth

`AdoptBaseline` answers that a submission has been adopted already when the last adopt record of every caller has the
hash of the files submitted now. The answer is about the registered files as long as these are the ones last adopted.
A rollback leaves the files alone; an apply replaces them and writes no adopt record. So along a history in which no
apply moves the files of a caller that has adopted, the answer is right (`alreadyAdopted_exact`), and after one that
does, the old files are "already adopted" while the new ones are registered.

The hash is taken over paths and content hashes with a NUL after each, so it tells lists of files apart only if no path
holds one.
-/

namespace Atlantis.Admin

open Schema Codegen Lib

/-! ## The hash -/

/-- Paths without NUL, contents among the known ones. -/
def PlainFiles (known : Source → Prop) (files : List SubmittedFile) : Prop :=
  ∀ f ∈ files, '\x00' ∉ f.path.toList ∧ known f.content

/-- No two of the known contents collide, and their hashes are hex. -/
structure Codec.TellsApart (C : Codec) (known : Source → Prop) : Prop extends C.CollisionFree where
  content : ∀ c c', known c → known c' → C.contentHash c = C.contentHash c' → c = c'
  hex : ∀ c, known c → '\x00' ∉ (C.contentHash c).toList

/-- One entry of the hashed text. -/
def hashEntry (t : String × String) : String := t.1 ++ "\x00" ++ t.2 ++ "\x00"

/-- The text determines its entries. -/
theorem join_hashEntry_inj {l l' : List (String × String)}
    (hl : ∀ t ∈ l, '\x00' ∉ t.1.toList ∧ '\x00' ∉ t.2.toList) (hl' : ∀ t ∈ l', '\x00' ∉ t.1.toList ∧ '\x00' ∉ t.2.toList)
    (h : String.join (l.map hashEntry) = String.join (l'.map hashEntry)) : l = l' := by
  have hlist := congrArg String.toList h
  clear h
  induction l generalizing l' with
  | nil =>
    cases l' with
    | nil => rfl
    | cons t' l' => simp [hashEntry] at hlist
  | cons t l ih =>
    cases l' with
    | nil => simp [hashEntry] at hlist
    | cons t' l' =>
      rw [List.forall_mem_cons] at hl hl'
      have htext : t.1.toList ++ '\x00' :: (t.2.toList ++ '\x00' :: (String.join (l.map hashEntry)).toList) =
          t'.1.toList ++ '\x00' :: (t'.2.toList ++ '\x00' :: (String.join (l'.map hashEntry)).toList) := by
        simpa [hashEntry] using hlist
      obtain ⟨hpath, hrest⟩ := append_cons_inj hl.1.1 hl'.1.1 htext
      obtain ⟨hhash, hrest⟩ := append_cons_inj hl.1.2 hl'.1.2 hrest
      rw [ih hl.2 hl'.2 hrest, Prod.ext (String.toList_inj.mp hpath) (String.toList_inj.mp hhash)]

variable {C : Codec} {known : Source → Prop}

/-- **The hash determines the files**, up to their order. -/
theorem perm_of_hashFiles {files files' : List SubmittedFile} (hC : C.TellsApart known) (hf : PlainFiles known files)
    (hf' : PlainFiles known files') (h : hashFiles C files = hashFiles C files') : files.Perm files' := by
  let pair := fun f : SubmittedFile => (f.path, C.contentHash f.content)
  have hplain : ∀ {fs : List SubmittedFile}, PlainFiles known fs →
      ∀ t ∈ (fs.map pair).insertionSort fun a b => a.1 ≤ b.1, '\x00' ∉ t.1.toList ∧ '\x00' ∉ t.2.toList := by
    intro fs hfs t ht
    obtain ⟨f, hmem, rfl⟩ := List.mem_map.mp ((List.perm_insertionSort _ _).mem_iff.mp ht)
    exact ⟨(hfs f hmem).1, hC.hex _ (hfs f hmem).2⟩
  have hsorted := join_hashEntry_inj (hplain hf) (hplain hf') (hC.injective h)
  have hpairs : (files.map pair).Perm (files'.map pair) := by
    refine (List.perm_insertionSort (fun a b => a.1 ≤ b.1) _).symm.trans ?_
    rw [hsorted]
    exact List.perm_insertionSort _ _
  -- equal pairs of known contents are equal files
  have hinj : Set.InjOn pair { f | known f.content } := by
    rintro ⟨path, c⟩ hc ⟨path', c'⟩ hc' heq
    obtain ⟨rfl, hhash⟩ := Prod.mk.inj heq
    rw [hC.content c c' hc hc' hhash]
  have : Nonempty SubmittedFile := ⟨⟨"", .ok { decls := [] }⟩⟩
  have hback : ∀ {fs : List SubmittedFile}, PlainFiles known fs →
      (fs.map pair).map (Function.invFunOn pair { f | known f.content }) = fs := by
    intro fs hfs
    rw [List.map_map]
    exact (List.map_congr_left fun f hmem => hinj.leftInvOn_invFunOn (hfs f hmem).2).trans (List.map_id fs)
  have := hpairs.map (Function.invFunOn pair { f | known f.content })
  rwa [hback hf, hback hf'] at this

/-! ## Histories with adoptions -/

/-- The calls that move files or checkpoint. -/
inductive FileCall where
  | schema (call : SchemaCall)
  | adopt (ord : RangeOrder) (host : Host) (subs : List CallerSubmission) (allowDrift : Bool)

/-- A call that commits. -/
def FileCall.commit (C : Codec) (db : Database) : FileCall → Option Database
  | .schema call => call.commit C db
  | .adopt ord host subs allowDrift =>
    match AdoptBaseline C ord host db subs allowDrift with
    | .ok (.written _ db') => some db'
    | _ => none

/-- Committed calls, from an empty database on. -/
def fileMachine (C : Codec) : Machine Database FileCall := ⟨(· = {}), FileCall.commit C⟩

/-- An apply by a caller that never adopted, or of the files it has registered; adoptions of plain files. -/
def KeepsAdopted (known : Source → Prop) (db : Database) : FileCall → Prop
  | .schema (.apply _ _ req) => lastAdoptHash db req.caller = none ∨ Unchanged db req.caller req.files
  | .schema (.rollback ..) => True
  | .adopt _ _ subs _ => ∀ s ∈ subs, PlainFiles known s.files

/-- The last adopt record of every caller is about the files it has registered. -/
def RecordsCurrent (C : Codec) (known : Source → Prop) (db : Database) : Prop :=
  ∀ caller h, lastAdoptHash db caller = some h →
    ∃ files, PlainFiles known files ∧ Unchanged db caller files ∧ hashFiles C files = h

variable {db : Database} {caller : String} {files : List SubmittedFile} {regs : List Registration}

/-- A submission leaves the files of the other callers alone. -/
theorem unchanged_other (h : upsertCallerFiles db.registrations caller files = .ok regs) {other : String}
    (hne : other ≠ caller) {fs : List SubmittedFile} (hfs : Unchanged db other fs) :
    Unchanged { db with registrations := regs } other fs := by
  have hsame : regs.filter (·.caller = other) = db.registrations.filter (·.caller = other) := by
    rw [upsertCallerFiles_ok h, List.filter_append, List.filter_filter]
    have hown : (registrationsOf caller files).filter (·.caller = other) = [] := by
      rw [List.filter_eq_nil_iff]
      intro r hr
      obtain ⟨f, _, rfl⟩ := List.mem_map.mp hr
      simpa using hne.symm
    rw [hown, List.append_nil]
    apply List.filter_congr
    intro r _
    by_cases hr : r.caller = other <;> simp [hr, hne]
  show (registrationsOf other fs).Perm (regs.filter (·.caller = other))
  rw [hsame]
  exact hfs

/-- An apply that submits what is registered. -/
theorem RecordsCurrent.apply (hrec : RecordsCurrent C known db)
    (hok : lastAdoptHash db caller = none ∨ Unchanged db caller files)
    (h : upsertCallerFiles db.registrations caller files = .ok regs) :
    RecordsCurrent C known { db with registrations := regs } := by
  intro other hash hlast
  obtain ⟨fs, hplain, hfs, hhash⟩ := hrec other hash hlast
  refine ⟨fs, hplain, ?_, hhash⟩
  by_cases hne : other = caller
  · subst hne
    rcases hok with hnone | hsame
    · exact absurd (hnone.symm.trans hlast) (by simp)
    · exact (hfs.trans hsame.symm).trans (unchanged_of_upsert h)
  · exact unchanged_other h hne hfs

/-- One submission of an adoption: files and record move together. -/
theorem RecordsCurrent.adopt (hrec : RecordsCurrent C known db) (hplain : PlainFiles known files)
    (h : upsertCallerFiles db.registrations caller files = .ok regs) :
    RecordsCurrent C known { db with
      registrations := regs, adoptions := db.adoptions ++ [(caller, hashFiles C files)] } := by
  intro other hash hlast
  unfold lastAdoptHash lastWith at hlast
  by_cases heq : caller = other
  · subst heq
    exact ⟨files, hplain, unchanged_of_upsert h, by simpa using hlast⟩
  · have hbefore : lastAdoptHash db other = some hash := by simpa [lastAdoptHash, lastWith, heq] using hlast
    obtain ⟨fs, hfs, hsame, hhash⟩ := hrec other hash hbefore
    exact ⟨fs, hfs, unchanged_other h (Ne.symm heq) hsame, hhash⟩

/-- **One call keeps the records current**, under its condition. -/
theorem RecordsCurrent.commit {db' : Database} {call : FileCall} (hrec : RecordsCurrent C known db)
    (hok : KeepsAdopted known db call) (h : call.commit C db = some db') : RecordsCurrent C known db' := by
  cases call with
  | schema call =>
    cases call with
    | apply ord host req =>
      obtain ⟨applied, happlied, rfl⟩ := Option.map_eq_some_iff.mp h
      obtain ⟨_, htx⟩ := ApplyMigration_ok (eq_ok_of_toOption happlied)
      obtain ⟨st, scripts, v, hst, _, _, _, rfl⟩ := applyTx_ok htx
      exact hrec.apply hok (stage_ok hst).1
    | rollback ord host caller toVersion =>
      obtain ⟨applied, happlied, rfl⟩ := Option.map_eq_some_iff.mp h
      obtain ⟨target, currentIR, v, _, _, _, hdb⟩ := RollbackSchema_ok (eq_ok_of_toOption happlied)
      rw [hdb]
      exact hrec
  | adopt ord host subs allowDrift =>
    unfold FileCall.commit at h
    simp only at h
    split at h
    case h_2 => cases h
    case h_1 drift db'' hadopt =>
      cases h
      rcases AdoptBaseline_ok hadopt with ⟨hout, _⟩ | ⟨_, hout⟩ | ⟨_, regs, v, hfold, hout⟩ <;> cases hout
      -- submission by submission
      have hrun : RecordsCurrent C known { db with
          registrations := regs, adoptions := db.adoptions ++ subs.map fun s => (s.caller, hashFiles C s.files) } := by
        refine foldlM_invariant (I := fun pre regs => RecordsCurrent C known { db with
          registrations := regs, adoptions := db.adoptions ++ pre.map fun s => (s.caller, hashFiles C s.files) }) ?_ ?_ hfold
        · rw [List.map_nil, List.append_nil]
          exact hrec
        · intro pre s rest regs₁ regs₂ hsubs hpre hupsert
          have hmem : s ∈ subs := by simp [hsubs]
          have hnext := hpre.adopt (hok s hmem) hupsert
          simpa using hnext
      exact hrun

/-- **"Already adopted" is right** along every history that keeps the adopted files: the files registered for each
    submitted caller are the submitted ones. -/
theorem alreadyAdopted_exact {C : Codec} {known : Source → Prop} (hC : C.TellsApart known) {db : Database}
    (h : (fileMachine C).Reach (KeepsAdopted known) db) {ord : RangeOrder} {host : Host} {subs : List CallerSubmission}
    {allowDrift : Bool} (hsubs : ∀ s ∈ subs, PlainFiles known s.files)
    (hanswer : AdoptBaseline C ord host db subs allowDrift = .ok .alreadyAdopted) :
    ∀ s ∈ subs, Unchanged db s.caller s.files := by
  have hrec : RecordsCurrent C known db := by
    refine Machine.Reach.invariant ?_ ?_ h
    · rintro s rfl caller hash hlast
      cases hlast
    · intro s call t hs hok hstep
      exact hs.commit hok hstep
  rcases AdoptBaseline_ok hanswer with ⟨_, hmatch⟩ | ⟨_, hout⟩ | ⟨_, _, _, _, hout⟩
  case inr.inl => cases hout
  case inr.inr => cases hout
  intro s hs
  obtain ⟨files, hplain, hsame, hhash⟩ := hrec s.caller _ (hmatch s hs)
  have hperm := perm_of_hashFiles hC (hsubs s hs) hplain hhash.symm
  exact (hperm.map _).trans hsame

/-- One file of the shop. -/
def shopFile (decls : List EntityDecl) : List CallerSubmission := [⟨"shop", [⟨"shop.atl", .ok { decls }⟩]⟩]

theorem alreadyAdopted_shopFile {db : Database}
    (h : lastAdoptHash db "shop" = some (hashFiles plainCodec [⟨"shop.atl", .ok { decls := [itemDecl] }⟩])) :
    AdoptBaseline plainCodec insertionOrder {} db (shopFile [itemDecl]) false = .ok .alreadyAdopted := by
  simp [AdoptBaseline, shopFile, h, require]
  rfl

/-- **An apply between two adoptions**: the old file is "already adopted", and the new one is registered. -/
theorem applied_over_alreadyAdopted : ∃ db, (fileMachine plainCodec).Reachable db ∧
    AdoptBaseline plainCodec insertionOrder {} db (shopFile [itemDecl]) false = .ok .alreadyAdopted ∧
    ¬ ∀ s ∈ shopFile [itemDecl], Unchanged db s.caller s.files := by
  obtain ⟨db, hdb, hlast, hregs⟩ : ∃ db, (fileMachine plainCodec).run {}
      [.adopt insertionOrder {} (shopFile [itemDecl]) false, .schema (shopApply "" [itemDecl, orderDecl])] = some db ∧
      lastAdoptHash db "shop" = some (hashFiles plainCodec [⟨"shop.atl", .ok { decls := [itemDecl] }⟩]) ∧
      ¬ ∀ s ∈ shopFile [itemDecl], (registrationsOf s.caller s.files).Perm (db.registrations.filter (·.caller = s.caller)) := by
    decide +kernel
  exact ⟨db, Machine.reachable_of_run (.initial rfl) hdb, alreadyAdopted_shopFile hlast, hregs⟩

/-- Adopting one file twice. -/
theorem alreadyAdopted_exact_shop : ∃ db, (fileMachine plainCodec).Reach (KeepsAdopted (· = .ok { decls := [itemDecl] })) db ∧
    ∀ s ∈ shopFile [itemDecl], Unchanged db s.caller s.files := by
  have hplain : ∀ s ∈ shopFile [itemDecl], PlainFiles (· = .ok { decls := [itemDecl] }) s.files := by
    unfold PlainFiles
    decide +kernel
  have hcodec : plainCodec.TellsApart (· = .ok { decls := [itemDecl] }) := by
    refine ⟨plainCodec_collisionFree, fun c c' hc hc' _ => hc.trans hc'.symm, ?_⟩
    rintro c rfl
    decide +kernel
  obtain ⟨db, hdb, hlast⟩ :
      ∃ db, (fileMachine plainCodec).step {} (.adopt insertionOrder {} (shopFile [itemDecl]) false) = some db ∧
        lastAdoptHash db "shop" = some (hashFiles plainCodec [⟨"shop.atl", .ok { decls := [itemDecl] }⟩]) := by
    decide +kernel
  have hkeeps : KeepsAdopted (· = .ok { decls := [itemDecl] }) {} (.adopt insertionOrder {} (shopFile [itemDecl]) false) := hplain
  have hreach := Machine.Reach.step (.initial rfl) hkeeps hdb
  exact ⟨db, hreach, alreadyAdopted_exact hcodec hreach hplain (alreadyAdopted_shopFile hlast)⟩

end Atlantis.Admin
