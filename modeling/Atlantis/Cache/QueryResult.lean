import Mathlib.Data.List.Sort
import Atlantis.Lib.Fold
import Atlantis.Lib.Varint

/-!
# `Cache.QueryResult` — the tier-2 cache

`internal/cache/queryresult`: a cache entry is the list of a page's primary keys and its next-page token,
under a key that hashes the request. Marshalled messages are byte strings here, and the digest (SHA-256, cut
to sixteen bytes, in base64url) is a function of the preimage that the users of this module assume about what
they need.

Two facts carry over to the users. The preimage determines the request's parts (`canonical_inj`): each part is
a code word of a prefix-free code. And what is read from under a key is what was stored there, or nothing
(`decodePayload_ok_iff`, `decodePayload_complete`): the caps decide which.
-/

namespace Atlantis.Cache

open Lib

/-! ## The key -/

/-- The arguments of `Hash`, with the messages marshalled; a nil message and an empty one are both `[]`. -/
structure HashInput where
  entityID : Bytes
  filter : Bytes
  orders : List Bytes
  limit : Int32
  pageToken : Bytes
  fields : Bytes
  includes : List Int32
  generation : Int64
  deriving DecidableEq

/-- `sortInt32`, an insertion sort. -/
def sortInt32 (s : List Int32) : List Int32 := s.insertionSort (· ≤ ·)

/-- What `Hash` feeds to the digest: `writeSegmentBytes` is `frame`, `writeSegmentInt` is `varint`. -/
def canonical (x : HashInput) : Bytes :=
  frame x.entityID ++ (frame x.filter
    ++ (varint x.orders.length ++ (x.orders.flatMap frame
    ++ (varint x.limit.toInt
    ++ (frame x.pageToken
    ++ (frame x.fields
    ++ (varint x.includes.length ++ ((sortInt32 x.includes).flatMap (fun v => varint v.toInt)
    ++ varint x.generation.toInt))))))))

/-- `Hash`. -/
def Hash (digest : Bytes → String) (x : HashInput) : String := digest (canonical x)

/-- A digest that forgets nothing. -/
def plainDigest (b : Bytes) : String := String.ofList (b.map fun x => Char.ofNat x.toNat)

theorem plainDigest_inj (b b' : Bytes) (h : plainDigest b = plainDigest b') : b = b' := by
  refine List.map_injective_iff.mpr ?_ (String.ofList_injective h)
  intro x y hxy
  have hvalid : ∀ z : UInt8, z.toNat.isValidChar := fun z => .inl (by have := z.toNat_lt; omega)
  have hnat : ∀ z : UInt8, (Char.ofNat z.toNat).toNat = z.toNat := by
    intro z
    rw [Char.ofNat, dif_pos (hvalid z)]
    rfl
  exact UInt8.toNat_inj.mp ((hnat x).symm.trans ((congrArg Char.toNat hxy).trans (hnat y)))

/-- `runtime.QueryResultKey`. -/
def QueryResultKey (entity hash : String) : String := "atl:v2:" ++ entity ++ ":q:" ++ hash

theorem int32_prefixFree : PrefixFree fun v : Int32 => varint v.toInt :=
  varint_prefixFree.comp fun _ _ h => Int32.toInt_inj.mp h

theorem int64_prefixFree : PrefixFree fun v : Int64 => varint v.toInt :=
  varint_prefixFree.comp fun _ _ h => Int64.toInt_inj.mp h

theorem length_prefixFree : PrefixFree fun n : Nat => varint n :=
  varint_prefixFree.comp fun _ _ h => Int.ofNat.inj h

/-- **The preimage determines the request**, up to the order of the includes: the parts are taken off it from
    the left, each a word of a prefix-free code. -/
theorem canonical_inj {x y : HashInput} (h : canonical x = canonical y) :
    x.entityID = y.entityID ∧ x.filter = y.filter ∧ x.orders = y.orders ∧ x.limit = y.limit ∧
      x.pageToken = y.pageToken ∧ x.fields = y.fields ∧ sortInt32 x.includes = sortInt32 y.includes ∧
      x.generation = y.generation := by
  unfold canonical at h
  obtain ⟨hentity, h⟩ := frame_prefixFree _ _ _ _ h
  obtain ⟨hfilter, h⟩ := frame_prefixFree _ _ _ _ h
  obtain ⟨hlen, h⟩ := length_prefixFree _ _ _ _ h
  obtain ⟨horders, h⟩ := frame_prefixFree.flatMap hlen h
  obtain ⟨hlimit, h⟩ := int32_prefixFree _ _ _ _ h
  obtain ⟨htoken, h⟩ := frame_prefixFree _ _ _ _ h
  obtain ⟨hfields, h⟩ := frame_prefixFree _ _ _ _ h
  obtain ⟨hcount, h⟩ := length_prefixFree _ _ _ _ h
  have hsorted : (sortInt32 x.includes).length = (sortInt32 y.includes).length := by
    unfold sortInt32
    rw [List.length_insertionSort, List.length_insertionSort]
    exact hcount
  obtain ⟨hincludes, h⟩ := int32_prefixFree.flatMap hsorted h
  obtain ⟨hgen, _⟩ := int64_prefixFree x.generation y.generation [] [] (by simpa using h)
  exact ⟨hentity, hfilter, horders, hlimit, htoken, hfields, hincludes, hgen⟩

/-! ### The messages behind the bytes -/

/-- The messages of a type that can be marshalled, and their deterministic marshalling. -/
structure Marshal (Msg : Type) where
  bytes : Msg → Bytes
  bytes_inj : Function.Injective bytes
  empty : Msg
  bytes_empty : bytes empty = []

variable {Filter Order : Bytes → Type} {FieldMask : Type}

/-- `writeSegmentProto`, before the frame. -/
def Marshal.segment {Msg : Type} (m : Marshal Msg) : Option Msg → Bytes
  | none => []
  | some msg => m.bytes msg

theorem Marshal.segment_eq {Msg : Type} (m : Marshal Msg) : m.segment = fun x => m.bytes (x.getD m.empty) := by
  funext x
  cases x with
  | none => exact m.bytes_empty.symm
  | some msg => rfl

/-- The arguments of `Hash`; an entity has its own types of filters and of orders. -/
structure HashRequest (Filter Order : Bytes → Type) (FieldMask : Type) where
  entityID : Bytes
  filter : Option (Filter entityID)
  orders : List (Option (Order entityID))
  limit : Int32
  pageToken : Bytes
  fields : Option FieldMask
  includes : List Int32
  generation : Int64

namespace HashRequest

variable (F : ∀ id, Marshal (Filter id)) (O : ∀ id, Marshal (Order id)) (M : Marshal FieldMask)

def input (r : HashRequest Filter Order FieldMask) : HashInput :=
  { r with
    filter := (F r.entityID).segment r.filter
    orders := r.orders.map (O r.entityID).segment
    fields := M.segment r.fields }

/-- Empty messages for nil ones, and the includes sorted. -/
def normal (r : HashRequest Filter Order FieldMask) : HashRequest Filter Order FieldMask :=
  { r with
    filter := some (r.filter.getD (F r.entityID).empty)
    orders := (r.orders.map (·.getD (O r.entityID).empty)).map some
    fields := some (r.fields.getD M.empty)
    includes := sortInt32 r.includes }

end HashRequest

/-- **Different queries get different cache entries**, up to nil messages and the order of the includes: no byte moves
    from one segment into another. -/
theorem normal_eq_of_Hash_eq (F : ∀ id, Marshal (Filter id)) (O : ∀ id, Marshal (Order id)) (M : Marshal FieldMask)
    {digest : Bytes → String} (hdigest : Function.Injective digest) {x y : HashRequest Filter Order FieldMask}
    (h : Hash digest (x.input F O M) = Hash digest (y.input F O M)) : x.normal F O M = y.normal F O M := by
  obtain ⟨id, filter, orders, limit, token, fields, includes, generation⟩ := x
  obtain ⟨id', filter', orders', limit', token', fields', includes', generation'⟩ := y
  obtain ⟨hid, hfilter, horders, hlimit, htoken, hfields, hincludes, hgeneration⟩ := canonical_inj (hdigest h)
  cases hid
  cases hlimit
  cases htoken
  cases hgeneration
  simp only [HashRequest.input, Marshal.segment_eq] at hfilter horders hfields hincludes
  have horders : orders.map (fun o => o.getD (O id).empty) = orders'.map (fun o => o.getD (O id).empty) := by
    apply List.map_injective_iff.mpr (O id).bytes_inj
    rw [List.map_map, List.map_map]
    exact horders
  simp only [HashRequest.normal, (F id).bytes_inj hfilter, M.bytes_inj hfields, hincludes, horders]

private def plainMarshal : Marshal Bytes := ⟨id, Function.injective_id, [], rfl⟩

private def notesPage (filter : Option Bytes) (includes : List Int32) : HashRequest (fun _ => Bytes) (fun _ => Bytes) Bytes :=
  ⟨[110], filter, [some [1], none], 50, [], none, includes, 7⟩

/-- Without a filter, and with an empty one and the includes the other way round. -/
theorem normal_eq_of_Hash_eq_notes :
    (notesPage none [2, 1]).normal (fun _ => plainMarshal) (fun _ => plainMarshal) plainMarshal
      = (notesPage (some []) [1, 2]).normal (fun _ => plainMarshal) (fun _ => plainMarshal) plainMarshal := by
  refine normal_eq_of_Hash_eq _ _ _ plainDigest_inj ?_
  have hsort : sortInt32 [2, 1] = sortInt32 [1, 2] := by decide
  unfold Hash canonical
  simp only [HashRequest.input, notesPage, hsort]
  rfl

/-! ## The value -/

def MaxPKListSize : Nat := 2000
def MaxPKByteLen : Nat := 512
def MaxNextPageTokenLen : Nat := 4096

/-- `payload`, and `Entry`: Go strings are byte strings. -/
structure Payload where
  nextPageToken : Bytes
  pks : List Bytes
  deriving DecidableEq, Repr

def encodePayload (p : Payload) : Except String Bytes :=
  if p.pks.length > MaxPKListSize then
    .error ("queryresult: pk list length " ++ toString p.pks.length ++ " exceeds " ++ toString MaxPKListSize)
  else if p.nextPageToken.length > MaxNextPageTokenLen then
    .error ("queryresult: next_page_token length " ++ toString p.nextPageToken.length ++ " exceeds "
      ++ toString MaxNextPageTokenLen)
  else .ok (2 :: (frame p.nextPageToken ++ p.pks.flatMap frame))

/-- `decodeV1PKList`, at position `i` with the keys `out` read so far: the slice when it returns, which grows before its
    length is checked, and the error. -/
def decodeV1PKList (i : Nat) (out : List Bytes) (b : Bytes) : List Bytes × Except String Unit :=
  if b = [] then (out, .ok ())
  else match h : readUvarint b with
    | none => (out, .error ("queryresult: malformed length varint at " ++ toString i))
    | some (n, rest) =>
      let i := i + (b.length - rest.length)
      if n > MaxPKByteLen then
        (out, .error ("queryresult: pk length " ++ toString n ++ " exceeds " ++ toString MaxPKByteLen))
      else if n > rest.length then
        (out, .error ("queryresult: truncated pk at " ++ toString i ++ " (need " ++ toString n ++ " bytes, have "
          ++ toString rest.length ++ ")"))
      else
        let out := out ++ [rest.take n]
        if out.length > MaxPKListSize then
          (out, .error ("queryresult: pk list exceeds " ++ toString MaxPKListSize))
        else decodeV1PKList (i + n) out (rest.drop n)
termination_by b.length
decreasing_by
  have hlt := readUvarintFrom_length h
  rw [List.length_drop]
  omega

/-- What a decoder makes of the keys: the slice that was allocated, and the payload. -/
def decodeKeys (token b : Bytes) : List Bytes × Except String Payload :=
  let (out, err) := decodeV1PKList 0 [] b
  (out, err.map fun () => ⟨token, out⟩)

def decodeV2 (b : Bytes) : List Bytes × Except String Payload :=
  match readUvarint b with
  | none => ([], .error "queryresult: malformed token-length varint")
  | some (tokLen, rest) =>
    if tokLen > MaxNextPageTokenLen then
      ([], .error ("queryresult: token length " ++ toString tokLen ++ " exceeds " ++ toString MaxNextPageTokenLen))
    else if tokLen > rest.length then ([], .error "queryresult: truncated token")
    else decodeKeys (rest.take tokLen) (rest.drop tokLen)

/-- `decodePayload`, and the slice of keys that was allocated on the way. -/
def decodePayload : Bytes → List Bytes × Except String Payload
  | [] => ([], .error "queryresult: empty value")
  | version :: b =>
    if version = 1 then decodeKeys [] b
    else if version = 2 then decodeV2 b
    else ([], .error ("queryresult: unknown codec version " ++ toString version))

/-! ### What the decoder accepts -/

/-- Keys behind their lengths, one after the other, and what comes after them. -/
inductive KeyList : Bytes → List Bytes → Bytes → Prop where
  | nil {b : Bytes} : KeyList b [] b
  | cons {b pk rest after : Bytes} {pks : List Bytes} : readUvarint b = some (pk.length, pk ++ rest) →
      KeyList rest pks after → KeyList b (pk :: pks) after

/-- The two formats: the token, and the part of the keys. -/
inductive KeyPart : Bytes → Bytes → Bytes → Prop where
  | v1 {b : Bytes} : KeyPart (1 :: b) [] b
  | v2 {b tok rest : Bytes} : readUvarint b = some (tok.length, tok ++ rest) → KeyPart (2 :: b) tok rest

/-- **The bytes are the payload** in one of the formats; every piece of it stands in them. -/
def Encoded (b : Bytes) (p : Payload) : Prop := ∃ part, KeyPart b p.nextPageToken part ∧ KeyList part p.pks []

/-- Within the caps of the decoder. -/
def Payload.Storable (p : Payload) : Prop :=
  p.pks.length ≤ MaxPKListSize ∧ p.nextPageToken.length ≤ MaxNextPageTokenLen ∧
    ∀ pk ∈ p.pks, pk.length ≤ MaxPKByteLen

/-- The keys begin with more than the cap allows, each of them whole and within its own. -/
def Overfull (b : Bytes) : Prop :=
  ∃ tok part pks after, KeyPart b tok part ∧ tok.length ≤ MaxNextPageTokenLen ∧ KeyList part pks after ∧
    (∀ pk ∈ pks, pk.length ≤ MaxPKByteLen) ∧ MaxPKListSize < pks.length

theorem keyList_frames {pks : List Bytes} (h : ∀ pk ∈ pks, pk.length ≤ MaxPKByteLen) :
    KeyList (pks.flatMap frame) pks [] := by
  induction pks with
  | nil => exact .nil
  | cons pk pks ih =>
    obtain ⟨hpk, hpks⟩ := List.forall_mem_cons.mp h
    unfold MaxPKByteLen at hpk
    exact .cons (readUvarint_frame (by omega) _) (ih hpks)

/-- A piece that is there in full. -/
theorem readUvarint_piece {b rest : Bytes} {n : Nat} (h : readUvarint b = some (n, rest)) (hn : ¬ n > rest.length) :
    (rest.take n).length = n ∧ readUvarint b = some ((rest.take n).length, rest.take n ++ rest.drop n) := by
  have hlen : (rest.take n).length = n := List.length_take_of_le (by omega)
  rw [hlen, List.take_append_drop]
  exact ⟨rfl, h⟩

theorem readUvarint_unique {b pk pk' rest rest' : Bytes} (h : readUvarint b = some (pk.length, pk ++ rest))
    (h' : readUvarint b = some (pk'.length, pk' ++ rest')) : pk = pk' ∧ rest = rest' := by
  obtain ⟨hlen, happend⟩ := Prod.mk.inj (Option.some.inj (h.symm.trans h'))
  exact List.append_inj happend hlen

theorem KeyPart.unique {b tok tok' part part' : Bytes} (h : KeyPart b tok part) (h' : KeyPart b tok' part') :
    tok = tok' ∧ part = part' := by
  cases h with
  | v1 =>
    cases h'
    exact ⟨rfl, rfl⟩
  | v2 hread =>
    cases h' with
    | v2 hread' => exact readUvarint_unique hread hread'

variable {i : Nat} {out pks : List Bytes} {b after : Bytes}

/-- One round: the key is appended, then the list is measured. -/
theorem decodeV1PKList_cons {pk rest : Bytes} (hread : readUvarint b = some (pk.length, pk ++ rest))
    (hpk : pk.length ≤ MaxPKByteLen) : ∃ j, decodeV1PKList i out b =
      if (out ++ [pk]).length > MaxPKListSize then
        (out ++ [pk], .error ("queryresult: pk list exceeds " ++ toString MaxPKListSize))
      else decodeV1PKList j (out ++ [pk]) rest := by
  have hne : b ≠ [] := by
    rintro rfl
    cases hread
  rw [decodeV1PKList, if_neg hne]
  split
  · rename_i hnone
    rw [hread] at hnone
    cases hnone
  · rename_i n rest' hsome
    rw [hread] at hsome
    cases hsome
    refine ⟨i + (b.length - (pk ++ rest).length) + pk.length, ?_⟩
    simp only
    rw [if_neg (by omega), if_neg (by rw [List.length_append]; omega), List.take_left, List.drop_left]

theorem decodeV1PKList_sound (hout : out.length ≤ MaxPKListSize) :
    ∃ pks after, (decodeV1PKList i out b).1 = out ++ pks ∧ KeyList b pks after ∧
      (∀ pk ∈ pks, pk.length ≤ MaxPKByteLen) ∧
      ((decodeV1PKList i out b).2 = .ok () → after = [] ∧ (out ++ pks).length ≤ MaxPKListSize) := by
  have hstop : ∀ err : String, ∃ pks after, out = out ++ pks ∧ KeyList b pks after ∧
      (∀ pk ∈ pks, pk.length ≤ MaxPKByteLen) ∧
      (Except.error err = Except.ok () → after = [] ∧ (out ++ pks).length ≤ MaxPKListSize) :=
    fun err => ⟨[], b, (List.append_nil _).symm, .nil, List.forall_mem_nil _, fun h => by cases h⟩
  fun_induction decodeV1PKList i out b with
  | case1 => exact ⟨[], [], (List.append_nil _).symm, .nil, List.forall_mem_nil _, fun _ => ⟨rfl, by simpa using hout⟩⟩
  | case2 | case3 | case4 => exact hstop _
  | case5 i out b _ n rest hread hshort hthere =>
    obtain ⟨hlen, hpiece⟩ := readUvarint_piece hread hthere
    exact ⟨[rest.take n], rest.drop n, rfl, .cons hpiece .nil, by simpa [hlen] using hshort, fun h => by cases h⟩
  | case6 i out b _ n rest hread _ hshort hthere _ hroom ih =>
    obtain ⟨hlen, hpiece⟩ := readUvarint_piece hread hthere
    obtain ⟨pks, after, hgrown, hlist, hpks, hok⟩ := ih (by omega)
      (fun err => ⟨[], _, (List.append_nil _).symm, .nil, List.forall_mem_nil _, fun h => by cases h⟩)
    refine ⟨rest.take n :: pks, after, ?_, .cons hpiece hlist, List.forall_mem_cons.mpr ⟨by omega, hpks⟩, ?_⟩
    · rw [hgrown, List.append_assoc, List.singleton_append]
    · rwa [List.append_assoc, List.singleton_append] at hok

theorem decodeV1PKList_complete (h : KeyList b pks []) (hsize : (out ++ pks).length ≤ MaxPKListSize)
    (hpks : ∀ pk ∈ pks, pk.length ≤ MaxPKByteLen) : decodeV1PKList i out b = (out ++ pks, .ok ()) := by
  generalize hafter : ([] : Bytes) = after at h
  induction h generalizing i out with
  | nil => rw [← hafter, decodeV1PKList, if_pos rfl, List.append_nil]
  | @cons b pk rest after pks hread _ ih =>
    obtain ⟨hpk, hpks⟩ := List.forall_mem_cons.mp hpks
    obtain ⟨j, hround⟩ := @decodeV1PKList_cons i out b pk rest hread hpk
    rw [← List.singleton_append, ← List.append_assoc] at hsize ⊢
    rw [hround, if_neg (by rw [List.length_append] at hsize; omega), ih hsize hpks hafter]

/-- Too many keys: the list has grown past its cap when that is noticed. -/
theorem decodeV1PKList_overfull (h : KeyList b pks after) (hout : out.length ≤ MaxPKListSize)
    (hsize : MaxPKListSize < (out ++ pks).length) (hpks : ∀ pk ∈ pks, pk.length ≤ MaxPKByteLen) :
    MaxPKListSize < (decodeV1PKList i out b).1.length := by
  induction h generalizing i out with
  | nil =>
    rw [List.append_nil] at hsize
    omega
  | @cons b pk rest after pks hread _ ih =>
    obtain ⟨hpk, hpks⟩ := List.forall_mem_cons.mp hpks
    obtain ⟨j, hround⟩ := @decodeV1PKList_cons i out b pk rest hread hpk
    rw [← List.singleton_append, ← List.append_assoc] at hsize
    rw [hround]
    split
    · assumption
    · exact ih (by omega) hsize hpks

variable {p q : Payload} {enc : Bytes}

/-- The decoder comes to the keys in the two formats only. -/
theorem decodePayload_cases (b : Bytes) :
    (∃ tok part, KeyPart b tok part ∧ tok.length ≤ MaxNextPageTokenLen ∧ decodePayload b = decodeKeys tok part) ∨
      (∀ tok part, KeyPart b tok part → MaxNextPageTokenLen < tok.length) ∧
        ∃ err, decodePayload b = ([], .error err) := by
  unfold decodePayload
  split
  · refine .inr ⟨fun tok part h => ?_, _, rfl⟩
    cases h
  rename_i version b
  split
  · rename_i hversion
    exact .inl ⟨[], b, hversion ▸ .v1, Nat.zero_le _, rfl⟩
  rename_i hnot1
  split
  swap
  · rename_i hnot2
    refine .inr ⟨fun tok part h => ?_, _, rfl⟩
    cases h with
    | v1 => exact absurd rfl hnot1
    | v2 _ => exact absurd rfl hnot2
  rename_i hversion
  subst hversion
  unfold decodeV2
  split
  · rename_i hnone
    refine .inr ⟨fun tok part h => ?_, _, rfl⟩
    cases h with
    | v2 hread => cases hnone.symm.trans hread
  rename_i tokLen rest hread
  have hlen : ∀ tok part, KeyPart (2 :: b) tok part → tok.length = tokLen ∧ tok ++ part = rest := by
    intro tok part h
    cases h with
    | v2 hread' => exact Prod.mk.inj (Option.some.inj (hread'.symm.trans hread))
  split
  · refine .inr ⟨fun tok part h => ?_, _, rfl⟩
    have htok := (hlen tok part h).1
    omega
  split
  · rename_i hlong
    refine .inr ⟨fun tok part h => ?_, _, rfl⟩
    obtain ⟨htok, happend⟩ := hlen tok part h
    rw [← happend, List.length_append] at hlong
    omega
  rename_i hshort hthere
  obtain ⟨htake, hpiece⟩ := readUvarint_piece hread hthere
  exact .inl ⟨_, _, .v2 hpiece, by omega, rfl⟩

/-- **The decoder accepts what is encoded in one of the formats, within its caps, and nothing else.** -/
theorem decodePayload_ok_iff : (decodePayload b).2 = .ok q ↔ Encoded b q ∧ q.Storable := by
  constructor
  · intro h
    rcases decodePayload_cases b with ⟨tok, part, hpart, htok, hdecode⟩ | ⟨_, err, hdecode⟩
    · rw [hdecode] at h
      obtain ⟨_, herr, rfl⟩ := map_ok h
      obtain ⟨pks, after, hgrown, hlist, hpks, hok⟩ := @decodeV1PKList_sound 0 [] part (Nat.zero_le _)
      obtain ⟨rfl, hsize⟩ := hok herr
      rw [List.nil_append] at hgrown hsize
      rw [hgrown]
      exact ⟨⟨part, hpart, hlist⟩, hsize, htok, hpks⟩
    · rw [hdecode] at h
      cases h
  · rintro ⟨⟨part, hpart, hlist⟩, hsize, htok, hpks⟩
    rcases decodePayload_cases b with ⟨tok', part', hpart', _, hdecode⟩ | ⟨hlong, _⟩
    · obtain ⟨rfl, rfl⟩ := hpart.unique hpart'
      rw [hdecode, decodeKeys, @decodeV1PKList_complete 0 [] _ _ hlist hsize hpks]
      rfl
    · have := hlong _ part hpart
      omega

/-- **No more keys are allocated than the cap allows exactly if there are no more at the start of the bytes.** -/
theorem decodePayload_allocated_iff : (decodePayload b).1.length ≤ MaxPKListSize ↔ ¬ Overfull b := by
  rcases decodePayload_cases b with ⟨tok, part, hpart, htok, hdecode⟩ | ⟨hlong, err, hdecode⟩
  · rw [hdecode]
    constructor
    · rintro hle ⟨tok', part', pks, after, hpart', _, hlist, hpks, hsize⟩
      obtain ⟨rfl, rfl⟩ := hpart.unique hpart'
      exact absurd hle (not_le.mpr (decodeV1PKList_overfull hlist (Nat.zero_le _) hsize hpks))
    · intro hfits
      obtain ⟨pks, after, hgrown, hlist, hpks, _⟩ := @decodeV1PKList_sound 0 [] part (Nat.zero_le _)
      show (decodeV1PKList 0 [] part).1.length ≤ _
      rw [hgrown]
      by_contra hsize
      exact hfits ⟨tok, part, pks, after, hpart, htok, hlist, hpks, not_le.mp hsize⟩
  · rw [hdecode]
    refine iff_of_true (Nat.zero_le _) ?_
    rintro ⟨tok, part, pks, after, hpart, htok, _⟩
    have := hlong tok part hpart
    omega

/-- What was stored is read, when its keys are within their cap. -/
theorem decodePayload_complete (h : encodePayload p = .ok enc) (hpks : ∀ pk ∈ p.pks, pk.length ≤ MaxPKByteLen) :
    (decodePayload enc).2 = .ok p := by
  unfold encodePayload at h
  split at h
  · cases h
  split at h
  · cases h
  rename_i hsize htoken
  cases h
  refine decodePayload_ok_iff.mpr ⟨⟨_, .v2 (readUvarint_frame ?_ _), keyList_frames hpks⟩, by omega, by omega, hpks⟩
  unfold MaxNextPageTokenLen at htoken
  omega

/-- **A page is read back iff no key of it is longer than the decoder's cap**, which the encoder does not check. The
    decoder reads just what is well formed, and allocates within its cap iff no more keys stand at the start. -/
theorem payload_read_back_iff (b : Bytes) :
    (∀ q, (decodePayload b).2 = .ok q ↔ Encoded b q ∧ q.Storable) ∧
    ((decodePayload b).1.length ≤ MaxPKListSize ↔ ¬ Overfull b) ∧
    ∀ p enc, encodePayload p = .ok enc → ((decodePayload enc).2 = .ok p ↔ ∀ pk ∈ p.pks, pk.length ≤ MaxPKByteLen) := by
  refine ⟨fun q => decodePayload_ok_iff, decodePayload_allocated_iff, ?_⟩
  intro p enc h
  constructor
  · intro hread
    exact (decodePayload_ok_iff.mp hread).2.2.2
  · exact decodePayload_complete h

private def longKey : Payload := ⟨[], [List.replicate 513 0]⟩

theorem keyList_zeros (n : Nat) : KeyList (List.replicate n 0) (List.replicate n []) [] := by
  induction n with
  | zero => exact .nil
  | succ n ih => exact .cons rfl ih

/-- A page with one key of 513 bytes is stored and not read; of 2001 empty keys all are allocated. -/
theorem long_key_lost : (∃ enc, encodePayload longKey = .ok enc ∧ (decodePayload enc).2 ≠ .ok longKey) ∧
    MaxPKListSize < (decodePayload (1 :: List.replicate 2001 0)).1.length := by
  refine ⟨⟨_, rfl, fun h => ?_⟩, ?_⟩
  · have hlen := (decodePayload_ok_iff.mp h).2.2.2 _ List.mem_cons_self
    rw [List.length_replicate] at hlen
    exact absurd hlen (by decide)
  · have hsize : MaxPKListSize < (List.replicate 2001 ([] : Bytes)).length := by
      rw [List.length_replicate]
      decide
    have hpks : ∀ pk ∈ List.replicate 2001 ([] : Bytes), pk.length ≤ MaxPKByteLen := fun pk hpk => by
      rw [List.eq_of_mem_replicate hpk]
      exact Nat.zero_le _
    exact not_le.mp fun hle =>
      decodePayload_allocated_iff.mp hle ⟨[], _, _, [], .v1, Nat.zero_le _, keyList_zeros 2001, hpks, hsize⟩

/-! ## The cache -/

/-- The tier-2 entries of one entity, in memcached, and its generation counter. -/
structure Tier2 where
  mc : String → Option Bytes
  generation : Int64

/-- `(*Cache).Lookup`; an entry that does not decode is a miss. -/
def Tier2.Lookup (s : Tier2) (entity hash : String) : Option Payload :=
  match s.mc (QueryResultKey entity hash) with
  | none => none
  | some raw => (decodePayload raw).2.toOption

/-- `(*Cache).Store`; an entry that does not encode is not stored. -/
def Tier2.Store (s : Tier2) (entity hash : String) (p : Payload) : Tier2 :=
  match encodePayload p with
  | .error _ => s
  | .ok enc => { s with mc := Function.update s.mc (QueryResultKey entity hash) (some enc) }

@[simp] theorem Store_generation (s : Tier2) (entity hash : String) (p : Payload) :
    (s.Store entity hash p).generation = s.generation := by
  unfold Tier2.Store
  split <;> rfl

/-- **A stored entry is found under its key.** -/
theorem Lookup_Store {s : Tier2} {entity hash : String} (h : p.Storable) :
    (s.Store entity hash p).Lookup entity hash = some p := by
  obtain ⟨hsize, htoken, hpks⟩ := h
  have henc : encodePayload p = .ok (2 :: (frame p.nextPageToken ++ p.pks.flatMap frame)) := by
    rw [encodePayload, if_neg (by omega), if_neg (by omega)]
  unfold Tier2.Store Tier2.Lookup
  simp only [henc, Function.update_self, decodePayload_complete henc hpks]
  rfl

end Atlantis.Cache
