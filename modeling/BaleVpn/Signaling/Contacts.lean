import Mathlib.Algebra.Group.Int.Defs
import BaleVpn.Signaling.Peers
import BaleVpn.Signaling.Written

/-!
# The contact list (`contacts.rs`, `signaling.rs`)

`list_contacts` fetches the list once, by inline entities or by references that `LoadUsers` resolves, and
hands it out in pages whose cursor is the next offset in decimal. A peer of a page stands here by the
arguments of its `intern_peer`. The RPCs are a function of the method and the payload; the name cache and
phone numbers, which no decoder of an entity fills in, are left out.
-/

namespace BaleVpn.Signaling

open Lib Net

/-! ## Requests and responses -/

def UserEntity.display (u : UserEntity) : String :=
  if !u.name.isEmpty then u.name
  else if !u.nick.isEmpty then u.nick
  else i32ToString u.id

def buildLoadUsersRequest (peers : List UserPeerRef) : Bytes :=
  peers.flatMap fun p =>
    let peerMsg := ((ProtoWriter.new.int32 1 p.uid).int64 2 p.accessHash).build
    (ProtoWriter.new.bytes 1 peerMsg).build

def rawSearch (userField peerField : UInt32) : Decoder (List UserEntity × List UserPeerRef) where
  init := ([], [])
  breaks := true
  field f :=
    if f = userField then some (.message fun b (users, peers) => (users ++ [decodeUserEntity b], peers))
    else if f = peerField then
      some (.message fun b (users, peers) => (users, peers ++ [decodeUserPeerRef b]))
    else none

def decodeRawSearch (buf : Bytes) (userField peerField : UInt32) : List UserEntity × List UserPeerRef :=
  (rawSearch userField peerField).run buf

/-- A gRPC call of the contact service; an error is its text. -/
abbrev ContactCall := String → Bytes → Except String Bytes

def getContactPeers (call : ContactCall) : Except String ContactPeers :=
  (call "GetContacts" (ProtoWriter.new.string 1 "").build).map decodeGetContactsResponse

/-- The access hash of a reference goes before the one of the entity. -/
def mergeHashes (peers : List UserPeerRef) (users : List UserEntity) : List UserEntity :=
  users.map fun u =>
    { u with accessHash := ((peers.find? (·.uid = u.id)).map (·.accessHash)).getD u.accessHash }

def loadUsersBatch (call : ContactCall) (peers : List UserPeerRef) : Except String (List UserEntity) :=
  if peers.isEmpty then .ok []
  else
    (call "LoadUsers" (buildLoadUsersRequest peers)).map fun buf =>
      mergeHashes peers (decodeUsersResponse buf)

def resolveWithLoad (call : ContactCall) (users : List UserEntity) (peerRefs : List UserPeerRef) :
    Except String (List UserEntity) :=
  if !users.isEmpty then .ok users
  else if peerRefs.isEmpty then .ok []
  else loadUsersBatch call peerRefs

def searchContactsByName (call : ContactCall) (query : String) : Except String (List UserEntity) :=
  match call "SearchContacts" (ProtoWriter.new.string 1 query).build with
  | .ok buf =>
    let (users, peerRefs) := decodeRawSearch buf 1 2
    resolveWithLoad call users peerRefs
  | .error e => .error e

/-! ## Pages -/

inductive SignalingError
  | notAuthenticated
  | transport (text : String)
  deriving DecidableEq, Repr

structure ContactPage where
  peers : List InternArgs
  nextCursor : Option String
  deriving DecidableEq, Repr

/-- `BaleSignaling`: the stored token, if it is text, and `contact_cache`. -/
structure ContactList where
  token : Option String
  contactCache : Option (List UserEntity) := none
  deriving DecidableEq, Repr

/-- `parse::<usize>` -/
def parseUsize (s : String) : Option ℕ :=
  if s.toList.head? = some '-' then none else (readInt 0 (2 ^ 64 - 1) s.toList).map Int.toNat

def loadFullContactList (call : ContactCall) (s : ContactList) :
    Except SignalingError (List UserEntity) × ContactList :=
  match s.contactCache with
  | some cached => (.ok cached, s)
  | none =>
    match getContactPeers call with
    | .error e => (.error (.transport e), s)
    | .ok c =>
      match if !c.peers.isEmpty then loadUsersBatch call c.peers else .ok c.inlineUsers with
      | .error e => (.error (.transport e), s)
      | .ok users => (.ok users, { s with contactCache := some users })

def intern (u : UserEntity) : InternArgs := ⟨u.id, u.accessHash, some u.display⟩

/-- The slice that `list_contacts` takes, and its next cursor. -/
def pageOf (users : List UserEntity) (cursor : Option String) (limit : ℕ) : ContactPage :=
  let start := (cursor.bind parseUsize).getD 0
  let stop := min (min (start + limit) (2 ^ 64 - 1)) users.length
  { peers := ((users.take stop).drop (min start users.length)).map intern
    nextCursor := if stop < users.length then some (toString stop) else none }

def listContacts (call : ContactCall) (s : ContactList) (query cursor : Option String) (limit : ℕ) :
    Except SignalingError ContactPage × ContactList :=
  match s.token with
  | none => (.error .notAuthenticated, s)
  | some _ =>
    match query.filter (!·.isEmpty) with
    | some q =>
      match searchContactsByName call q with
      | .error e => (.error (.transport e), s)
      | .ok users => (.ok (pageOf users cursor limit), s)
    | none =>
      match loadFullContactList call s with
      | (.error e, s) => (.error e, s)
      | (.ok users, s) => (.ok (pageOf users cursor limit), s)

/-- A caller that follows the cursor, for at most so many calls: the pages, and whether it came to the
end. -/
def followCursor (call : ContactCall) (limit : ℕ) :
    ℕ → ContactList → Option String → Except SignalingError (List ContactPage × Bool)
  | 0, _, _ => .ok ([], false)
  | n + 1, s, cursor =>
    match listContacts call s none cursor limit with
    | (.error e, _) => .error e
    | (.ok page, s) =>
      match page.nextCursor with
      | none => .ok ([page], true)
      | some next => (followCursor call limit n s (some next)).map fun (pages, ended) => (page :: pages, ended)

/-! ## A server with a contact list -/

def refFields (p : UserPeerRef) : List (UInt32 × FieldValue) := [(1, .int32 p.uid), (2, .int64 p.accessHash)]

def entityFields (u : UserEntity) : List (UInt32 × FieldValue) :=
  [(1, .int32 u.id), (2, .int64 u.accessHash), (3, .string u.name),
    (9, .bytes (written [(1, .string u.nick)]))]

/-- Entities in field 1. -/
def entities (users : List UserEntity) : List (UInt32 × FieldValue) :=
  users.map fun u => (1, .bytes (written (entityFields u)))

def references (field : UInt32) (peers : List UserPeerRef) : List (UInt32 × FieldValue) :=
  peers.map fun p => (field, .bytes (written (refFields p)))

/-- The contacts with their relations' access hashes, as references or inline. -/
structure Book where
  users : List UserEntity
  hash : Int32 → Int64
  inline : Bool

namespace Book

def refs (b : Book) : List UserPeerRef := b.users.map fun u => ⟨u.id, b.hash u.id⟩

/-- The entities that a `LoadUsers` request asks for. -/
def asked (b : Book) (req : Bytes) : List UserEntity :=
  (decodeRawSearch req 0 1).2.filterMap fun p => b.users.find? (·.id = p.uid)

def call (b : Book) (method : String) (payload : Bytes) : Except String Bytes :=
  if method = "GetContacts" then .ok (written (if b.inline then entities b.users else references 3 b.refs))
  else if method = "LoadUsers" then .ok (written (entities (b.asked payload)))
  else .error "unimplemented"

/-- What the client is to show. -/
def shown (b : Book) : List UserEntity :=
  b.users.map fun u => { u with accessHash := if b.inline then u.accessHash else b.hash u.id }

/-- The uids differ, no entity carries a phone number, and every message fits a buffer. -/
structure Valid (b : Book) : Prop where
  nodup : (b.users.map (·.id)).Nodup
  phone : ∀ u ∈ b.users, u.phone = ""
  entities_fit : (written (entities b.users)).length ≤ ISIZE_MAX
  refs_fit : (written (references 3 b.refs)).length ≤ ISIZE_MAX
  request_fits : (written (references 1 b.refs)).length ≤ ISIZE_MAX

end Book

/-! ## Messages -/

theorem decodeUserPeerRef_written (p : UserPeerRef) (hfits : (written (refFields p)).length ≤ ISIZE_MAX) :
    decodeUserPeerRef (written (refFields p)) = p := by
  have htyped : Typed userPeerRef.field (refFields p) := by
    simp [Typed, refFields, userPeerRef, FieldRead.kind, FieldValue.kind]
  rw [decodeUserPeerRef, userPeerRef.run_written htyped hfits]
  simp [takeField, refFields, userPeerRef, FieldRead.take, FieldValue.image]

theorem decodeUserEntity_written (u : UserEntity) (hphone : u.phone = "")
    (hfits : (written (entityFields u)).length ≤ ISIZE_MAX) :
    decodeUserEntity (written (entityFields u)) = u := by
  have htyped : Typed userEntity.field (entityFields u) := by
    simp [Typed, entityFields, userEntity, FieldRead.kind, FieldValue.kind]
  have hnick := parseWrappedString_written u.nick (Nat.le_trans (length_le_bytes_field
    [(1, .int32 u.id), (2, .int64 u.accessHash), (3, .string u.name)] [] 9 _) hfits)
  rw [decodeUserEntity, userEntity.run_written htyped hfits]
  obtain ⟨id, name, nick, phone, accessHash⟩ := u
  subst hphone
  simp [takeField, entityFields, userEntity, FieldRead.take, FieldValue.image, hnick]

theorem fits_of_mem {f : UInt32} {bs : List Bytes} {b : Bytes} (hb : b ∈ bs)
    (hfits : (written (bs.map fun b => (f, .bytes b))).length ≤ ISIZE_MAX) : b.length ≤ ISIZE_MAX := by
  obtain ⟨front, after, rfl⟩ := List.append_of_mem hb
  rw [List.map_append, List.map_cons] at hfits
  exact Nat.le_trans (length_le_bytes_field _ _ f b) hfits

theorem foldl_push {α β : Type} {field : UInt32 → Option (FieldRead α)} {f : UInt32}
    {push : Bytes → α → α} (hfield : field f = some (.message push)) {add : List β → α → α}
    {decode : Bytes → β} (hpush : ∀ b a, push b a = add [decode b] a)
    (hadd : ∀ xs ys a, add ys (add xs a) = add (xs ++ ys) a) (hnil : ∀ a, add [] a = a) (bs : List Bytes)
    (a : α) :
    (bs.map fun b => (f, FieldValue.bytes b)).foldl (takeField field) a = add (bs.map decode) a := by
  induction bs generalizing a with
  | nil => exact (hnil a).symm
  | cons b bs ih =>
    have hone : takeField field a (f, .bytes b) = add [decode b] a := by
      simp [takeField, hfield, FieldRead.take, FieldValue.image, hpush]
    rw [List.map_cons, List.foldl_cons, hone, ih, hadd, List.map_cons]
    rfl

theorem typed_push {α : Type} {field : UInt32 → Option (FieldRead α)} {f : UInt32} {push : Bytes → α → α}
    (hfield : field f = some (.message push)) (bs : List Bytes) :
    Typed field (bs.map fun b => (f, .bytes b)) := by
  intro x hx read hread
  obtain ⟨b, -, rfl⟩ := List.mem_map.mp hx
  obtain rfl := Option.some.inj (hfield.symm.trans hread)
  rfl

theorem entities_eq (users : List UserEntity) :
    entities users = (users.map fun u => written (entityFields u)).map fun b => (1, .bytes b) := by
  simp [entities]

theorem references_eq (f : UInt32) (peers : List UserPeerRef) :
    references f peers = (peers.map fun p => written (refFields p)).map fun b => (f, .bytes b) := by
  simp [references]

theorem map_decodeUserEntity {users : List UserEntity} (hphone : ∀ u ∈ users, u.phone = "")
    (hfits : (written (entities users)).length ≤ ISIZE_MAX) :
    (users.map fun u => written (entityFields u)).map decodeUserEntity = users := by
  rw [entities_eq] at hfits
  rw [List.map_map]
  refine (List.map_congr_left fun u hu => ?_).trans (List.map_id users)
  exact decodeUserEntity_written u (hphone u hu) (fits_of_mem (List.mem_map.mpr ⟨u, hu, rfl⟩) hfits)

theorem map_decodeUserPeerRef {f : UInt32} {peers : List UserPeerRef}
    (hfits : (written (references f peers)).length ≤ ISIZE_MAX) :
    (peers.map fun p => written (refFields p)).map decodeUserPeerRef = peers := by
  rw [references_eq] at hfits
  rw [List.map_map]
  refine (List.map_congr_left fun p hp => ?_).trans (List.map_id peers)
  exact decodeUserPeerRef_written p (fits_of_mem (List.mem_map.mpr ⟨p, hp, rfl⟩) hfits)

theorem decodeUsersResponse_written {users : List UserEntity} (hphone : ∀ u ∈ users, u.phone = "")
    (hfits : (written (entities users)).length ≤ ISIZE_MAX) :
    decodeUsersResponse (written (entities users)) = users := by
  have hdecode := map_decodeUserEntity hphone hfits
  rw [entities_eq] at hfits ⊢
  rw [decodeUsersResponse, usersResponse.run_written (typed_push rfl _) hfits,
    @foldl_push _ _ usersResponse.field 1 _ rfl (fun xs out => out ++ xs) decodeUserEntity
      (fun _ _ => rfl) (fun _ _ _ => List.append_assoc _ _ _) List.append_nil, hdecode]
  rfl

theorem decodeGetContactsResponse_entities {users : List UserEntity} (hphone : ∀ u ∈ users, u.phone = "")
    (hfits : (written (entities users)).length ≤ ISIZE_MAX) :
    decodeGetContactsResponse (written (entities users)) = ⟨[], users⟩ := by
  have hdecode := map_decodeUserEntity hphone hfits
  rw [entities_eq] at hfits ⊢
  rw [decodeGetContactsResponse, contactPeers.run_written (typed_push rfl _) hfits,
    @foldl_push _ _ contactPeers.field 1 _ rfl (fun xs c => { c with inlineUsers := c.inlineUsers ++ xs })
      decodeUserEntity (fun _ _ => rfl) (fun _ _ _ => by simp) (fun _ => by simp), hdecode]
  rfl

theorem decodeGetContactsResponse_references {peers : List UserPeerRef}
    (hfits : (written (references 3 peers)).length ≤ ISIZE_MAX) :
    decodeGetContactsResponse (written (references 3 peers)) = ⟨peers, []⟩ := by
  have hdecode := map_decodeUserPeerRef hfits
  rw [references_eq] at hfits ⊢
  rw [decodeGetContactsResponse, contactPeers.run_written (typed_push rfl _) hfits,
    @foldl_push _ _ contactPeers.field 3 _ rfl (fun xs c => { c with peers := c.peers ++ xs })
      decodeUserPeerRef (fun _ _ => rfl) (fun _ _ _ => by simp) (fun _ => by simp), hdecode]
  rfl

theorem buildLoadUsersRequest_eq (peers : List UserPeerRef) :
    buildLoadUsersRequest peers = written (references 1 peers) := by
  rw [written_eq, references, List.flatMap_map]
  rfl

theorem decodeRawSearch_request {peers : List UserPeerRef}
    (hfits : (written (references 1 peers)).length ≤ ISIZE_MAX) :
    decodeRawSearch (buildLoadUsersRequest peers) 0 1 = ([], peers) := by
  have hdecode := map_decodeUserPeerRef hfits
  rw [buildLoadUsersRequest_eq]
  rw [references_eq] at hfits ⊢
  rw [decodeRawSearch, (rawSearch 0 1).run_written (typed_push rfl _) hfits,
    @foldl_push _ _ (rawSearch 0 1).field 1 _ rfl (fun xs out => (out.1, out.2 ++ xs)) decodeUserPeerRef
      (fun _ _ => rfl) (fun _ _ _ => by simp) (fun _ => by simp), hdecode]
  rfl

/-! ## Fetching the list -/

theorem find?_of_nodup {users : List UserEntity} (h : (users.map (·.id)).Nodup) {u : UserEntity}
    (hu : u ∈ users) : users.find? (·.id = u.id) = some u := by
  induction users with
  | nil => cases hu
  | cons v users ih =>
    obtain ⟨hnot, hrest⟩ := List.nodup_cons.mp h
    rcases List.mem_cons.mp hu with rfl | hu
    · simp
    · have hne : v.id ≠ u.id := by
        intro heq
        exact hnot (List.mem_map.mpr ⟨u, hu, heq.symm⟩)
      rw [List.find?_cons_of_neg (by simpa using hne)]
      exact ih hrest hu

namespace Book

variable {b : Book}

theorem Valid.asked (h : b.Valid) : b.asked (buildLoadUsersRequest b.refs) = b.users := by
  rw [Book.asked, decodeRawSearch_request h.request_fits, refs, List.filterMap_map]
  have hfind : ∀ u ∈ b.users, b.users.find? (·.id = u.id) = some u := fun u hu => find?_of_nodup h.nodup hu
  refine (List.filterMap_congr (g := some) hfind).trans ?_
  exact List.filterMap_some

theorem mergeHashes_refs (b : Book) :
    mergeHashes b.refs b.users = b.users.map fun u => { u with accessHash := b.hash u.id } := by
  refine List.map_congr_left fun u hu => ?_
  have hsome : (b.refs.find? (·.uid = u.id)).isSome := by
    rw [List.find?_isSome]
    exact ⟨⟨u.id, b.hash u.id⟩, List.mem_map.mpr ⟨u, hu, rfl⟩, by simp⟩
  obtain ⟨p, hp⟩ := Option.isSome_iff_exists.mp hsome
  have huid : p.uid = u.id := by simpa using List.find?_some hp
  obtain ⟨v, -, rfl⟩ := List.mem_map.mp (List.mem_of_find?_eq_some hp)
  have hid : v.id = u.id := huid
  rw [hp, Option.map_some, Option.getD_some, hid]

theorem Valid.fetch (h : b.Valid) (token : Option String) :
    loadFullContactList b.call { token } = (.ok b.shown, { token, contactCache := some b.shown }) := by
  rcases hinline : b.inline with _ | _
  · have hget : getContactPeers b.call = .ok ⟨b.refs, []⟩ := by
      simp [getContactPeers, call, hinline, Except.map, decodeGetContactsResponse_references h.refs_fit]
    have hload : (if !b.refs.isEmpty then loadUsersBatch b.call b.refs else .ok []) = .ok b.shown := by
      by_cases hempty : b.refs = []
      · have husers : b.users = [] := List.map_eq_nil_iff.mp hempty
        simp [hempty, shown, husers]
      · have hcall : b.call "LoadUsers" (buildLoadUsersRequest b.refs) = .ok (written (entities b.users)) := by
          simp [call, h.asked]
        simp only [List.isEmpty_eq_false_iff.mpr hempty, Bool.not_false, if_true, loadUsersBatch,
          Bool.false_eq_true, if_false, hcall, Except.map, decodeUsersResponse_written h.phone h.entities_fit,
          mergeHashes_refs, shown, hinline]
    simp only [loadFullContactList, hget, hload]
  · have hget : getContactPeers b.call = .ok ⟨[], b.users⟩ := by
      simp [getContactPeers, call, hinline, Except.map, decodeGetContactsResponse_entities h.phone h.entities_fit]
    have hshown : b.shown = b.users := by
      simp [shown, hinline]
    simp [loadFullContactList, hget, hshown]

end Book

/-! ## Following the cursor -/

theorem parseUsize_toString {n : ℕ} (h : n < 2 ^ 64) : parseUsize (toString n) = some n := by
  have hread : readInt 0 (2 ^ 64 - 1) (toString (n : ℤ)).toList = some (n : ℤ) :=
    readInt_toString (by decide) (by decide) ⟨by omega, by omega⟩
  change readInt 0 (2 ^ 64 - 1) (toString n).toList = some (n : ℤ) at hread
  have hdigit : (toString n).toList.head? ≠ some '-' := by
    intro hhead
    have hmem : '-' ∈ Nat.toDigits 10 n := by
      have hdigits : (toString n).toList = Nat.toDigits 10 n := by
        simp
      rw [hdigits] at hhead
      exact List.mem_of_head? hhead
    have hbad := isDigit_of_mem_toDigits hmem
    revert hbad
    decide
  rw [parseUsize, if_neg hdigit, hread]
  simp

/-- The cursor that stands for offset `k`. -/
def CursorAt (cursor : Option String) (k : ℕ) : Prop := (cursor.bind parseUsize).getD 0 = k

theorem listContacts_cached (call : ContactCall) (token : String) (users : List UserEntity)
    (cursor : Option String) (limit : ℕ) :
    listContacts call { token := some token, contactCache := some users } none cursor limit =
      (.ok (pageOf users cursor limit), { token := some token, contactCache := some users }) := rfl

theorem pageOf_at {users : List UserEntity} (hsize : users.length < 2 ^ 64) {cursor : Option String} {k : ℕ}
    (hat : CursorAt cursor k) (hk : k ≤ users.length) (limit : ℕ) :
    pageOf users cursor limit =
      ⟨((users.drop k).take limit).map intern,
        if k + limit < users.length then some (toString (k + limit)) else none⟩ := by
  have hstop : min (min (k + limit) (2 ^ 64 - 1)) users.length = min (k + limit) users.length := by
    omega
  rw [CursorAt] at hat
  rw [pageOf, hat]
  simp only [hstop, Nat.min_eq_left hk]
  congr 1
  · rw [List.drop_take]
    congr 1
    rw [List.take_eq_take_iff, List.length_drop]
    omega
  · by_cases hlt : k + limit < users.length
    · rw [Nat.min_eq_left (Nat.le_of_lt hlt)]
    · rw [if_neg hlt, if_neg (by omega)]

theorem followCursor_cached (token : String) {users : List UserEntity} (hsize : users.length < 2 ^ 64)
    {limit : ℕ} (hlimit : 0 < limit) {n : ℕ} :
    ∀ {cursor : Option String} {k : ℕ}, CursorAt cursor k → k ≤ users.length →
      (users.length - k) / limit < n →
        ∃ pages, (∀ call, followCursor call limit n
            { token := some token, contactCache := some users } cursor = .ok (pages, true)) ∧
          pages.flatMap (·.peers) = (users.drop k).map intern ∧ ∀ page ∈ pages, page.peers.length ≤ limit := by
  induction n with
  | zero => exact fun _ _ h => absurd h (Nat.not_lt_zero _)
  | succ n ih =>
    intro cursor k hat hk hn
    have hpage := pageOf_at hsize hat hk limit
    by_cases hlt : k + limit < users.length
    · have hnext : CursorAt (some (toString (k + limit))) (k + limit) := by
        rw [CursorAt, Option.bind_some, parseUsize_toString (Nat.lt_trans hlt hsize), Option.getD_some]
      have hrest : (users.length - (k + limit)) / limit < n := by
        have hdiv : (users.length - k) / limit = (users.length - (k + limit)) / limit + 1 := by
          rw [← Nat.add_div_right _ hlimit]
          congr 1
          omega
        omega
      obtain ⟨pages, hfollow, hpeers, hsmall⟩ := ih hnext (Nat.le_of_lt hlt) hrest
      refine ⟨⟨((users.drop k).take limit).map intern, some (toString (k + limit))⟩ :: pages, ?_, ?_, ?_⟩
      · intro call
        rw [followCursor, listContacts_cached]
        simp only [hpage, if_pos hlt, hfollow, Except.map]
      · rw [List.flatMap_cons, hpeers, ← List.map_append, ← List.drop_drop, List.take_append_drop]
      · rintro page (_ | ⟨_, hmem⟩)
        · rw [List.length_map]
          exact List.length_take_le _ _
        · exact hsmall page hmem
    · have hall : (users.drop k).take limit = users.drop k :=
        List.take_of_length_le (by rw [List.length_drop]; omega)
      refine ⟨[⟨((users.drop k).take limit).map intern, none⟩], ?_, ?_, ?_⟩
      · intro call
        rw [followCursor, listContacts_cached]
        simp only [hpage, if_neg hlt]
      · simp [hall]
      · rintro page (_ | ⟨_, hmem⟩)
        · rw [List.length_map]
          exact List.length_take_le _ _
        · cases hmem

/-- Whatever contacts the server has, and whether it sends them inline or by reference: a caller that
follows the cursor from the start gets every contact once and in order, with the access hash of its
relation, in pages of at most `limit`, and comes to the end. All of it is fetched by the first call. -/
theorem contacts_walk (b : Book) (hb : b.Valid) (token : String) (limit : ℕ) (hlimit : 0 < limit) :
    ∃ pages, followCursor b.call limit (b.users.length / limit + 1) { token := some token } none =
        .ok (pages, true) ∧
      pages.flatMap (·.peers) = b.shown.map intern ∧ (∀ page ∈ pages, page.peers.length ≤ limit) ∧
      ∀ call, followCursor call limit (b.users.length / limit + 1)
        (listContacts b.call { token := some token } none none limit).2 none = .ok (pages, true) := by
  have hsize : b.users.length < 2 ^ 64 := by
    have hle := length_le_written (entities b.users)
    rw [entities, List.length_map] at hle
    have hfits := hb.entities_fit
    have hmax : ISIZE_MAX < 2 ^ 64 := by
      decide
    rw [entities] at hfits
    omega
  have hlen : b.shown.length = b.users.length := List.length_map _
  have hfirst : listContacts b.call { token := some token } none none limit =
      (.ok (pageOf b.shown none limit), { token := some token, contactCache := some b.shown }) := by
    simp only [listContacts, Option.filter_none, hb.fetch]
  obtain ⟨pages, hpages, hpeers, hsmall⟩ := @followCursor_cached token b.shown (hlen ▸ hsize) limit hlimit
    (b.users.length / limit + 1) none 0 rfl (Nat.zero_le _) (by rw [hlen]; exact Nat.lt_succ_self _)
  refine ⟨pages, ?_, hpeers, hsmall, fun call => ?_⟩
  · rw [← hpages b.call, followCursor, followCursor, hfirst, listContacts_cached]
  · rw [hfirst]
    exact hpages call

/-- Three contacts by reference, in pages of two. -/
theorem contacts_walk_three :
    let user (id : Int32) (name : String) : UserEntity := { id, name }
    let b : Book := ⟨[user 1 "a", user 2 "", user 3 "c"], fun id => id.toInt64, false⟩
    ∃ pages, followCursor b.call 2 (b.users.length / 2 + 1) { token := some "t" } none = .ok (pages, true) ∧
      pages.flatMap (·.peers) =
        [⟨1, 1, some "a"⟩, ⟨2, 2, some "2"⟩, ⟨3, 3, some "c"⟩] := by
  intro user b
  obtain ⟨pages, hfollow, hpeers, -⟩ := contacts_walk b ⟨by decide, by decide, by decide +kernel,
    by decide +kernel, by decide +kernel⟩ "t" 2 (by decide)
  refine ⟨pages, hfollow, hpeers.trans ?_⟩
  decide +kernel

end BaleVpn.Signaling
