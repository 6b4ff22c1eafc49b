import Mathlib.Logic.Function.Basic
import BaleVpn.Lib.Machine
import BaleVpn.Lib.Update
import BaleVpn.Signaling.Contacts
import BaleVpn.Signaling.Peers

/-!
# Display names (`ws.rs`, `contacts.rs`, `signaling.rs`)

A name comes into the cache on two ways: from a `LoadUsers` of its own, whose answer `ws.rs` looks through
itself, and from the contact list, whose entities `contacts.rs` decodes. The two readers of an entity agree on
whatever the server writes, so that what the cache says does not depend on which of them was last.

A load that fails leaves behind that there is no name, and nothing asks again.
-/

namespace BaleVpn.Signaling

open Lib Net

/-! ## The reader of `ws.rs` -/

/-- The loop over a wrapped nick. -/
def nickLoop : ℕ → String → ProtoReader → String
  | 0, nick, _ => nick
  | n + 1, nick, r =>
    if r.hasMore then
      match r.tag with
      | (.error _, _) => nick
      | (.ok (f, w), r) =>
        if f = 1 then nickLoop n (r.string.1.toOption.getD "") r.string.2
        else
          match r.skip w with
          | (.ok _, r) => nickLoop n nick r
          | (.error _, _) => nick
    else nick

/-- The name and the nick; none where the bytes of a nick cannot be read. -/
def nameLoop : ℕ → String × String → ProtoReader → Option (String × String)
  | 0, found, _ => some found
  | n + 1, found, r =>
    if r.hasMore then
      match r.tag with
      | (.error _, _) => some found
      | (.ok (f, w), r) =>
        if f = 3 then nameLoop n (r.string.1.toOption.getD "", found.2) r.string.2
        else if f = 9 then
          match r.bytes with
          | (.ok inner, r) => nameLoop n (found.1, nickLoop inner.length found.2 (ProtoReader.new inner)) r
          | (.error _, _) => none
        else
          match r.skip w with
          | (.ok _, r) => nameLoop n found r
          | (.error _, _) => some found
    else some found

def chosenName (name nick : String) : Option String :=
  if !name.isEmpty then some name else if !nick.isEmpty then some nick else none

def parseUserEntityName (buf : Bytes) : Option String :=
  (nameLoop buf.length ("", "") (ProtoReader.new buf)).bind fun found => chosenName found.1 found.2

def firstNameLoop : ℕ → ProtoReader → Option String
  | 0, _ => none
  | n + 1, r =>
    if r.hasMore then
      match r.tag with
      | (.error _, _) => none
      | (.ok (f, w), r) =>
        if f = 1 then
          match r.bytes with
          | (.ok entity, _) => parseUserEntityName entity
          | (.error _, _) => none
        else
          match r.skip w with
          | (.ok _, r) => firstNameLoop n r
          | (.error _, _) => none
    else none

def parseLoadUsersFirstName (buf : Bytes) : Option String := firstNameLoop buf.length (ProtoReader.new buf)

/-! ## The cache -/

/-- `load_user_name` -/
inductive NamePc
  | check
  | call
  | insert (name : Option String)
  | returned (name : Option String)
  deriving DecidableEq, Repr

structure NameLoad where
  uid : Int32
  pc : NamePc := .check
  deriving DecidableEq, Repr

structure SelfInfo where
  uid : Int32
  name : Option String
  deriving DecidableEq, Repr

structure NameCache where
  nameCache : Int32 → Option (Option String) := fun _ => none
  selfInfo : Option SelfInfo := none
  loads : List NameLoad := []
  /-- Whose `LoadUsers` has failed. -/
  failed : List Int32 := []

namespace NameCache

def insert (s : NameCache) (uid : Int32) (name : Option String) : NameCache :=
  { s with nameCache := Function.update s.nameCache uid (some name) }

/-- `cached_name` -/
def cachedName (s : NameCache) (uid : Int32) : Option String := (s.nameCache uid).join

def populateNames (s : NameCache) (entries : List (Int32 × Option String)) : NameCache :=
  entries.foldl (fun s e => if e.1 ≤ 0 then s else s.insert e.1 e.2) s

/-- The name of a peer goes into the cache with it. -/
def internPeer (s : NameCache) (src : PeerSource) : NameCache :=
  match src.args with
  | some args => { s with nameCache := PeerCache.populateNames s.nameCache args }
  | none => s

/-- What `load_full_contact_list` makes of the users before it stores them. -/
def contactNames (users : List UserEntity) : List (Int32 × Option String) :=
  users.map fun u => (u.id, if u.display.isEmpty then none else some u.display)

/-- The request of `load_user_name` and of `load_self`. -/
def loadRequest (uid : Int32) : Bytes :=
  let peer := ((ProtoWriter.new.int32 1 uid).int64 2 0).build
  (ProtoWriter.new.bytes 1 peer).build

/-- What the RPC answers to a request, unless it fails. -/
def step (rpc : Bytes → Bytes) (s : NameCache) (i : ℕ) (fails : Bool) : NameCache :=
  match s.loads[i]? with
  | none => s
  | some l =>
    let go (s : NameCache) (pc : NamePc) : NameCache := { s with loads := s.loads.set i { l with pc } }
    match l.pc with
    | .check =>
      if l.uid ≤ 0 then go s (.returned none)
      else
        match s.nameCache l.uid with
        | some cached => go s (.returned cached)
        | none => go s .call
    | .call =>
      if fails then go { s with failed := l.uid :: s.failed } (.insert none)
      else go s (.insert (parseLoadUsersFirstName (rpc (loadRequest l.uid))))
    | .insert name => go (s.insert l.uid name) (.returned name)
    | .returned _ => s

/-- `load_self`, for the uid that `decode_jwt_user_id` finds in the token. -/
def loadSelf (rpc : Bytes → Bytes) (s : NameCache) (uid : Int32) (fails : Bool) : NameCache :=
  if fails then { s with selfInfo := some ⟨uid, none⟩, failed := uid :: s.failed }
  else { s with selfInfo := some ⟨uid, parseLoadUsersFirstName (rpc (loadRequest uid))⟩ }

def whoami (s : NameCache) : NameCache :=
  match s.selfInfo with
  | none => s
  | some info => s.internPeer (.whoami info.uid info.name)

end NameCache

/-! ## A server that knows its users -/

/-- A part of an entity as it is written. -/
inductive UserPart
  | id (v : Int32)
  | accessHash (v : Int64)
  | name (s : String)
  | nick (s : String)
  | other (f : UInt32) (v : FieldValue) (hf : f ∉ [1, 2, 3, 9])

def UserPart.field : UserPart → UInt32 × FieldValue
  | .id v => (1, .int32 v)
  | .accessHash v => (2, .int64 v)
  | .name s => (3, .string s)
  | .nick s => (9, .bytes (written [(1, .string s)]))
  | .other f v _ => (f, v)

def UserPart.take (u : UserEntity) : UserPart → UserEntity
  | .id v => { u with id := v }
  | .accessHash v => { u with accessHash := v }
  | .name s => { u with name := s }
  | .nick s => { u with nick := s }
  | .other .. => u

/-- The entity that the parts make, where a later one takes the place of an earlier one. -/
def userOf (parts : List UserPart) : UserEntity := parts.foldl UserPart.take {}

def userFields (users : List (List UserPart)) : List (UInt32 × FieldValue) :=
  users.map fun parts => (1, .bytes (written (parts.map UserPart.field)))

/-- The entity of each uid, in the parts that the server writes. -/
structure Directory where
  parts : Int32 → List UserPart
  own : ∀ uid, (userOf (parts uid)).id = uid
  fits : ∀ uid, (written (userFields [parts uid])).length ≤ ISIZE_MAX

namespace Directory

variable (d : Directory)

/-- What the server answers about these users. -/
def users (uids : List Int32) : Bytes := written (userFields (uids.map d.parts))

/-- `LoadUsers`: the entities of those that the request names. -/
def loadUsers (req : Bytes) : Bytes := d.users ((decodeRawSearch req 0 1).2.map UserPeerRef.uid)

/-- The name of a user, if there is one. -/
def name (uid : Int32) : Option String := chosenName (userOf (d.parts uid)).name (userOf (d.parts uid)).nick

/-- What is shown for a user. -/
def shown (uid : Int32) : String := (d.name uid).getD (i32ToString uid)

end Directory

/-- What an answer with entities comes to: `LoadUsers`, the inline users of `GetContacts`, or a search whose
references would stand in another field. -/
inductive UsersReply
  | loadUsers
  | getContacts
  | search (peerField : UInt32)
  deriving DecidableEq, Repr

def UsersReply.decode : UsersReply → Bytes → List UserEntity
  | .loadUsers, buf => decodeUsersResponse buf
  | .getContacts, buf => (decodeGetContactsResponse buf).inlineUsers
  | .search peerField, buf => (decodeRawSearch buf 1 peerField).1

inductive NameMove (d : Directory)
  | load (uid : Int32)
  | step (i : ℕ) (fails : Bool)
  | loadSelf (uid : Int32) (fails : Bool)
  | whoami
  /-- The contact list has come in, with these users. -/
  | contacts (reply : UsersReply) (uids : List Int32) (hfits : (d.users uids).length ≤ ISIZE_MAX)
  /-- The `i`-th user of an answer is made a peer, for a page or for a search, with its own access hash or that
  of a reference. -/
  | peer (reply : UsersReply) (uids : List Int32) (hfits : (d.users uids).length ≤ ISIZE_MAX) (i : ℕ)
      (accessHash : Int64)

namespace NameCache

def move (d : Directory) (s : NameCache) : NameMove d → NameCache
  | .load uid => { s with loads := s.loads ++ [{ uid }] }
  | .step i fails => s.step d.loadUsers i fails
  | .loadSelf uid fails => s.loadSelf d.loadUsers uid fails
  | .whoami => s.whoami
  | .contacts reply uids _ => s.populateNames (contactNames (reply.decode (d.users uids)))
  | .peer reply uids _ i accessHash =>
    match (reply.decode (d.users uids))[i]? with
    | some u => s.internPeer (.contact u.id accessHash u.display)
    | none => s

def run (d : Directory) (ms : List (NameMove d)) : NameCache := ms.foldl (move d) {}

/-- What is known of a user is what the directory says, and that there is nothing only where it says nothing or
a load has failed. -/
def Knows (d : Directory) (s : NameCache) (uid : Int32) : Option String → Prop
  | some n => n = d.shown uid
  | none => d.name uid = none ∨ uid ∈ s.failed

structure Coherent (d : Directory) (s : NameCache) : Prop where
  cached : ∀ uid name, s.nameCache uid = some name → s.Knows d uid name
  self : ∀ info, s.selfInfo = some info → s.Knows d info.uid info.name
  loads : ∀ l ∈ s.loads, ∀ name, l.pc = .insert name → s.Knows d l.uid name
  returned : ∀ l ∈ s.loads, ∀ name, l.pc = .returned name → 0 < l.uid → s.Knows d l.uid name

end NameCache

/-! ## The two readers -/

theorem userEntity_none {f : UInt32} (hf : f ∉ [1, 2, 3, 9]) : userEntity.field f = none := by
  simp only [userEntity]
  split <;> first | rfl | exact absurd (by decide) hf

theorem UserPart.typed (parts : List UserPart) : Typed userEntity.field (parts.map UserPart.field) := by
  intro x hx read hread
  obtain ⟨part, -, rfl⟩ := List.mem_map.mp hx
  cases part with
  | id | accessHash | name | nick =>
    obtain rfl := Option.some.inj hread
    rfl
  | other f v hf =>
    rw [show userEntity.field (UserPart.other f v hf).field.1 = none from userEntity_none hf] at hread
    cases hread

theorem nick_fits {parts : List UserPart} (hfits : (written (parts.map UserPart.field)).length ≤ ISIZE_MAX)
    {s : String} (hs : UserPart.nick s ∈ parts) : (written [(1, .string s)]).length ≤ ISIZE_MAX := by
  obtain ⟨front, after, rfl⟩ := List.append_of_mem hs
  rw [List.map_append, List.map_cons] at hfits
  exact Nat.le_trans (length_le_bytes_field _ _ 9 _) hfits

theorem UserPart.takeField (u : UserEntity) (part : UserPart)
    (hnick : ∀ s, part = .nick s → (written [(1, .string s)]).length ≤ ISIZE_MAX) :
    Signaling.takeField userEntity.field u part.field = part.take u := by
  cases part with
  | nick s => simp [Signaling.takeField, UserPart.field, userEntity, FieldRead.take, FieldValue.image, UserPart.take,
      parseWrappedString_written s (hnick s rfl)]
  | other f v hf => simp only [Signaling.takeField, UserPart.field, userEntity_none hf, UserPart.take]
  | id | accessHash | name =>
    simp [Signaling.takeField, UserPart.field, userEntity, FieldRead.take, FieldValue.image, UserPart.take]

theorem decodeUserEntity_parts {parts : List UserPart}
    (hfits : (written (parts.map UserPart.field)).length ≤ ISIZE_MAX) :
    decodeUserEntity (written (parts.map UserPart.field)) = userOf parts := by
  have hfold : ∀ {l : List UserPart} (u : UserEntity), (∀ part ∈ l, part ∈ parts) →
      (l.map UserPart.field).foldl (Signaling.takeField userEntity.field) u = l.foldl UserPart.take u := by
    intro l
    induction l with
    | nil => exact fun _ _ => rfl
    | cons part l ih =>
      intro u hmem
      have hpart := hmem part List.mem_cons_self
      rw [List.map_cons, List.foldl_cons, List.foldl_cons, UserPart.takeField u part fun s hs => ?_]
      · exact ih _ fun x hx => hmem x (List.mem_cons_of_mem _ hx)
      · exact nick_fits hfits (hs ▸ hpart)
  rw [decodeUserEntity, userEntity.run_written (UserPart.typed parts) hfits]
  exact hfold _ fun _ h => h

theorem nickLoop_written (nick s : String) (hfits : (written [(1, .string s)]).length ≤ ISIZE_MAX) :
    nickLoop (written [(1, .string s)]).length nick (ProtoReader.new (written [(1, .string s)])) = s := by
  obtain ⟨tagged, next, htag, hread, -, rfl⟩ := @read_field [] [] 1 (.string s) hfits
  have hmore := hasMore_written [] [] (1, .string s)
  have hpos := length_written_lt [] [] (1, .string s)
  rw [List.nil_append] at htag hmore hpos
  obtain ⟨n, hn⟩ : ∃ n, (written [(1, .string s)]).length = n + 1 :=
    ⟨_, (Nat.succ_pred_eq_of_pos (Nat.lt_of_le_of_lt (Nat.zero_le _) hpos)).symm⟩
  change (ProtoReader.new (written [(1, .string s)])).tag = _ at htag
  change (ProtoReader.new (written [(1, .string s)])).hasMore = true at hmore
  rw [hn, nickLoop, if_pos hmore, htag]
  simp only [if_pos, string_of_read hread]
  cases n with
  | zero => rfl
  | succ n =>
    rw [nickLoop, if_neg (by simp [ProtoReader.hasMore])]
    rfl

theorem nameLoop_written {parts : List UserPart} :
    ∀ {front : List (UInt32 × FieldValue)}, (written (front ++ parts.map UserPart.field)).length ≤ ISIZE_MAX →
      ∀ {n : ℕ}, parts.length ≤ n → ∀ u : UserEntity,
        nameLoop n (u.name, u.nick) ⟨written (front ++ parts.map UserPart.field), (written front).length⟩ =
          some ((parts.foldl UserPart.take u).name, (parts.foldl UserPart.take u).nick) := by
  induction parts with
  | nil =>
    intro front _ n _ u
    rw [List.map_nil, List.append_nil]
    cases n <;> simp [nameLoop, ProtoReader.hasMore]
  | cons part parts ih =>
    intro front hfits n hn u
    obtain ⟨n, rfl⟩ : ∃ k, n = k + 1 := ⟨n - 1, by simp only [List.length_cons] at hn; omega⟩
    rw [List.map_cons] at hfits ⊢
    obtain ⟨tagged, next, htag, hread, hskip, rfl⟩ := read_field (f := part.field.1) (v := part.field.2) hfits
    have hrest := @ih (front ++ [part.field]) (by rwa [List.append_assoc]) n (by simpa using hn) (part.take u)
    rw [List.append_assoc, List.singleton_append] at hrest
    rw [nameLoop, if_pos (hasMore_written front _ part.field), htag, List.foldl_cons]
    simp only
    have hpass {found : String × String} {goal : Option (String × String)} (h3 : part.field.1 ≠ 3)
        (h9 : part.field.1 ≠ 9) (hgo : nameLoop n found ⟨written (front ++ part.field :: parts.map UserPart.field),
          (written (front ++ [part.field])).length⟩ = goal) :
        (if part.field.1 = 3 then nameLoop n (tagged.string.1.toOption.getD "", found.2) tagged.string.2
          else if part.field.1 = 9 then
            match tagged.bytes with
            | (.ok inner, r) => nameLoop n (found.1, nickLoop inner.length found.2 (ProtoReader.new inner)) r
            | (.error _, _) => none
          else
            match tagged.skip part.field.2.wire with
            | (.ok _, r) => nameLoop n found r
            | (.error _, _) => some found) = goal := by
      rw [if_neg h3, if_neg h9, hskip]
      exact hgo
    cases part with
    | name s =>
      simp only [UserPart.field, if_pos, string_of_read hread]
      exact hrest
    | nick s =>
      have hnick := Nat.le_trans (length_le_bytes_field front _ 9 _) hfits
      simp only [UserPart.field, if_neg (show ¬ (9 : UInt32) = 3 by decide), if_pos, bytes_of_read hread,
        nickLoop_written _ s hnick]
      exact hrest
    | id v => exact hpass (show (1 : UInt32) ≠ 3 by decide) (show (1 : UInt32) ≠ 9 by decide) hrest
    | accessHash v => exact hpass (show (2 : UInt32) ≠ 3 by decide) (show (2 : UInt32) ≠ 9 by decide) hrest
    | other f v hf =>
      simp only [List.mem_cons, List.not_mem_nil, or_false, not_or] at hf
      exact hpass hf.2.2.1 hf.2.2.2 hrest

/-- The reader of `ws.rs` finds the name of the entity that the other one decodes. -/
theorem parseUserEntityName_parts {parts : List UserPart}
    (hfits : (written (parts.map UserPart.field)).length ≤ ISIZE_MAX) :
    parseUserEntityName (written (parts.map UserPart.field)) = chosenName (userOf parts).name (userOf parts).nick := by
  have hlen := length_le_written (parts.map UserPart.field)
  rw [List.length_map] at hlen
  have hloop := @nameLoop_written parts [] hfits _ hlen {}
  rw [parseUserEntityName, ProtoReader.new]
  change Option.bind (nameLoop _ _ ⟨written (parts.map UserPart.field), 0⟩) _ = _
  exact congrArg (fun found => Option.bind found _) hloop

theorem userFields_eq (users : List (List UserPart)) :
    userFields users = (users.map fun parts => written (parts.map UserPart.field)).map fun b => (1, .bytes b) := by
  simp [userFields]

theorem UsersReply.decode_parts (reply : UsersReply) {users : List (List UserPart)}
    (hfits : (written (userFields users)).length ≤ ISIZE_MAX) :
    reply.decode (written (userFields users)) = users.map userOf := by
  have hdecode : (users.map fun parts => written (parts.map UserPart.field)).map decodeUserEntity = users.map userOf := by
    rw [userFields_eq] at hfits
    rw [List.map_map]
    exact List.map_congr_left fun parts hparts =>
      decodeUserEntity_parts (fits_of_mem (List.mem_map.mpr ⟨parts, hparts, rfl⟩) hfits)
  rw [userFields_eq] at hfits ⊢
  cases reply with
  | loadUsers =>
    rw [decode, decodeUsersResponse, usersResponse.run_written (typed_push rfl _) hfits,
      @foldl_push _ _ usersResponse.field 1 _ rfl (fun xs out => out ++ xs) decodeUserEntity
        (fun _ _ => rfl) (fun _ _ _ => List.append_assoc _ _ _) List.append_nil, hdecode]
    rfl
  | getContacts =>
    rw [decode, decodeGetContactsResponse, contactPeers.run_written (typed_push rfl _) hfits,
      @foldl_push _ _ contactPeers.field 1 _ rfl (fun xs c => { c with inlineUsers := c.inlineUsers ++ xs })
        decodeUserEntity (fun _ _ => rfl) (fun _ _ _ => by simp) (fun _ => by simp), hdecode]
    rfl
  | search peerField =>
    rw [decode, decodeRawSearch, (rawSearch 1 peerField).run_written (typed_push rfl _) hfits,
      @foldl_push _ _ (rawSearch 1 peerField).field 1 _ rfl (fun xs out => (out.1 ++ xs, out.2)) decodeUserEntity
        (fun _ _ => rfl) (fun _ _ _ => by simp) (fun _ => by simp), hdecode]
    rfl

theorem parseLoadUsersFirstName_parts {parts : List UserPart} {users : List (List UserPart)}
    (hfits : (written (userFields (parts :: users))).length ≤ ISIZE_MAX) :
    parseLoadUsersFirstName (written (userFields (parts :: users))) =
      chosenName (userOf parts).name (userOf parts).nick := by
  have hinner : (written (parts.map UserPart.field)).length ≤ ISIZE_MAX :=
    Nat.le_trans (length_le_bytes_field [] (userFields users) 1 _) hfits
  obtain ⟨tagged, next, htag, hread, -, -⟩ :=
    @read_field [] (userFields users) 1 (.bytes (written (parts.map UserPart.field))) hfits
  have hmore := hasMore_written [] (userFields users) (1, .bytes (written (parts.map UserPart.field)))
  have hpos := length_written_lt [] (userFields users) (1, .bytes (written (parts.map UserPart.field)))
  rw [List.nil_append] at htag hmore hpos
  change (written (userFields (parts :: users))).length > _ at hpos
  obtain ⟨n, hn⟩ : ∃ n, (written (userFields (parts :: users))).length = n + 1 :=
    ⟨_, (Nat.succ_pred_eq_of_pos (Nat.lt_of_le_of_lt (Nat.zero_le _) hpos)).symm⟩
  change (ProtoReader.new (written (userFields (parts :: users)))).tag = _ at htag
  change (ProtoReader.new (written (userFields (parts :: users)))).hasMore = true at hmore
  rw [parseLoadUsersFirstName, hn, firstNameLoop, if_pos hmore, htag]
  simp only [if_pos, bytes_of_read hread]
  exact parseUserEntityName_parts hinner

/-! ## What comes into the cache -/

theorem loadRequest_eq (uid : Int32) : NameCache.loadRequest uid = buildLoadUsersRequest [⟨uid, 0⟩] := by
  simp [NameCache.loadRequest, buildLoadUsersRequest]

theorem varintBytes_length_le_ten (v : UInt64) : (varintBytes v).length ≤ 10 :=
  varintBytes_length_le v 9 (Nat.lt_trans v.toNat_lt (by decide))

theorem short_field_fits (f : UInt32) {b : Bytes} (hb : b.length ≤ 40) :
    (written [(f, .bytes b)]).length ≤ ISIZE_MAX := by
  have hsize : 60 ≤ ISIZE_MAX := by decide
  have htag := varintBytes_length_le_ten (tagOf f 2)
  have hlen := varintBytes_length_le_ten (UInt64.ofNat b.length)
  simp only [written_eq, List.flatMap_cons, List.flatMap_nil, fieldBytes, ProtoWriter.field, ProtoWriter.bytes,
    ProtoWriter.tag, ProtoWriter.varint, ProtoWriter.new, List.length_append, List.length_nil]
  simp only [tagOf] at htag
  omega

theorem short_references (uid : Int32) (hash : Int64) : (written (refFields ⟨uid, hash⟩)).length ≤ 40 := by
  have h1 := varintBytes_length_le_ten (tagOf 1 0)
  have h2 := varintBytes_length_le_ten uid.toUInt32.toUInt64
  have h3 := varintBytes_length_le_ten (tagOf 2 0)
  have h4 := varintBytes_length_le_ten hash.toUInt64
  simp only [refFields, written_eq, List.flatMap_cons, List.flatMap_nil, fieldBytes, ProtoWriter.field,
    ProtoWriter.int32, ProtoWriter.int64, ProtoWriter.tag, ProtoWriter.varint, ProtoWriter.new, List.length_append,
    List.length_nil]
  simp only [tagOf] at h1 h3
  omega

theorem loadRequest_fits (uid : Int32) : (written (references 1 [⟨uid, 0⟩])).length ≤ ISIZE_MAX :=
  short_field_fits 1 (short_references uid 0)

/-- A server of which each user has a uid and an access hash, and no name. -/
instance : Inhabited Directory where
  default :=
    { parts := fun uid => [.id uid, .accessHash 0]
      own := fun _ => rfl
      fits := fun uid => short_field_fits 1 (short_references uid 0) }

namespace Directory

variable (d : Directory)

theorem loadUsers_one (uid : Int32) : d.loadUsers (NameCache.loadRequest uid) = written (userFields [d.parts uid]) := by
  rw [loadUsers, loadRequest_eq, decodeRawSearch_request (loadRequest_fits uid)]
  rfl

theorem load_answer (uid : Int32) : parseLoadUsersFirstName (d.loadUsers (NameCache.loadRequest uid)) = d.name uid := by
  rw [d.loadUsers_one, parseLoadUsersFirstName_parts (d.fits uid), name]

end Directory

theorem display_eq (u : UserEntity) : u.display = (chosenName u.name u.nick).getD (i32ToString u.id) := by
  unfold UserEntity.display chosenName
  split_ifs <;> rfl

theorem i32ToString_ne_empty (v : Int32) : i32ToString v ≠ "" := by
  intro h
  have hparse := parseI32_i32ToString v
  rw [h] at hparse
  cases hparse

theorem display_ne_empty (u : UserEntity) : u.display.isEmpty = false := by
  unfold UserEntity.display
  split_ifs with hname hnick
  · simpa using hname
  · simpa using hnick
  · simpa using i32ToString_ne_empty u.id

theorem contactNames_parts (d : Directory) (uids : List Int32) :
    NameCache.contactNames ((uids.map d.parts).map userOf) = uids.map fun uid => (uid, some (d.shown uid)) := by
  rw [NameCache.contactNames, List.map_map, List.map_map]
  apply List.map_congr_left
  intro uid _
  have hown := d.own uid
  simp only [Function.comp_apply, display_ne_empty (userOf (d.parts uid)), Bool.false_eq_true, if_false, hown]
  rw [display_eq, hown]
  rfl

namespace NameCache

variable {d : Directory} {s : NameCache}

theorem Coherent.insert (h : s.Coherent d) {uid : Int32} {name : Option String} (hknows : s.Knows d uid name) :
    (s.insert uid name).Coherent d where
  cached v name' hv := by
    change Function.update s.nameCache uid (some name) v = some name' at hv
    by_cases hvu : v = uid
    · subst hvu
      rw [Function.update_self, Option.some.injEq] at hv
      exact hv ▸ hknows
    · rw [Function.update_of_ne hvu] at hv
      exact h.cached v name' hv
  self := h.self
  loads := h.loads
  returned := h.returned

theorem Coherent.contacts (h : s.Coherent d) (uids : List Int32) :
    (s.populateNames (uids.map fun uid => (uid, some (d.shown uid)))).Coherent d := by
  induction uids generalizing s with
  | nil => exact h
  | cons uid uids ih =>
    rw [List.map_cons, populateNames, List.foldl_cons]
    split_ifs
    · exact ih h
    · exact ih (h.insert rfl)

theorem Knows.mono {s' : NameCache} (hfailed : ∀ uid ∈ s.failed, uid ∈ s'.failed) {uid : Int32}
    {name : Option String} (h : s.Knows d uid name) : s'.Knows d uid name := by
  cases name with
  | some n => exact h
  | none => exact h.imp id (hfailed uid)

theorem Coherent.go (h : s.Coherent d) {i : ℕ} {l : NameLoad} {pc : NamePc}
    (hinsert : ∀ name, pc = .insert name → s.Knows d l.uid name)
    (hreturned : ∀ name, pc = .returned name → 0 < l.uid → s.Knows d l.uid name) :
    { s with loads := s.loads.set i { l with pc } }.Coherent d where
  cached := h.cached
  self := h.self
  loads x hx name hpc := by
    rcases List.mem_or_eq_of_mem_set hx with hx | rfl
    · exact h.loads x hx name hpc
    · exact hinsert name hpc
  returned x hx name hpc hpos := by
    rcases List.mem_or_eq_of_mem_set hx with hx | rfl
    · exact h.returned x hx name hpc hpos
    · exact hreturned name hpc hpos

theorem Coherent.fail (h : s.Coherent d) (uid : Int32) : { s with failed := uid :: s.failed }.Coherent d where
  cached v name hv := (h.cached v name hv).mono fun _ hmem => List.mem_cons_of_mem _ hmem
  self info hinfo := (h.self info hinfo).mono fun _ hmem => List.mem_cons_of_mem _ hmem
  loads l hl name hpc := (h.loads l hl name hpc).mono fun _ hmem => List.mem_cons_of_mem _ hmem
  returned l hl name hpc hpos := (h.returned l hl name hpc hpos).mono fun _ hmem => List.mem_cons_of_mem _ hmem

theorem knows_name (s : NameCache) (uid : Int32) : s.Knows d uid (d.name uid) := by
  rcases hname : d.name uid with - | n
  · exact .inl hname
  · exact (congrArg (fun o : Option String => o.getD (i32ToString uid)) hname).symm

theorem Coherent.step (h : s.Coherent d) (i : ℕ) (fails : Bool) : (s.step d.loadUsers i fails).Coherent d := by
  unfold NameCache.step
  split
  · exact h
  · next l hl =>
    have hmem := List.mem_of_getElem? hl
    split
    · next hpc =>
      split_ifs with hpos
      · refine h.go nofun fun _ _ hlt => ?_
        exact absurd hlt (Int32.not_lt.mpr hpos)
      · split
        · next cached hcached =>
          refine h.go nofun fun name hname _ => ?_
          obtain rfl := NamePc.returned.inj hname
          exact h.cached l.uid _ hcached
        · exact h.go nofun nofun
    · next hpc =>
      split_ifs with hfails
      · refine (h.fail l.uid).go (fun name hname => ?_) nofun
        obtain rfl := NamePc.insert.inj hname
        exact .inr List.mem_cons_self
      · refine h.go (fun name hname => ?_) nofun
        obtain rfl := NamePc.insert.inj hname
        rw [d.load_answer]
        exact s.knows_name l.uid
    · next name hpc =>
      have hknows := h.loads l hmem name hpc
      refine (h.insert hknows).go nofun fun name' hname' _ => ?_
      obtain rfl := NamePc.returned.inj hname'
      exact hknows
    · exact h

theorem Coherent.setSelf (h : s.Coherent d) {info : SelfInfo} (hknows : s.Knows d info.uid info.name) :
    { s with selfInfo := some info }.Coherent d where
  cached := h.cached
  self info' hinfo := by
    obtain rfl := Option.some.inj hinfo
    exact hknows
  loads := h.loads
  returned := h.returned

theorem Coherent.loadSelf (h : s.Coherent d) (uid : Int32) (fails : Bool) :
    (s.loadSelf d.loadUsers uid fails).Coherent d := by
  unfold NameCache.loadSelf
  split_ifs
  · exact (h.fail uid).setSelf (.inr List.mem_cons_self)
  · refine h.setSelf ?_
    rw [d.load_answer]
    exact s.knows_name uid

theorem Coherent.internPeer (h : s.Coherent d) {src : PeerSource}
    (hname : ∀ args, src.args = some args → ∀ n, args.displayName = some n → n = d.shown args.uid) :
    (s.internPeer src).Coherent d := by
  unfold NameCache.internPeer
  split
  · next args hargs =>
    rcases hn : args.displayName with - | n
    · simpa only [PeerCache.populateNames, hn] using h
    · simp only [PeerCache.populateNames, hn]
      split_ifs
      · exact h
      · exact h.insert (hname args hargs n hn)
  · exact h

theorem Coherent.whoami (h : s.Coherent d) : s.whoami.Coherent d := by
  unfold NameCache.whoami
  split
  · exact h
  · next info hinfo =>
    refine h.internPeer fun args hargs n hn => ?_
    obtain rfl := Option.some.inj hargs
    have hknows := h.self info hinfo
    rwa [show info.name = some n from hn] at hknows

theorem display_shown (d : Directory) (uid : Int32) : (userOf (d.parts uid)).display = d.shown uid := by
  rw [display_eq, d.own]
  rfl

theorem Coherent.move (h : s.Coherent d) (m : NameMove d) : (s.move d m).Coherent d := by
  cases m with
  | load uid =>
    refine ⟨h.cached, h.self, fun l hl name hpc => ?_, fun l hl name hpc hpos => ?_⟩
    · rcases List.mem_append.mp hl with hl | hl
      · exact h.loads l hl name hpc
      · rw [List.mem_singleton.mp hl] at hpc
        cases hpc
    · rcases List.mem_append.mp hl with hl | hl
      · exact h.returned l hl name hpc hpos
      · rw [List.mem_singleton.mp hl] at hpc
        cases hpc
  | step i fails => exact h.step i fails
  | loadSelf uid fails => exact h.loadSelf uid fails
  | whoami => exact h.whoami
  | contacts reply uids hfits =>
    change (s.populateNames (contactNames (reply.decode (d.users uids)))).Coherent d
    rw [Directory.users, reply.decode_parts hfits, contactNames_parts]
    exact h.contacts uids
  | peer reply uids hfits i accessHash =>
    change NameCache.Coherent d (match (reply.decode (d.users uids))[i]? with
      | some u => s.internPeer (.contact u.id accessHash u.display)
      | none => s)
    split
    · next u hu =>
      rw [Directory.users, reply.decode_parts hfits] at hu
      obtain ⟨parts, hparts, rfl⟩ := List.mem_map.mp (List.mem_of_getElem? hu)
      obtain ⟨uid, -, rfl⟩ := List.mem_map.mp hparts
      refine h.internPeer fun args hargs n hn => ?_
      obtain rfl := Option.some.inj hargs
      rw [← Option.some.inj hn, display_shown, d.own]
    · exact h

theorem Coherent.run (d : Directory) (ms : List (NameMove d)) : (run d ms).Coherent d :=
  foldl_invariant (I := Coherent d) (fun _ _ h => h.move _) ms ⟨nofun, nofun, nofun, nofun⟩

/-- Whatever order the loads, the contact lists and the peers come in, a name in the cache or in a load's hand is
the one that is shown for the user. There is none only of a user without one, or after a load that failed. -/
theorem names_of_directory (d : Directory) (ms : List (NameMove d)) :
    (∀ uid n, (run d ms).cachedName uid = some n → n = d.shown uid) ∧
      (∀ uid, (run d ms).nameCache uid = some none → d.name uid = none ∨ uid ∈ (run d ms).failed) ∧
      ∀ l ∈ (run d ms).loads, ∀ name, l.pc = .returned name → 0 < l.uid →
        match name with
        | some n => n = d.shown l.uid
        | none => d.name l.uid = none ∨ l.uid ∈ (run d ms).failed := by
  have h := Coherent.run d ms
  refine ⟨fun uid n hn => ?_, fun uid hnone => h.cached uid none hnone, fun l hl name hpc hpos => ?_⟩
  · exact h.cached uid (some n) (Option.join_eq_some_iff.mp hn)
  · have hknows := h.returned l hl name hpc hpos
    cases name with
    | some n => exact hknows
    | none => exact hknows

end NameCache

end BaleVpn.Signaling
