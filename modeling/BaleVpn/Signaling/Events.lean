import Mathlib.Algebra.Group.Int.Defs
import BaleVpn.Signaling.Walks
import BaleVpn.Signaling.Written

/-!
# The call events that the server pushes (`ws.rs`)

A push is a message in a message in a message: the container has updates, an update has the `xC` union with
its events, an event has a call and those who take part in it. Whatever the server puts together of these
with the client's own writer, the walk over it fires what was meant, in order, and passes over the rest.
-/

namespace BaleVpn.Signaling

open Lib Audit Net

namespace Walk

variable {σ β ι : Type}

/-! ## A walk over what was written -/

/-- What a loop makes of the items ahead. -/
def takeItems (step : σ → ι → Round σ β) (behind : σ → β) : σ → List ι → β
  | a, [] => behind a
  | a, x :: xs =>
    match step a x with
    | .next a => takeItems step behind a xs
    | .leave b => b

/-- The round, with the reader behind the item. -/
def reach (r : ProtoReader) : Round σ β → Round (σ × ProtoReader) β
  | .next a => .next (a, r)
  | .leave b => .leave b

/-- The reader stands behind the tag of `v`, and the next tag is where `r'` is. -/
structure Ahead (v : FieldValue) (r r' : ProtoReader) : Prop where
  within : r.Within
  read : r.read v.kind = (.ok v.image, r')
  skip : r.skip v.wire = (.ok (), r')

theorem length_of_mem {field : ι → UInt32 × FieldValue} {items : List ι} {x : ι} (hx : x ∈ items)
    {f : UInt32} {b : Bytes} (hb : field x = (f, .bytes b)) : b.length ≤ (written (items.map field)).length := by
  obtain ⟨front, after, rfl⟩ := List.append_of_mem hx
  rw [List.map_append, List.map_cons, hb]
  exact length_le_bytes_field _ _ f b

/-- A loop whose rounds make of each item what `step` says makes of the message what `step` makes of the
items. -/
theorem ends_written {failed : ProtoError → σ → β}
    {body : σ → UInt32 → UInt32 → ProtoReader → Walk (Round (σ × ProtoReader) β)} {behind : σ → β}
    (field : ι → UInt32 × FieldValue) (step : σ → ι → Round σ β) {items : List ι}
    (hbody : ∀ a x f v r r', x ∈ items → field x = (f, v) → Ahead v r r' →
      Ends (body a f v.wire r) (· = reach r' (step a x)))
    {a : σ} (hfits : (written (items.map field)).length ≤ ISIZE_MAX) {b : β}
    (hb : takeItems step behind a items = b) :
    Ends (eachTag failed body behind a (written (items.map field))) (· = b) := by
  subst hb
  refine Ends.eachTag (I := fun a' r => ∃ done rest, items = done ++ rest ∧
    r = ⟨written (items.map field), (written (done.map field)).length⟩ ∧
    takeItems step behind a' rest = takeItems step behind a items) ?_ ?_ ?_ ⟨[], items, rfl, rfl, rfl⟩ hfits
  · rintro a' r₀ f w r ⟨done, _ | ⟨x, rest⟩, rfl, rfl, hrest⟩ hmore htag hpast
    · simp [ProtoReader.hasMore] at hmore
    · rw [List.map_append, List.map_cons] at hfits htag hpast ⊢
      obtain ⟨tagged, next, htag', hread, hskip, hnext⟩ := read_field (f := (field x).1) hfits
      obtain ⟨hfw, rfl⟩ := Prod.mk.inj (htag.symm.trans htag')
      obtain ⟨rfl, rfl⟩ := Prod.mk.inj (Except.ok.inj hfw)
      have hon := hpast.skip (field x).2.wire
      rw [hskip] at hon
      apply (hbody a' x _ _ _ next (List.mem_append_right _ List.mem_cons_self) rfl
        ⟨hpast.within, hread, hskip⟩).mono
      rintro _ rfl
      rw [takeItems] at hrest
      rcases hstep : step a' x with a'' | b
      · rw [hstep] at hrest
        refine ⟨⟨done ++ [x], rest, List.append_cons done x rest, ?_, hrest⟩, hon⟩
        rw [hnext, List.map_append, List.map_singleton]
      · rw [hstep] at hrest
        exact hrest
  · rintro a' r e r' ⟨done, _ | ⟨x, rest⟩, rfl, rfl, hrest⟩ hmore htag
    · simp [ProtoReader.hasMore] at hmore
    · rw [List.map_append, List.map_cons] at hfits htag
      obtain ⟨tagged, next, htag', -⟩ := read_field (f := (field x).1) hfits
      cases htag.symm.trans htag'
  · rintro a' r ⟨done, _ | ⟨x, rest⟩, rfl, rfl, hrest⟩ hnone
    · exact hrest
    · rw [List.map_append, List.map_cons, hasMore_written] at hnone
      cases hnone

namespace Ahead

variable {v : FieldValue} {r r' : ProtoReader}

theorem bytes {b : Bytes} (h : Ahead (.bytes b) r r') : Ends (Walk.bytes r) (· = (.ok b, r')) := by
  have hread : (r.bytes.1.map ReadValue.bytes, r.bytes.2) = (.ok (.bytes b), r') := h.read
  apply (ends_bytes h.within).mono
  rintro _ rfl
  rcases hr : r.bytes with ⟨e | b', r₁⟩
  · simp [hr, Except.map] at hread
  · simp only [hr, Except.map, Prod.mk.injEq, Except.ok.injEq, ReadValue.bytes.injEq] at hread
    rw [hread.1, hread.2]

theorem varintOr {x : UInt64} (hk : v.kind = .varint) (hx : v.image = .varint x) (h : Ahead v r r') :
    Ends (Walk.varintOr r) (· = (x, r')) := by
  have hread : (r.varint.1.map ReadValue.varint, r.varint.2) = (.ok (.varint x), r') := by
    have hr := h.read
    rwa [hk, hx] at hr
  apply (ends_varintOr h.within).mono
  rintro _ rfl
  rcases hr : r.varint with ⟨e | x', r₁⟩
  · simp [hr, Except.map] at hread
  · simp only [hr, Except.map, Prod.mk.injEq, Except.ok.injEq, ReadValue.varint.injEq] at hread
    simp [hread.1, hread.2, Except.toOption]

theorem skipOr {failed : ProtoError → β} {a : σ} (h : Ahead v r r') :
    Ends (Walk.skipOr failed a v.wire r) (· = .next (a, r')) := by
  apply (ends_skip h.within v.wire).bind_eq
  rw [h.skip]
  exact .pure rfl

end Ahead

end Walk

/-! ## What the server writes -/

/-- A participant of a call: the kind of peer is a small number, an uid is 100 or more. -/
structure Participant where
  field : UInt32
  peerType : Int32
  uid : Int32
  accessHash : Int64
  beside : field ≠ 1
  small : peerType < 100
  uidRange : 100 ≤ uid

def Participant.fields (p : Participant) : List (UInt32 × FieldValue) :=
  [(1, .int32 p.peerType), (2, .int32 p.uid), (3, .int64 p.accessHash)]

def Wire.CallEntity.fields (c : Wire.CallEntity) : List (UInt32 × FieldValue) :=
  [(1, .int64 c.callId), (2, .string c.token), (3, .string c.room), (4, .bytes (written [(1, .string c.url)])),
    (5, .bool c.video), (6, .int64 c.createDate), (7, .int64 c.startDate), (8, .int64 c.callerId),
    (10, .int32 c.duration), (11, .int32 c.discardReason), (12, .bool c.isLivekit)]

/-- What stands in a `CallResponse`, or beside the id of a `callReceived`. -/
inductive CallPart (κ : Type)
  | call (c : κ)
  | participant (p : Participant)

def CallPart.field {κ : Type} (value : κ → FieldValue) : CallPart κ → UInt32 × FieldValue
  | .call c => (1, value c)
  | .participant p => (p.field, .bytes (written p.fields))

/-- The first participant's uid. -/
def callerOf {κ : Type} (parts : List (CallPart κ)) : Int64 :=
  (parts.findSome? fun
    | .call _ => none
    | .participant p => some p.uid.toInt64).getD 0

/-- The last call. -/
def callOf {κ : Type} (parts : List (CallPart κ)) : Option κ :=
  parts.reverse.findSome? fun
    | .call c => some c
    | .participant _ => none

def entityValue (c : Wire.CallEntity) : FieldValue := .bytes (written c.fields)

/-- An event of the `xC` union. -/
inductive XcEvent
  | callStarted (parts : List (CallPart Wire.CallEntity))
  | callAccepted (parts : List (CallPart Wire.CallEntity))
  | callEnded (c : Wire.CallEntity)
  /-- An older payload has the id only. -/
  | callEndedBare (callId : Int64)
  | callReceived (parts : List (CallPart Int64))
  /-- `messageRead` and the others that the proxy does not act on. -/
  | chat (f : UInt32) (body : Bytes)
    (h : f ∉ [Walk.XC_CALL_STARTED, Walk.XC_CALL_ACCEPTED, Walk.XC_CALL_ENDED, Walk.XC_CALL_RECEIVED])

namespace XcEvent

def number : XcEvent → UInt32
  | .callStarted _ => Walk.XC_CALL_STARTED
  | .callAccepted _ => Walk.XC_CALL_ACCEPTED
  | .callEnded _ | .callEndedBare _ => Walk.XC_CALL_ENDED
  | .callReceived _ => Walk.XC_CALL_RECEIVED
  | .chat f _ _ => f

def raw : XcEvent → Bytes
  | .callStarted parts | .callAccepted parts => written (parts.map (CallPart.field entityValue))
  | .callEnded c => written [(1, entityValue c)]
  | .callEndedBare callId => written [(1, .int64 callId)]
  | .callReceived parts => written (parts.map (CallPart.field .int64))
  | .chat _ body _ => body

def field (e : XcEvent) : UInt32 × FieldValue := (e.number, .bytes e.raw)

/-- The call with its caller, who is the first participant where the call does not say. -/
def withCaller (parts : List (CallPart Wire.CallEntity)) : Option Wire.CallEntity :=
  (callOf parts).map fun c => if c.callerId = 0 ∧ callerOf parts ≠ 0 then { c with callerId := callerOf parts } else c

/-- What is meant by it. -/
def fires : XcEvent → List Walk.Fired
  | .callStarted parts => [.callReceived (((callOf parts).map (·.callId)).getD 0) (withCaller parts)]
  | .callAccepted parts => ((callOf parts).map fun c => .callAccepted c.callId).toList
  | .callEnded c => if c.callId ≠ 0 then [.callEnded c.callId c.discardReason] else []
  | .callEndedBare callId => if callId ≠ 0 then [.callEnded callId 0] else []
  | .callReceived parts =>
    let callId := (callOf parts).getD 0
    let stub := if callerOf parts ≠ 0 then some { callId, callerId := callerOf parts : Wire.CallEntity } else none
    if callId ≠ 0 then [.callReceived callId stub] else []
  | .chat _ _ _ => []

end XcEvent

/-- A field of a `SubscribeResponse`. -/
inductive UpdatePart
  | xc (events : List XcEvent)
  | routeId (v : Int32)
  | sequence (v : Int32)
  | timestamp (v : Int64)
  | weakEvent (body : Bytes)
  | mtupdate (body : Bytes)
  | updates (body : Bytes)

namespace UpdatePart

def field : UpdatePart → UInt32 × FieldValue
  | .xc events => (1, .bytes (written (events.map XcEvent.field)))
  | .routeId v => (2, .int32 v)
  | .sequence v => (3, .int32 v)
  | .timestamp v => (4, .int64 v)
  | .weakEvent body => (5, .bytes body)
  | .mtupdate body => (6, .bytes body)
  | .updates body => (7, .bytes body)

def fires : UpdatePart → List Walk.Fired
  | .xc events => events.flatMap XcEvent.fires
  | _ => []

end UpdatePart

def encodeUpdate (parts : List UpdatePart) : Bytes := written (parts.map UpdatePart.field)

/-- A push container with its updates. -/
def encodePush (updates : List (List UpdatePart)) : Bytes :=
  written (updates.map fun parts => (1, .bytes (encodeUpdate parts)))

namespace Walk

/-- `handle_push_container` -/
def handlePushContainer : Bytes → Walk (Except ProtoError Unit × List Fired) :=
  eachTag (fun e fired => (.error e, fired))
    (fun fired f w r => do
      if f = 1 then
        match ← bytes r with
        | (.ok inner, r) =>
          match ← handleUpdateBody inner with
          | (.ok _, more) => return .next (fired ++ more, r)
          | (.error e, more) => return .leave (.error e, fired ++ more)
        | (.error e, _) => return .leave (.error e, fired)
      skipOr (fun e => (.error e, fired)) fired w r)
    (fun fired => (.ok (), fired)) []

end Walk

/-! ## Those who take part -/

theorem toInt_written (v : Int32) :
    v.toUInt32.toUInt64.toInt64.toInt = if 0 ≤ v.toInt then v.toInt else v.toInt + 2 ^ 32 := by
  have hword : v.toUInt32.toUInt64.toInt64.toInt = v.toUInt32.toNat := by
    have hlt := v.toUInt32.toNat_lt
    change v.toUInt32.toUInt64.toBitVec.toInt = _
    rw [BitVec.toInt_eq_toNat_of_lt]
    · exact congrArg Nat.cast (UInt32.toNat_toUInt64 _)
    · change 2 * v.toUInt32.toUInt64.toNat < 2 ^ 64
      rw [UInt32.toNat_toUInt64]
      omega
  have hlt := v.toUInt32.toBitVec.isLt
  rw [hword, show v.toInt = v.toUInt32.toBitVec.toInt from rfl, BitVec.toInt_eq_toNat_cond]
  change (v.toUInt32.toBitVec.toNat : Int) = _
  split <;> split <;> omega

namespace Walk

/-- What `parse_participant_id` makes of a number, from what it has. -/
def takeUid (out v : Int64) : Int64 := if (100 ≤ v ∧ v ≤ Int32.maxValue.toInt64) ∧ out = 0 then v else out

theorem takeUid_small {v : Int32} (h : v < 100) : takeUid 0 v.toUInt32.toUInt64.toInt64 = 0 := by
  have hlt : v.toInt < 100 := Int32.lt_iff_toInt_lt.mp h
  have hval := toInt_written v
  refine if_neg fun hv => ?_
  have hlow : 100 ≤ v.toUInt32.toUInt64.toInt64.toInt := Int64.le_iff_toInt_le.mp hv.1.1
  have hhigh : v.toUInt32.toUInt64.toInt64.toInt ≤ 2 ^ 31 - 1 := Int64.le_iff_toInt_le.mp hv.1.2
  have hmin : -2 ^ 31 ≤ v.toInt := v.le_toInt
  rw [hval] at hlow hhigh
  split at hlow <;> omega

theorem takeUid_uid {v : Int32} (h : 100 ≤ v) : takeUid 0 v.toUInt32.toUInt64.toInt64 = v.toInt64 := by
  have hge : 100 ≤ v.toInt := Int32.le_iff_toInt_le.mp h
  have hval := toInt_written v
  rw [if_pos (by omega)] at hval
  have heq : v.toUInt32.toUInt64.toInt64 = v.toInt64 := by
    rw [← Int64.toInt_inj, hval, Int32.toInt_toInt64]
  rw [heq]
  refine if_pos ⟨⟨Int64.le_iff_toInt_le.mpr ?_, Int64.le_iff_toInt_le.mpr ?_⟩, rfl⟩
  · rw [Int32.toInt_toInt64]
    exact hge
  · rw [Int32.toInt_toInt64]
    exact v.toInt_le

theorem takeUid_taken {out v : Int64} (h : out ≠ 0) : takeUid out v = out := if_neg fun hv => h hv.2

theorem uid_ne_zero (p : Participant) : p.uid.toInt64 ≠ 0 := by
  have hge : 100 ≤ p.uid.toInt := Int32.le_iff_toInt_le.mp p.uidRange
  intro hzero
  have hval := congrArg Int64.toInt hzero
  rw [Int32.toInt_toInt64] at hval
  have hnone : (0 : Int64).toInt = 0 := rfl
  omega

theorem participantId_written (p : Participant) (hfits : (written p.fields).length ≤ ISIZE_MAX) :
    Ends (parseParticipantId (written p.fields)) (· = p.uid.toInt64) := by
  have hid : p.fields.map id = p.fields := List.map_id _
  rw [← hid] at hfits ⊢
  unfold parseParticipantId eachField
  refine ends_written id (fun out x => match x.2.image with
    | .varint v => .next (takeUid out v.toInt64)
    | .string _ | .bytes _ => .next out) (fun out x f v r r' hx hv hahead => ?_) hfits ?_
  · obtain rfl : x = (f, v) := hv
    obtain ⟨n, hkind, hwire, himage⟩ : ∃ n, v.kind = .varint ∧ v.wire = 0 ∧ v.image = .varint n := by
      simp only [Participant.fields, List.mem_cons, Prod.mk.injEq, List.not_mem_nil, or_false] at hx
      obtain ⟨-, rfl⟩ | ⟨-, rfl⟩ | ⟨-, rfl⟩ := hx <;> exact ⟨_, rfl, rfl, rfl⟩
    simp only [hwire, himage]
    apply (hahead.varintOr hkind himage).bind_eq
    exact .pure rfl
  · simp only [Participant.fields, takeItems, FieldValue.image, takeUid_small p.small,
      takeUid_uid p.uidRange, takeUid_taken (uid_ne_zero p), id]

/-! ## Calls -/

theorem takeItems_next {σ β ι : Type} {step : σ → ι → Round σ β} {g : σ → ι → σ}
    (h : ∀ a x, step a x = .next (g a x)) (behind : σ → β) (a : σ) (items : List ι) :
    takeItems step behind a items = behind (items.foldl g a) := by
  induction items generalizing a with
  | nil => rfl
  | cons x items ih =>
    rw [takeItems, h]
    exact ih _

theorem parseCallEntity_written (c : Wire.CallEntity) (hfits : (written c.fields).length ≤ ISIZE_MAX) :
    Signaling.parseCallEntity (written c.fields) = c := by
  have htyped : Typed callEntity.field c.fields := by
    simp [Typed, Wire.CallEntity.fields, callEntity, FieldRead.kind, FieldValue.kind]
  have hurl := parseWrappedString_written c.url (Nat.le_trans (length_le_bytes_field
    [(1, .int64 c.callId), (2, .string c.token), (3, .string c.room)] _ 4 _) hfits)
  rw [Signaling.parseCallEntity, callEntity.run_written htyped hfits]
  simp only [Wire.CallEntity.fields, takeField, callEntity, List.foldl_cons, List.foldl_nil, FieldRead.take,
    FieldValue.image, hurl]
  obtain ⟨callId, token, room, url, isLivekit, callerId, video, createDate, startDate, duration, discardReason⟩ := c
  cases isLivekit <;> cases video <;> simp

variable {κ τ : Type}

/-- A part of a call, from what was found so far. -/
def takePart (f : κ → τ) (a : τ × Int64) : CallPart κ → τ × Int64
  | .call c => (f c, a.2)
  | .participant p => (a.1, if a.2 = 0 then p.uid.toInt64 else a.2)

theorem foldl_takePart (f : κ → τ) (parts : List (CallPart κ)) (t : τ) (o : Int64) :
    parts.foldl (takePart f) (t, o) =
      (((callOf parts).map f).getD t, if o = 0 then callerOf parts else o) := by
  induction parts generalizing t o with
  | nil => simp [callOf, callerOf]
  | cons x parts ih =>
    rw [List.foldl_cons]
    cases x with
    | call c =>
      rw [takePart, ih]
      have hcall : callOf (.call c :: parts) = (callOf parts).or (some c) := by
        simp [callOf, List.findSome?_append]
      rw [hcall]
      cases callOf parts <;> rfl
    | participant p =>
      rw [takePart, ih]
      have hcall : callOf (.participant p :: parts) = callOf parts := by
        simp [callOf, List.findSome?_append]
      have hcaller : callerOf (.participant p :: parts) = p.uid.toInt64 := rfl
      rw [hcall, hcaller]
      by_cases ho : o = 0
      · simp [ho, uid_ne_zero]
      · simp [ho]

theorem parseCallResponse_written {parts : List (CallPart Wire.CallEntity)}
    (hfits : (written (parts.map (CallPart.field entityValue))).length ≤ ISIZE_MAX) :
    Ends (parseCallResponse (written (parts.map (CallPart.field entityValue)))) (· = XcEvent.withCaller parts) := by
  unfold parseCallResponse eachField
  refine ends_written (CallPart.field entityValue) (fun a x => .next (takePart some a x))
    (fun a x f v r r' hx hv hahead => ?_) hfits ?_
  · cases x with
    | call c =>
      have hsize := Nat.le_trans (length_of_mem hx rfl) hfits
      obtain ⟨rfl, rfl⟩ := Prod.mk.inj hv
      simp only [if_pos]
      apply (Ahead.bytes hahead).bind_eq
      apply (parseCallEntity_ends hsize).bind_eq
      rw [parseCallEntity_written c hsize]
      exact .pure rfl
    | participant p =>
      have hsize := Nat.le_trans (length_of_mem hx rfl) hfits
      obtain ⟨rfl, rfl⟩ := Prod.mk.inj hv
      simp only [if_neg p.beside]
      by_cases ho : a.2 = 0
      · rw [if_pos ⟨rfl, ho⟩]
        apply (Ahead.bytes hahead).bind_eq
        apply (participantId_written p hsize).bind_eq
        exact .pure (by simp [reach, takePart, ho])
      · rw [if_neg fun h => ho h.2]
        apply (Ahead.skipOr hahead).mono
        rintro _ rfl
        simp [reach, takePart, ho]
  · rw [takeItems_next (fun _ _ => rfl), foldl_takePart, if_pos rfl]
    unfold parseCallResponse.behind XcEvent.withCaller
    cases callOf parts <;> rfl

theorem parseCallReceived_written {parts : List (CallPart Int64)}
    (hfits : (written (parts.map (CallPart.field .int64))).length ≤ ISIZE_MAX) :
    Ends (parseCallReceived (written (parts.map (CallPart.field .int64))))
      (· = ((callOf parts).getD 0, callerOf parts)) := by
  unfold parseCallReceived eachField
  refine ends_written (CallPart.field .int64) (fun a x => .next (takePart id a x))
    (fun a x f v r r' hx hv hahead => ?_) hfits ?_
  · obtain ⟨known, caller⟩ := a
    simp only
    cases x with
    | call callId =>
      obtain ⟨rfl, rfl⟩ := Prod.mk.inj hv
      rw [if_pos ⟨rfl, rfl⟩]
      apply (Ahead.varintOr rfl rfl hahead).bind_eq
      exact .pure (by simp [reach, takePart])
    | participant p =>
      have hsize := Nat.le_trans (length_of_mem hx rfl) hfits
      obtain ⟨rfl, rfl⟩ := Prod.mk.inj hv
      rw [if_neg fun h => p.beside h.1]
      by_cases ho : caller = 0
      · rw [if_pos ⟨rfl, ho⟩]
        apply (Ahead.bytes hahead).bind_eq
        apply (participantId_written p hsize).bind_eq
        exact .pure (by simp [reach, takePart, ho])
      · rw [if_neg fun h => ho h.2]
        apply (Ahead.skipOr hahead).mono
        rintro _ rfl
        simp [reach, takePart, ho]
  · rw [takeItems_next (fun _ _ => rfl), foldl_takePart, if_pos rfl]
    simp

theorem parseCallEnded_entity (c : Wire.CallEntity)
    (hfits : (written [(1, entityValue c)]).length ≤ ISIZE_MAX) :
    Ends (parseCallEnded (written [(1, entityValue c)])) (· = some c) := by
  have hsize := Nat.le_trans (length_le_bytes_field [] [] 1 (written c.fields)) hfits
  unfold parseCallEnded eachField
  refine ends_written (fun c => (1, entityValue c)) (fun _ c => .leave (some c))
    (fun _ c' f v r r' hx hv hahead => ?_) (show (written ([c].map _)).length ≤ _ from hfits) rfl
  obtain rfl := List.mem_singleton.mp hx
  obtain ⟨rfl, rfl⟩ := Prod.mk.inj hv
  rw [if_pos ⟨rfl, rfl⟩]
  apply (Ahead.bytes hahead).bind_eq
  apply (parseCallEntity_ends hsize).bind_eq
  rw [parseCallEntity_written c' hsize]
  exact .pure rfl

theorem parseCallEnded_bare (callId : Int64) (hfits : (written [(1, .int64 callId)]).length ≤ ISIZE_MAX) :
    Ends (parseCallEnded (written [(1, .int64 callId)])) (· = none) := by
  unfold parseCallEnded eachField
  refine ends_written (fun n => (1, .int64 n)) (fun _ _ => .next ())
    (fun _ n f v r r' _ hv hahead => ?_) (show (written ([callId].map _)).length ≤ _ from hfits) rfl
  obtain ⟨rfl, rfl⟩ := Prod.mk.inj hv
  rw [if_neg fun h => absurd h.2 (show ¬ (0 : UInt32) = 2 by decide)]
  exact Ahead.skipOr hahead

theorem parseCallId_bare (callId : Int64) (hfits : (written [(1, .int64 callId)]).length ≤ ISIZE_MAX) :
    Ends (parseCallId (written [(1, .int64 callId)])) (· = callId) := by
  unfold parseCallId eachField
  refine ends_written (fun n => (1, .int64 n)) (fun _ n => .leave n)
    (fun _ n f v r r' _ hv hahead => ?_) (show (written ([callId].map _)).length ≤ _ from hfits) rfl
  obtain ⟨rfl, rfl⟩ := Prod.mk.inj hv
  rw [if_pos ⟨rfl, rfl⟩]
  apply (Ahead.varintOr rfl rfl hahead).bind_eq
  exact .pure (by simp [reach])

/-! ## Events -/

theorem callId_withCaller (parts : List (CallPart Wire.CallEntity)) :
    (XcEvent.withCaller parts).map (·.callId) = (callOf parts).map (·.callId) := by
  unfold XcEvent.withCaller
  cases callOf parts with
  | none => rfl
  | some c =>
    simp only [Option.map_some]
    split <;> rfl

theorem fireXc_written {e : XcEvent} (hfits : e.raw.length ≤ ISIZE_MAX)
    (hcall : e.number ∈ [XC_CALL_STARTED, XC_CALL_ACCEPTED, XC_CALL_ENDED, XC_CALL_RECEIVED]) :
    Ends (fireXc e.number e.raw) (· = e.fires) := by
  cases e with
  | callStarted parts =>
    apply (parseCallResponse_written hfits).bind_eq
    exact .pure (by simp only [XcEvent.fires, callId_withCaller])
  | callAccepted parts =>
    have hid := callId_withCaller parts
    apply (parseCallResponse_written hfits).bind_eq
    rcases hw : XcEvent.withCaller parts with - | c' <;> rcases hc : callOf parts with - | c
    · exact .pure (by simp [XcEvent.fires, hc])
    · simp [hw, hc] at hid
    · simp [hw, hc] at hid
    · rw [hw, hc] at hid
      exact .pure (by simp [XcEvent.fires, hc, Option.some.inj hid])
  | callEnded c =>
    apply (parseCallEnded_entity c hfits).bind_eq
    exact .pure rfl
  | callEndedBare callId =>
    apply (parseCallEnded_bare callId hfits).bind_eq
    apply (parseCallId_bare callId hfits).bind_eq
    exact .pure rfl
  | callReceived parts =>
    apply (parseCallReceived_written hfits).bind_eq
    exact .pure rfl
  | chat f body h => exact absurd hcall h

theorem takeItems_append {β ι : Type} {step : List Fired → ι → Round (List Fired) β} {g : ι → List Fired}
    (h : ∀ fired x, step fired x = .next (fired ++ g x)) (behind : List Fired → β) (fired : List Fired)
    (items : List ι) : takeItems step behind fired items = behind (fired ++ items.flatMap g) := by
  induction items generalizing fired with
  | nil => rw [List.flatMap_nil, List.append_nil, takeItems]
  | cons x items ih =>
    rw [takeItems, h]
    simp only [ih, List.flatMap_cons, List.append_assoc]

theorem dispatchXc_written (fired : List Fired) {events : List XcEvent}
    (hfits : (written (events.map XcEvent.field)).length ≤ ISIZE_MAX) :
    Ends (dispatchXc fired (written (events.map XcEvent.field)))
      (· = (.ok (), fired ++ events.flatMap XcEvent.fires)) := by
  unfold dispatchXc
  refine ends_written XcEvent.field (fun fired e => .next (fired ++ e.fires))
    (fun fired e f v r r' hx hv hahead => ?_) hfits (takeItems_append (fun _ _ => rfl) _ _ _)
  have hsize := Nat.le_trans (length_of_mem hx rfl) hfits
  obtain ⟨rfl, rfl⟩ := Prod.mk.inj hv
  by_cases hcall : e.number ∈ [XC_CALL_STARTED, XC_CALL_ACCEPTED, XC_CALL_ENDED, XC_CALL_RECEIVED]
  · rw [if_pos hcall]
    apply (Ahead.bytes hahead).bind_eq
    apply (fireXc_written hsize hcall).bind_eq
    exact .pure rfl
  · rw [if_neg hcall]
    have hnone : e.fires = [] := by
      cases e with
      | chat => rfl
      | _ => exact absurd (by simp [XcEvent.number]) hcall
    rw [hnone, List.append_nil]
    exact Ahead.skipOr hahead

theorem handleUpdateBody_written {parts : List UpdatePart} (hfits : (encodeUpdate parts).length ≤ ISIZE_MAX) :
    Ends (handleUpdateBody (encodeUpdate parts)) (· = (.ok (), parts.flatMap UpdatePart.fires)) := by
  unfold handleUpdateBody
  refine ends_written UpdatePart.field (fun fired part => .next (fired ++ part.fires))
    (fun fired part f v r r' hx hv hahead => ?_) hfits (takeItems_append (fun _ _ => rfl) _ _ _)
  cases part with
  | xc events =>
    have hsize := Nat.le_trans (length_of_mem hx rfl) hfits
    obtain ⟨rfl, rfl⟩ := Prod.mk.inj hv
    apply (Ahead.bytes hahead).bind_eq
    apply (dispatchXc_written fired hsize).bind_eq
    exact .pure rfl
  | mtupdate body | updates body =>
    obtain ⟨rfl, rfl⟩ := Prod.mk.inj hv
    apply (Ahead.bytes hahead).bind_eq
    exact .pure (by simp [reach, UpdatePart.fires])
  | _ =>
    obtain ⟨rfl, rfl⟩ := Prod.mk.inj hv
    apply (Ahead.skipOr hahead).mono
    rintro _ rfl
    simp [reach, UpdatePart.fires]

theorem handlePushContainer_written {updates : List (List UpdatePart)}
    (hfits : (encodePush updates).length ≤ ISIZE_MAX) :
    Ends (handlePushContainer (encodePush updates))
      (· = (.ok (), updates.flatMap fun parts => parts.flatMap UpdatePart.fires)) := by
  unfold handlePushContainer
  refine ends_written (fun parts => (1, .bytes (encodeUpdate parts)))
    (fun fired parts => .next (fired ++ parts.flatMap UpdatePart.fires))
    (fun fired parts f v r r' hx hv hahead => ?_) hfits (takeItems_append (fun _ _ => rfl) _ _ _)
  have hsize := Nat.le_trans (length_of_mem hx rfl) hfits
  obtain ⟨rfl, rfl⟩ := Prod.mk.inj hv
  simp only [if_pos]
  apply (Ahead.bytes hahead).bind_eq
  apply (handleUpdateBody_written hsize).bind_eq
  exact .pure rfl

end Walk

/-- A push fires what the server meant by its events, in order, and so does each of its updates alone. -/
theorem push_fires_events (updates : List (List UpdatePart))
    (hfits : (encodePush updates).length ≤ ISIZE_MAX) :
    (Walk.handlePushContainer (encodePush updates)).map (·.1) =
        .ok (.ok (), updates.flatMap fun parts => parts.flatMap UpdatePart.fires) ∧
      ∀ parts ∈ updates, (Walk.handleUpdateBody (encodeUpdate parts)).map (·.1) =
        .ok (.ok (), parts.flatMap UpdatePart.fires) := by
  refine ⟨?_, fun parts hparts => ?_⟩
  · obtain ⟨_, log, hwalk, -, rfl⟩ := Walk.handlePushContainer_written hfits
    rw [hwalk]
    rfl
  · have hsize : (encodeUpdate parts).length ≤ ISIZE_MAX := Nat.le_trans (Walk.length_of_mem hparts rfl) hfits
    obtain ⟨_, log, hwalk, -, rfl⟩ := Walk.handleUpdateBody_written hsize
    rw [hwalk]
    rfl

/-- A call comes in from user 4711 and has ended in the next update. -/
def ringAndHangUp : List (List UpdatePart) :=
  [[.routeId 3, .xc [.callReceived [.call 9, .participant ⟨2, 1, 4711, -5, by decide, by decide, by decide⟩]],
      .sequence 1],
    [.xc [.chat 55 [8, 1] (by decide), .callEnded { callId := 9, discardReason := 2 }]]]

theorem push_fires_ringAndHangUp :
    (Walk.handlePushContainer (encodePush ringAndHangUp)).map (·.1) =
      .ok (.ok (), [.callReceived 9 (some { callId := 9, callerId := 4711 }), .callEnded 9 2]) :=
  (push_fires_events ringAndHangUp (by decide +kernel)).1

end BaleVpn.Signaling
