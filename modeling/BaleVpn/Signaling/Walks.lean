import BaleVpn.Lib.Audit
import BaleVpn.Signaling.Decoders

/-!
# The walks of the decoders (`proto.rs`, `ws.rs`, `contacts.rs`)

The reader with the checks that Rust makes, and the decoders over it with their nested messages: an index or
a slice out of range, an arithmetic overflow and a loop that does not end are faults, and each write of
`pos` is logged. Lengths and positions are `usize`s of 64 bits.
-/

namespace BaleVpn.Signaling

open Lib Audit Net

namespace Walk

inductive Fault
  | outOfRange (index length : ℕ)
  | overflow
  | outOfRounds
  deriving DecidableEq, Repr

/-- What a reader over `length` bytes does. -/
inductive Reading
  /-- It writes its position. -/
  | moved (length before after : ℕ)
  /-- `tag` returns `Ok`. -/
  | tagged (before after : ℕ)
  deriving DecidableEq, Repr

def Reading.Onward : Reading → Prop
  | .moved length before after => before ≤ after ∧ after ≤ length
  | .tagged before after => before < after

end Walk

open Walk

abbrev Walk := Audit Fault Reading

namespace Walk

/-! ## The reader -/

def index (buf : Bytes) (i : ℕ) : Walk UInt8 :=
  match buf[i]? with
  | some b => pure b
  | none => fault (.outOfRange i buf.length)

/-- `&buf[start..stop]` -/
def slice (buf : Bytes) (start stop : ℕ) : Walk Bytes :=
  if start ≤ stop ∧ stop ≤ buf.length then pure ((buf.take stop).drop start)
  else fault (.outOfRange stop buf.length)

def add (a b : ℕ) : Walk ℕ := if a + b < 2 ^ 64 then pure (a + b) else fault .overflow

def sub (a b : ℕ) : Walk ℕ := if b ≤ a then pure (a - b) else fault .overflow

def shl (v : UInt64) (n : ℕ) : Walk UInt64 := if n < 64 then pure (v <<< UInt64.ofNat n) else fault .overflow

def setPos (r : ProtoReader) (pos : ℕ) : Walk ProtoReader := do
  log (.moved r.buf.length r.pos pos)
  return { r with pos }

variable {σ β : Type}

/-- `while r.has_more() { .. }`, and what is behind it. -/
def whileMore (body : σ → ProtoReader → Walk (Round (σ × ProtoReader) β)) (behind : σ → ProtoReader → β)
    (a : σ) (r : ProtoReader) : Walk β :=
  rounds .outOfRounds
    (fun (a, r) => if r.hasMore then body a r else return .leave (behind a r)) (r.buf.length + 1) (a, r)

def varint : ProtoReader → Walk (Except ProtoError UInt64 × ProtoReader) :=
  whileMore
    (fun (result, shift) r => do
      let b ← index r.buf r.pos
      let r ← setPos r (← add r.pos 1)
      let result := result ||| (← shl (b &&& 0x7F).toUInt64 shift)
      if b &&& 0x80 = 0 then return .leave (.ok result, r)
      let shift := shift + 7
      if shift ≥ 64 then return .leave (.error .eof, r)
      return .next ((result, shift), r))
    (fun _ r => (.error .eof, r)) (0, 0)

def tag (r : ProtoReader) : Walk (Except ProtoError (UInt32 × UInt32) × ProtoReader) := do
  let before := r.pos
  match ← varint r with
  | (.ok v, r) =>
    log (.tagged before r.pos)
    return (.ok ((v >>> 3).toUInt32, (v &&& 7).toUInt32), r)
  | (.error e, r) => return (.error e, r)

/-- The check that `bytes` and `advance` begin with. -/
def endOf (r : ProtoReader) (n : ℕ) : Walk (Except ProtoError ℕ) := do
  if r.pos + n ≥ 2 ^ 64 then return .error .eof
  if r.pos + n > r.buf.length then return .error (.truncatedLength n (← sub r.buf.length r.pos))
  return .ok (r.pos + n)

def bytes (r : ProtoReader) : Walk (Except ProtoError Bytes × ProtoReader) := do
  match ← varint r with
  | (.ok len, r) =>
    match ← endOf r len.toNat with
    | .ok stop =>
      let out ← slice r.buf r.pos stop
      let r ← setPos r stop
      return (.ok out, r)
    | .error e => return (.error e, r)
  | (.error e, r) => return (.error e, r)

def string (r : ProtoReader) : Walk (Except ProtoError String × ProtoReader) := do
  match ← bytes r with
  | (.ok b, r) =>
    match String.fromUTF8? ⟨b.toArray⟩ with
    | some s => return (.ok s, r)
    | none => return (.error .invalidUtf8, r)
  | (.error e, r) => return (.error e, r)

def advance (r : ProtoReader) (n : ℕ) : Walk (Except ProtoError Unit × ProtoReader) := do
  match ← endOf r n with
  | .ok stop =>
    let r ← setPos r stop
    return (.ok (), r)
  | .error e => return (.error e, r)

def skip (r : ProtoReader) (wire : UInt32) : Walk (Except ProtoError Unit × ProtoReader) := do
  if wire = 0 then
    match ← varint r with
    | (.ok _, r) => return (.ok (), r)
    | (.error e, r) => return (.error e, r)
  else if wire = 1 then advance r 8
  else if wire = 2 then
    match ← varint r with
    | (.ok n, r) => advance r n.toNat
    | (.error e, r) => return (.error e, r)
  else if wire = 5 then advance r 4
  else return (.error (.unsupportedWireType wire), r)

/-! ## The decoders -/

/-- `r.varint().unwrap_or(0)` -/
def varintOr (r : ProtoReader) : Walk (UInt64 × ProtoReader) := do
  let (v, r) ← varint r
  return (v.toOption.getD 0, r)

/-- `r.string().unwrap_or("")` -/
def stringOr (r : ProtoReader) : Walk (String × ProtoReader) := do
  let (s, r) ← string r
  return (s.toOption.getD "", r)

/-- `r.bytes().unwrap_or(&[])` -/
def bytesOr (r : ProtoReader) : Walk (Bytes × ProtoReader) := do
  let (b, r) ← bytes r
  return (b.toOption.getD [], r)

/-- `let _ = r.skip(w);` -/
def skipAnyway (a : σ) (w : UInt32) (r : ProtoReader) : Walk (Round (σ × ProtoReader) β) := do
  let (_, r) ← skip r w
  return .next (a, r)

/-- A skip that leaves the loop with what `failed` makes of its error. -/
def skipOr (failed : ProtoError → β) (a : σ) (w : UInt32) (r : ProtoReader) :
    Walk (Round (σ × ProtoReader) β) := do
  match ← skip r w with
  | (.ok _, r) => return .next (a, r)
  | (.error e, _) => return .leave (failed e)

/-- The loop of each decoder: the tag first, and out with what `failed` makes of the error if there is
none. -/
def eachTag (failed : ProtoError → σ → β)
    (body : σ → UInt32 → UInt32 → ProtoReader → Walk (Round (σ × ProtoReader) β)) (behind : σ → β) (a : σ)
    (buf : Bytes) : Walk β :=
  whileMore
    (fun a r => do
      match ← tag r with
      | (.ok (f, w), r) => body a f w r
      | (.error e, _) => return .leave (failed e a))
    (fun a _ => behind a) a (ProtoReader.new buf)

/-- The loop that a missing tag ends like the end of the buffer. -/
def eachField (body : σ → UInt32 → UInt32 → ProtoReader → Walk (Round (σ × ProtoReader) β)) (behind : σ → β) :
    σ → Bytes → Walk β :=
  eachTag (fun _ => behind) body behind

/-- `parse_wrapped_string`, and `decode_wrapped` alike. -/
def parseWrappedString : Bytes → Walk String :=
  eachField
    (fun _ f w r => do
      if f = 1 then
        let (s, _) ← stringOr r
        return .leave s
      skipOr (fun _ => "") () w r)
    (fun _ => "") ()

def parseCallEntity : Bytes → Walk Wire.CallEntity :=
  eachField
    (fun c f w r => do
      match f with
      | 1 => let (v, r) ← varintOr r; return .next ({ c with callId := v.toInt64 }, r)
      | 2 => let (s, r) ← stringOr r; return .next ({ c with token := s }, r)
      | 3 => let (s, r) ← stringOr r; return .next ({ c with room := s }, r)
      | 4 =>
        let (b, r) ← bytesOr r
        let url ← parseWrappedString b
        return .next ({ c with url }, r)
      | 5 => let (v, r) ← varintOr r; return .next ({ c with video := v != 0 }, r)
      | 6 => let (v, r) ← varintOr r; return .next ({ c with createDate := v.toInt64 }, r)
      | 7 => let (v, r) ← varintOr r; return .next ({ c with startDate := v.toInt64 }, r)
      | 8 => let (v, r) ← varintOr r; return .next ({ c with callerId := v.toInt64 }, r)
      | 10 => let (v, r) ← varintOr r; return .next ({ c with duration := v.toUInt32.toInt32 }, r)
      | 11 => let (v, r) ← varintOr r; return .next ({ c with discardReason := v.toUInt32.toInt32 }, r)
      | 12 => let (v, r) ← varintOr r; return .next ({ c with isLivekit := v != 0 }, r)
      | _ => skipOr (fun _ => c) c w r)
    id {}

def parseParticipantId : Bytes → Walk Int64 :=
  eachField
    (fun out _ w r => do
      match w with
      | 0 =>
        let (v, r) ← varintOr r
        let v := v.toInt64
        return .next (if (100 ≤ v ∧ v ≤ Int32.maxValue.toInt64) ∧ out = 0 then v else out, r)
      | 2 => let (_, r) ← bytes r; return .next (out, r)
      | _ => skipOr (fun _ => out) out w r)
    id 0

/-- The call, and the caller that was found beside it. -/
def parseCallResponse : Bytes → Walk (Option Wire.CallEntity) :=
  eachField
    (fun (call, outerCallerId) f w r => do
      if f = 1 then
        match ← bytes r with
        | (.ok b, r) => return .next ((some (← parseCallEntity b), outerCallerId), r)
        | (.error _, _) => return .leave (behind (call, outerCallerId))
      else if w = 2 ∧ outerCallerId = 0 then
        match ← bytes r with
        | (.ok b, r) => return .next ((call, ← parseParticipantId b), r)
        | (.error _, _) => return .leave (behind (call, outerCallerId))
      else skipOr (fun _ => behind (call, outerCallerId)) (call, outerCallerId) w r)
    behind (none, 0)
where
  behind : Option Wire.CallEntity × Int64 → Option Wire.CallEntity
    | (call, outerCallerId) => call.map fun c =>
      if c.callerId = 0 ∧ outerCallerId ≠ 0 then { c with callerId := outerCallerId } else c

def parseCallEnded : Bytes → Walk (Option Wire.CallEntity) :=
  eachField
    (fun _ f w r => do
      if f = 1 ∧ w = 2 then
        match ← bytes r with
        | (.ok b, _) => return .leave (some (← parseCallEntity b))
        | (.error _, _) => return .leave none
      skipOr (fun _ => none) () w r)
    (fun _ => none) ()

/-- The loop over the nested message in `parse_call_id`. -/
def innerCallId : Bytes → Walk (Option Int64) :=
  eachField
    (fun _ f w r => do
      if f = 1 ∧ w = 0 then
        let (v, _) ← varintOr r
        return .leave (some v.toInt64)
      skipOr (fun _ => none) () w r)
    (fun _ => none) ()

def parseCallId : Bytes → Walk Int64 :=
  eachField
    (fun _ f w r => do
      if f = 1 ∧ w = 0 then
        let (v, _) ← varintOr r
        return .leave v.toInt64
      else if f = 1 ∧ w = 2 then
        match ← bytes r with
        | (.ok inner, r) =>
          match ← innerCallId inner with
          | some id => return .leave id
          | none => return .next ((), r)
        | (.error _, _) => return .leave 0
      else skipOr (fun _ => 0) () w r)
    (fun _ => 0) ()

/-- The call id and the caller. -/
def parseCallReceived : Bytes → Walk (Int64 × Int64) :=
  eachField
    (fun (callId, caller) f w r => do
      if f = 1 ∧ w = 0 then
        let (v, r) ← varintOr r
        return .next ((v.toInt64, caller), r)
      else if w = 2 ∧ caller = 0 then
        match ← bytes r with
        | (.ok b, r) => return .next ((callId, ← parseParticipantId b), r)
        | (.error _, _) => return .leave (callId, caller)
      else skipOr (fun _ => (callId, caller)) (callId, caller) w r)
    id (0, 0)

/-- What the listeners are called with. -/
inductive Fired
  | callReceived (callId : Int64) (call : Option Wire.CallEntity)
  | callAccepted (callId : Int64)
  | callEnded (callId : Int64) (discardReason : Int32)
  deriving DecidableEq, Repr

def XC_CALL_STARTED : UInt32 := 52807
def XC_CALL_ACCEPTED : UInt32 := 52808
def XC_CALL_ENDED : UInt32 := 52809
def XC_CALL_RECEIVED : UInt32 := 52810

/-- What an arm of `dispatch_xc` fires for the message `raw`. -/
def fireXc (f : UInt32) (raw : Bytes) : Walk (List Fired) := do
  if f = XC_CALL_STARTED then
    let call ← parseCallResponse raw
    return [.callReceived ((call.map (·.callId)).getD 0) call]
  else if f = XC_CALL_ACCEPTED then
    match ← parseCallResponse raw with
    | some c => return [.callAccepted c.callId]
    | none => return []
  else if f = XC_CALL_ENDED then
    match ← parseCallEnded raw with
    | some c => return if c.callId ≠ 0 then [.callEnded c.callId c.discardReason] else []
    | none =>
      let callId ← parseCallId raw
      return if callId ≠ 0 then [.callEnded callId 0] else []
  else
    let (callId, callerId) ← parseCallReceived raw
    let stub := if callerId ≠ 0 then some { callId, callerId : Wire.CallEntity } else none
    return if callId ≠ 0 then [.callReceived callId stub] else []

/-- `dispatch_xc`, from what was fired before it. -/
def dispatchXc : List Fired → Bytes → Walk (Except ProtoError Unit × List Fired) :=
  eachTag (fun e fired => (.error e, fired))
    (fun fired f w r => do
      if f ∈ [XC_CALL_STARTED, XC_CALL_ACCEPTED, XC_CALL_ENDED, XC_CALL_RECEIVED] then
        match ← bytes r with
        | (.ok raw, r) => return .next (fired ++ (← fireXc f raw), r)
        | (.error e, _) => return .leave (.error e, fired)
      skipOr (fun e => (.error e, fired)) fired w r)
    fun fired => (.ok (), fired)

def handleUpdateBody : Bytes → Walk (Except ProtoError Unit × List Fired) :=
  eachTag (fun e fired => (.error e, fired))
    (fun fired f w r => do
      match f with
      | 1 =>
        match ← bytes r with
        | (.ok xc, r) =>
          match ← dispatchXc fired xc with
          | (.ok _, fired) => return .next (fired, r)
          | (.error e, fired) => return .leave (.error e, fired)
        | (.error e, _) => return .leave (.error e, fired)
      | 6 | 7 =>
        match ← bytes r with
        | (.ok _, r) => return .next (fired, r)
        | (.error e, _) => return .leave (.error e, fired)
      | _ => skipOr (fun e => (.error e, fired)) fired w r)
    (fun fired => (.ok (), fired)) []

def decodeUserEntity : Bytes → Walk UserEntity :=
  eachField
    (fun e f w r => do
      match f with
      | 1 => let (v, r) ← varintOr r; return .next ({ e with id := v.toUInt32.toInt32 }, r)
      | 2 => let (v, r) ← varintOr r; return .next ({ e with accessHash := v.toInt64 }, r)
      | 3 => let (s, r) ← stringOr r; return .next ({ e with name := s }, r)
      | 9 =>
        let (inner, r) ← bytesOr r
        let nick ← parseWrappedString inner
        return .next ({ e with nick }, r)
      | _ => skipAnyway e w r)
    id {}

def decodeUserPeerRef : Bytes → Walk UserPeerRef :=
  eachField
    (fun e f w r => do
      match f with
      | 1 => let (v, r) ← varintOr r; return .next ({ e with uid := v.toUInt32.toInt32 }, r)
      | 2 => let (v, r) ← varintOr r; return .next ({ e with accessHash := v.toInt64 }, r)
      | _ => skipAnyway e w r)
    id { uid := 0, accessHash := 0 }

/-- `if let Ok(b) = r.bytes() { .. }`, with what is made of the nested message. -/
def nested (decode : Bytes → Walk σ) (a : β) (push : σ → β) (r : ProtoReader) : Walk (β × ProtoReader) := do
  match ← bytes r with
  | (.ok b, r) => return (push (← decode b), r)
  | (.error _, r) => return (a, r)

def decodeGetContactsResponse : Bytes → Walk ContactPeers :=
  eachField
    (fun c f w r => do
      match f with
      | 1 => return .next (← nested decodeUserEntity c (fun u => { c with inlineUsers := c.inlineUsers ++ [u] }) r)
      | 3 => return .next (← nested decodeUserPeerRef c (fun p => { c with peers := c.peers ++ [p] }) r)
      | _ => skipAnyway c w r)
    id {}

def decodeUsersResponse : Bytes → Walk (List UserEntity) :=
  eachField
    (fun out f w r => do
      if f = 1 then return .next (← nested decodeUserEntity out (fun u => out ++ [u]) r)
      skipOr (fun _ => out) out w r)
    id []

def decodeRawSearch (userField peerField : UInt32) : Bytes → Walk (List UserEntity × List UserPeerRef) :=
  eachField
    (fun (users, peers) f w r => do
      if f = userField then
        return .next (← nested decodeUserEntity (users, peers) (fun u => (users ++ [u], peers)) r)
      else if f = peerField then
        return .next (← nested decodeUserPeerRef (users, peers) (fun p => (users, peers ++ [p])) r)
      else skipOr (fun _ => (users, peers)) (users, peers) w r)
    id ([], [])

/-- The loop over an `Int64Value` in `extract_phone_from_contact_info`, from the value so far. -/
def innerLong : Int64 → Bytes → Walk Int64 :=
  eachField
    (fun v f w r => do
      if f = 1 then
        let (n, r) ← varintOr r
        return .next (n.toInt64, r)
      skipOr (fun _ => v) v w r)
    id

def extractPhoneFromContactInfo : Bytes → Walk String :=
  eachField
    (fun (ty, stringValue, longValue) f w r => do
      match f with
      | 1 =>
        let (v, r) ← varintOr r
        return .next ((v.toUInt32.toInt32, stringValue, longValue), r)
      | 2 =>
        let (b, r) ← bytesOr r
        return .next ((ty, ← parseWrappedString b, longValue), r)
      | 3 =>
        let (sub, r) ← bytesOr r
        return .next ((ty, stringValue, ← innerLong longValue sub), r)
      | _ => skipAnyway (ty, stringValue, longValue) w r)
    (fun (ty, stringValue, longValue) =>
      if ty ≠ 0 then ""
      else if stringValue ≠ "" then stringValue
      else if longValue ≠ 0 then toString longValue.toInt else "")
    (0, "", 0)

def decodeFullUserPhone : Bytes → Walk (Int32 × String) :=
  eachField
    (fun (uid, phone) f w r => do
      match f with
      | 1 =>
        let (v, r) ← varintOr r
        return .next ((v.toUInt32.toInt32, phone), r)
      | 2 =>
        if phone = "" then return .next (← nested extractPhoneFromContactInfo (uid, phone) (fun p => (uid, p)) r)
        let (_, r) ← bytes r
        return .next ((uid, phone), r)
      | _ => skipAnyway (uid, phone) w r)
    id (0, "")

/-- The uids and their phones, each at its last insertion. -/
def decodeFullUsersPhones : Bytes → Walk (List (Int32 × String)) :=
  eachField
    (fun out f w r => do
      if f ≠ 1 then skipAnyway out w r
      else
        match ← bytes r with
        | (.ok b, r) =>
          let (uid, phone) ← decodeFullUserPhone b
          return .next (if 0 < uid ∧ phone ≠ "" then out.filter (·.1 ≠ uid) ++ [(uid, phone)] else out, r)
        | (.error _, _) => return .leave out)
    id []

end Walk

/-! ## The reader stays within its buffer -/

structure ProtoReader.Within (r : ProtoReader) : Prop where
  pos_le : r.pos ≤ r.buf.length
  fits : r.buf.length ≤ ISIZE_MAX

/-- Further on in the same buffer. -/
structure ProtoReader.Past (r₀ r : ProtoReader) : Prop where
  forward : r₀.Forward r
  pos_lt : r₀.pos < r.pos
  within : r.Within

theorem varintLoop_le (bs : Bytes) (acc : UInt64) (shift : ℕ) : (varintLoop bs acc shift).2 ≤ bs.length := by
  induction bs generalizing acc shift with
  | nil => exact Nat.le_refl 0
  | cons b bs ih =>
    rw [varintLoop, List.length_cons]
    split
    · exact Nat.le_add_left 1 bs.length
    · split
      · exact Nat.le_add_left 1 bs.length
      · exact Nat.succ_le_succ (ih _ _)

namespace ProtoReader

variable {r r₀ : ProtoReader}

theorem within_new {buf : Bytes} (h : buf.length ≤ ISIZE_MAX) : (new buf).Within := ⟨Nat.zero_le _, h⟩

namespace Within

theorem varint (h : r.Within) : r.varint.2.Within := by
  refine ⟨?_, h.fits⟩
  have hloop := varintLoop_le r.remaining 0 0
  have hpos := h.pos_le
  rw [remaining, List.length_drop] at hloop
  show r.pos + (varintLoop (r.buf.drop r.pos) 0 0).2 ≤ r.buf.length
  omega

theorem endOf_le {n stop : ℕ} (h : r.endOf n = .ok stop) : stop ≤ r.buf.length ∧ r.pos ≤ stop := by
  unfold ProtoReader.endOf at h
  split at h
  · cases h
  · split at h
    · cases h
    · obtain rfl := Except.ok.inj h
      omega

theorem kept : Kept Within where
  varint _ h := h.varint
  advance r n h := by
    unfold ProtoReader.advance
    split
    · rename_i stop hstop
      exact ⟨(endOf_le hstop).1, h.fits⟩
    · exact h

end Within

theorem length_of_bytes {b : Bytes} {r' : ProtoReader} (h : r.Within) (hb : r.bytes = (.ok b, r')) :
    b.length ≤ ISIZE_MAX := by
  have hfits := h.fits
  unfold bytes at hb
  split at hb
  · rename_i len r₁ hlen
    have hbuf := r.forward_varint.1
    rw [hlen] at hbuf
    split at hb
    · rename_i stop hstop
      obtain rfl := Except.ok.inj (Prod.mk.inj hb).1
      rw [List.length_drop, List.length_take, hbuf]
      omega
    · cases hb
  · cases hb

namespace Past

theorem onward (h : r₀.Past r) {r' : ProtoReader} (hforward : r.Forward r') (hwithin : r'.Within) :
    r₀.Past r' :=
  ⟨h.forward.trans hforward, Nat.lt_of_lt_of_le h.pos_lt hforward.2, hwithin⟩

theorem kept : Kept r₀.Past where
  varint r h := h.onward r.forward_varint (Within.kept.varint r h.within)
  advance r n h := h.onward (r.forward_advance n) (Within.kept.advance r n h.within)

theorem varint (h : r₀.Past r) : r₀.Past r.varint.2 := kept.varint r h

theorem bytes (h : r₀.Past r) : r₀.Past r.bytes.2 := kept.bytes h

theorem skip (h : r₀.Past r) (w : UInt32) : r₀.Past (r.skip w).2 := kept.skip h w

theorem of_tag (h : r₀.Within) {fw : UInt32 × UInt32} (htag : r₀.tag = (.ok fw, r)) : r₀.Past r := by
  have hmore : r₀.hasMore = true := by
    by_contra hnone
    have hend : ¬ r₀.pos < r₀.buf.length := of_decide_eq_false (Bool.of_not_eq_true hnone)
    have hnil : r₀.remaining = [] := List.drop_eq_nil_of_le (by omega)
    simp [tag, ProtoReader.varint, hnil, varintLoop] at htag
  obtain ⟨hbuf, hlt⟩ := pos_lt_of_tag hmore htag
  have hvarint := h.varint
  have hr : r = r₀.varint.2 := by
    rw [tag] at htag
    split at htag
    · rename_i v r₁ hv
      rw [hv]
      exact (Prod.mk.inj htag).2.symm
    · cases htag
  exact ⟨⟨hbuf, Nat.le_of_lt hlt⟩, hlt, hr ▸ hvarint⟩

end Past

end ProtoReader

/-! ## The reader's checks never fail -/

namespace Walk

variable {σ β α : Type}

/-- It ends without a fault, and its readers only moved onward, within their buffers and with each tag by a
byte at least. -/
abbrev Ends (x : Walk α) (post : α → Prop) : Prop := x.Sound Reading.Onward post

variable {r r₀ : ProtoReader}

theorem Ends.whileMore {body : σ → ProtoReader → Walk (Round (σ × ProtoReader) β)}
    {behind : σ → ProtoReader → β} {post : β → Prop} {I : σ → ProtoReader → Prop}
    (hbody : ∀ a r, I a r → r.Within → r.hasMore → Ends (body a r) fun
      | .next (a', r') => I a' r' ∧ r.Past r'
      | .leave b => post b)
    (hbehind : ∀ a r, I a r → r.hasMore = false → post (behind a r)) {a : σ} (hI : I a r) (hr : r.Within) :
    Ends (Walk.whileMore body behind a r) post := by
  refine Audit.Sound.rounds (I := fun s => I s.1 s.2 ∧ s.2.Within)
    (m := fun s => s.2.buf.length - s.2.pos) ?_ ⟨hI, hr⟩ (by simp only; omega)
  rintro ⟨a, r⟩ ⟨hI, hr⟩
  simp only
  split
  · rename_i hmore
    apply (hbody a r hI hr hmore).mono
    rintro (⟨a', r'⟩ | b) hround
    · obtain ⟨hI', hpast⟩ := hround
      have hbuf := hpast.forward.1
      have hlt := hpast.pos_lt
      have hle := hpast.within.pos_le
      refine ⟨⟨hI', hpast.within⟩, ?_⟩
      simp only [hbuf] at hle ⊢
      omega
    · exact hround
  · rename_i hnone
    exact .pure (hbehind a r hI (Bool.of_not_eq_true hnone))

theorem ends_setPos {pos : ℕ} (h : r.pos ≤ pos ∧ pos ≤ r.buf.length) :
    Ends (setPos r pos) (· = { r with pos }) := by
  have hlog : Ends (log (.moved r.buf.length r.pos pos)) fun _ => True := .log h trivial
  exact hlog.bind fun _ _ => .pure rfl

theorem ends_add {a b : ℕ} (h : a + b < 2 ^ 64) : Ends (add a b) (· = a + b) := by
  rw [add, if_pos h]
  exact .pure rfl

theorem ends_sub {a b : ℕ} (h : b ≤ a) : Ends (sub a b) (· = a - b) := by
  rw [sub, if_pos h]
  exact .pure rfl

theorem ends_shl {v : UInt64} {n : ℕ} (h : n < 64) : Ends (shl v n) (· = v <<< UInt64.ofNat n) := by
  rw [shl, if_pos h]
  exact .pure rfl

theorem ends_index {buf : Bytes} {i : ℕ} (h : i < buf.length) : Ends (index buf i) (· = buf[i]) := by
  rw [index, List.getElem?_eq_getElem h]
  exact .pure rfl

theorem ends_slice {buf : Bytes} {start stop : ℕ} (h : start ≤ stop ∧ stop ≤ buf.length) :
    Ends (slice buf start stop) (· = (buf.take stop).drop start) := by
  rw [slice, if_pos h]
  exact .pure rfl

/-- What the loop of `varint` still makes of what is ahead. -/
def readOn (result : UInt64) (shift : ℕ) (r : ProtoReader) : Except ProtoError UInt64 × ProtoReader :=
  ((varintLoop r.remaining result shift).1, r.moved (varintLoop r.remaining result shift).2)

theorem ends_varint (h : r.Within) : Ends (varint r) (· = r.varint) := by
  refine Ends.whileMore (I := fun a r' => a.2 < 64 ∧ readOn a.1 a.2 r' = r.varint) ?_ ?_ ⟨by decide, rfl⟩ h
  · rintro ⟨result, shift⟩ r' ⟨hshift, hval⟩ hr' hmore
    have hlt : r'.pos < r'.buf.length := of_decide_eq_true hmore
    have hfits := hr'.fits
    have hsize : ISIZE_MAX + 1 < 2 ^ 64 := by decide
    have hpast : r'.Past (r'.moved 1) := ⟨⟨rfl, Nat.le_add_right _ _⟩, Nat.lt_add_one _, ⟨hlt, hfits⟩⟩
    rw [← hval, readOn, ProtoReader.remaining, List.drop_eq_getElem_cons hlt, varintLoop]
    apply (ends_index hlt).bind_eq
    apply (ends_add (by omega)).bind_eq
    apply (ends_setPos ⟨Nat.le_add_right _ _, hlt⟩).bind_eq
    apply (ends_shl hshift).bind_eq
    simp only
    split
    · exact .pure rfl
    · split
      · exact .pure rfl
      · refine .pure ⟨⟨by omega, ?_⟩, hpast⟩
        show readOn _ _ (r'.moved 1) = _
        rw [readOn, ProtoReader.moved_moved, Nat.add_comm 1]
        rfl
  · rintro ⟨result, shift⟩ r' ⟨-, hval⟩ hnone
    have hend : ¬ r'.pos < r'.buf.length := of_decide_eq_false hnone
    have hnil : r'.remaining = [] := List.drop_eq_nil_of_le (by omega)
    rw [← hval, readOn, hnil]
    rfl

theorem ends_tag (h : r.Within) : Ends (tag r) (· = r.tag) := by
  apply (ends_varint h).bind_eq
  rcases hv : r.varint with ⟨e | v, r'⟩
  · have htag : r.tag = (.error e, r') := by
      rw [ProtoReader.tag, hv]
    exact .pure htag.symm
  · have htag : r.tag = (.ok ((v >>> 3).toUInt32, (v &&& 7).toUInt32), r') := by
      rw [ProtoReader.tag, hv]
    have hlog : Ends (log (.tagged r.pos r'.pos)) fun _ => True :=
      .log (ProtoReader.Past.of_tag h htag).pos_lt trivial
    exact hlog.bind fun _ _ => .pure htag.symm

theorem ends_endOf (h : r.Within) (n : ℕ) : Ends (endOf r n) (· = r.endOf n) := by
  unfold endOf ProtoReader.endOf
  by_cases hoverflow : r.pos + n ≥ 2 ^ 64
  · simp only [if_pos hoverflow]
    exact .pure rfl
  by_cases hshort : r.pos + n > r.buf.length
  · simp only [if_neg hoverflow, if_pos hshort]
    exact (ends_sub h.pos_le).bind_eq (.pure rfl)
  · simp only [if_neg hoverflow, if_neg hshort]
    exact .pure rfl

theorem ends_advance (h : r.Within) (n : ℕ) : Ends (advance r n) (· = r.advance n) := by
  apply (ends_endOf h n).bind_eq
  unfold ProtoReader.advance
  rcases hstop : r.endOf n with e | stop
  · exact .pure rfl
  · obtain ⟨hle, hge⟩ := ProtoReader.Within.endOf_le hstop
    apply (ends_setPos ⟨hge, hle⟩).bind_eq
    exact .pure rfl

theorem ends_bytes (h : r.Within) : Ends (bytes r) (· = r.bytes) := by
  have hwithin := h.varint
  apply (ends_varint h).bind_eq
  unfold ProtoReader.bytes
  rcases hlen : r.varint with ⟨e | len, r'⟩
  · exact .pure rfl
  · rw [hlen] at hwithin
    apply (ends_endOf hwithin len.toNat).bind_eq
    simp only
    rcases hstop : r'.endOf len.toNat with e | stop
    · exact .pure rfl
    · obtain ⟨hle, hge⟩ := ProtoReader.Within.endOf_le hstop
      apply (ends_slice ⟨hge, hle⟩).bind_eq
      apply (ends_setPos ⟨hge, hle⟩).bind_eq
      exact .pure rfl

theorem ends_string (h : r.Within) : Ends (string r) (· = r.string) := by
  apply (ends_bytes h).bind_eq
  unfold ProtoReader.string
  rcases r.bytes with ⟨e | b, r'⟩
  · exact .pure rfl
  · simp only
    rcases String.fromUTF8? ⟨b.toArray⟩ with - | s <;> exact .pure rfl

theorem ends_skip (h : r.Within) (w : UInt32) : Ends (skip r w) (· = r.skip w) := by
  have hwithin := h.varint
  unfold skip ProtoReader.skip
  by_cases hw0 : w = 0
  · simp only [if_pos hw0]
    apply (ends_varint h).bind_eq
    rcases r.varint with ⟨e | v, r'⟩ <;> exact .pure rfl
  by_cases hw1 : w = 1
  · simp only [if_neg hw0, if_pos hw1]
    exact ends_advance h 8
  by_cases hw2 : w = 2
  · simp only [if_neg hw0, if_neg hw1, if_pos hw2]
    apply (ends_varint h).bind_eq
    rcases hn : r.varint with ⟨e | n, r'⟩
    · exact .pure rfl
    · rw [hn] at hwithin
      exact ends_advance hwithin n.toNat
  by_cases hw5 : w = 5
  · simp only [if_neg hw0, if_neg hw1, if_neg hw2, if_pos hw5]
    exact ends_advance h 4
  · simp only [if_neg hw0, if_neg hw1, if_neg hw2, if_neg hw5]
    exact .pure rfl

theorem ends_varintOr (h : r.Within) : Ends (varintOr r) (· = (r.varint.1.toOption.getD 0, r.varint.2)) := by
  apply (ends_varint h).bind_eq
  exact .pure rfl

theorem ends_stringOr (h : r.Within) : Ends (stringOr r) (· = (r.string.1.toOption.getD "", r.string.2)) := by
  apply (ends_string h).bind_eq
  exact .pure rfl

theorem ends_bytesOr (h : r.Within) : Ends (bytesOr r) (· = (r.bytes.1.toOption.getD [], r.bytes.2)) := by
  apply (ends_bytes h).bind_eq
  exact .pure rfl

theorem length_bytesOr (h : r.Within) : (r.bytes.1.toOption.getD []).length ≤ ISIZE_MAX := by
  rcases hb : r.bytes with ⟨e | b, r'⟩
  · exact Nat.zero_le _
  · exact ProtoReader.length_of_bytes h hb

/-! ## The decoders end -/

/-- The round leaves, or goes on with the reader further on. -/
def MovesOn (r₀ : ProtoReader) : Round (σ × ProtoReader) β → Prop
  | .next (_, r) => r₀.Past r
  | .leave _ => True

theorem ends_skipAnyway (a : σ) (w : UInt32) (h : r₀.Past r) :
    Ends (skipAnyway a w r : Walk (Round (σ × ProtoReader) β)) (MovesOn r₀) := by
  apply (ends_skip h.within w).bind_eq
  exact .pure (h.skip w)

theorem ends_skipOr (failed : ProtoError → β) (a : σ) (w : UInt32) (h : r₀.Past r) :
    Ends (skipOr failed a w r) (MovesOn r₀) := by
  have hskip := h.skip w
  apply (ends_skip h.within w).bind_eq
  split
  · rename_i r' hr'
    rw [hr'] at hskip
    exact .pure hskip
  · exact .pure trivial

theorem ends_nested {decode : Bytes → Walk σ} {a : β} {push : σ → β}
    (hdecode : ∀ b : Bytes, b.length ≤ ISIZE_MAX → Ends (decode b) fun _ => True) (h : r₀.Past r) :
    Ends (nested decode a push r) fun x => r₀.Past x.2 := by
  have hbytes := h.bytes
  apply (ends_bytes h.within).bind_eq
  split
  · rename_i b r' hb
    rw [hb] at hbytes
    apply (hdecode b (ProtoReader.length_of_bytes h.within hb)).bind
    intro x _
    exact .pure hbytes
  · rename_i e r' hb
    rw [hb] at hbytes
    exact .pure hbytes

theorem Ends.eachTag {failed : ProtoError → σ → β}
    {body : σ → UInt32 → UInt32 → ProtoReader → Walk (Round (σ × ProtoReader) β)} {behind : σ → β}
    {post : β → Prop} {I : σ → ProtoReader → Prop}
    (hbody : ∀ a r₀ f w r, I a r₀ → r₀.hasMore → r₀.tag = (.ok (f, w), r) → r₀.Past r →
      Ends (body a f w r) fun
        | .next (a', r') => I a' r' ∧ r₀.Past r'
        | .leave b => post b)
    (hfailed : ∀ a r e r', I a r → r.hasMore → r.tag = (.error e, r') → post (failed e a))
    (hbehind : ∀ a r, I a r → r.hasMore = false → post (behind a)) {a : σ} {buf : Bytes}
    (hI : I a (ProtoReader.new buf)) (h : buf.length ≤ ISIZE_MAX) :
    Ends (Walk.eachTag failed body behind a buf) post := by
  refine Ends.whileMore (I := I) ?_ hbehind hI (ProtoReader.within_new h)
  intro a r₀ hI hwithin hmore
  apply (ends_tag hwithin).bind_eq
  rcases htag : r₀.tag with ⟨e | ⟨f, w⟩, r⟩
  · exact .pure (hfailed a r₀ e r hI hmore htag)
  · exact hbody a r₀ f w r hI hmore htag (ProtoReader.Past.of_tag hwithin htag)

/-- A loop ends when its rounds do and move on from the tag. -/
theorem ends_eachTag {failed : ProtoError → σ → β}
    {body : σ → UInt32 → UInt32 → ProtoReader → Walk (Round (σ × ProtoReader) β)} {behind : σ → β}
    (hbody : ∀ a f w {r₀ r}, r₀.Past r → Ends (body a f w r) (MovesOn r₀)) (a : σ) {buf : Bytes}
    (h : buf.length ≤ ISIZE_MAX) : Ends (eachTag failed body behind a buf) fun _ => True := by
  refine Ends.eachTag (I := fun _ _ => True) ?_ (fun _ _ _ _ _ _ _ => trivial) (fun _ _ _ _ => trivial) trivial h
  intro a r₀ f w r _ _ _ hpast
  apply (hbody a f w hpast).mono
  rintro (⟨a', r'⟩ | b) hround
  · exact ⟨trivial, hround⟩
  · trivial

/-- What a round of the loop without checks does. -/
def round (d : Decoder α) (a : α) (f w : UInt32) (r : ProtoReader) : Round (α × ProtoReader) α :=
  match d.field f with
  | some read => .next (read.run a r)
  | none =>
    match r.skip w with
    | (.ok _, r) => .next (a, r)
    | (.error _, r) => if d.breaks then .leave a else .next (a, r)

theorem round_movesOn (d : Decoder α) (a : α) (f w : UInt32) (h : r₀.Past r) :
    MovesOn r₀ (round d a f w r) := by
  have hskip := h.skip w
  unfold round
  split
  · exact ProtoReader.Past.kept.run h _ a
  · split
    · rename_i hr
      rw [hr] at hskip
      exact hskip
    · rename_i hr
      rw [hr] at hskip
      split
      · trivial
      · exact hskip

/-- A loop whose rounds do what those of a table do returns what the table makes of the buffer. -/
theorem ends_table {d : Decoder α}
    {body : α → UInt32 → UInt32 → ProtoReader → Walk (Round (α × ProtoReader) α)}
    (hbody : ∀ a f w {r}, r.Within → Ends (body a f w r) (· = round d a f w r)) {buf : Bytes}
    (h : buf.length ≤ ISIZE_MAX) : Ends (eachField body id d.init buf) (· = d.run buf) := by
  have hstart : ∀ n ≥ buf.length, d.scan n d.init (ProtoReader.new buf) = d.run buf := by
    intro n hn
    rw [← d.scan_eq_run buf (n - buf.length), Nat.add_sub_cancel' hn]
  refine Ends.eachTag (I := fun a r => ∀ n ≥ buf.length, d.scan n a r = d.run buf) ?_ ?_ ?_ hstart h
  · intro a r₀ f w r hI hmore htag hpast
    apply (hbody a f w hpast.within).mono
    rintro _ rfl
    have hmoves := round_movesOn d a f w hpast
    have hscan : ∀ n ≥ buf.length, (match round d a f w r with
        | .next (a, r) => d.scan n a r
        | .leave b => b) = d.run buf := by
      intro n hn
      rw [← hI (n + 1) (by omega), Decoder.scan, if_pos hmore, htag]
      simp only [round]
      rcases d.field f with - | read
      · rcases r.skip w with ⟨e | u, r'⟩
        · cases d.breaks <;> rfl
        · rfl
      · rfl
    split
    · rename_i a' r' hround
      rw [hround] at hmoves hscan
      exact ⟨hscan, hmoves⟩
    · rename_i b hround
      rw [hround] at hscan
      exact hscan buf.length (Nat.le_refl _)
  · intro a r e r' hI hmore htag
    rw [← hI (buf.length + 1) (by omega), Decoder.scan, if_pos hmore, htag]
    rfl
  · intro a r hI hnone
    rw [← hI buf.length (Nat.le_refl _), d.scan_of_not_hasMore hnone]
    rfl

theorem ends_skipAnyway_round {d : Decoder α} {a : α} {f w : UInt32} (hfield : d.field f = none)
    (hbreaks : d.breaks = false) (h : r.Within) : Ends (skipAnyway a w r) (· = round d a f w r) := by
  apply (ends_skip h w).bind_eq
  simp only [round, hfield, hbreaks]
  rcases r.skip w with ⟨e | u, r'⟩ <;> exact .pure rfl

theorem ends_skipOr_round {d : Decoder α} {a : α} {f w : UInt32} (hfield : d.field f = none)
    (hbreaks : d.breaks = true) (h : r.Within) :
    Ends (skipOr (fun _ => a) a w r) (· = round d a f w r) := by
  apply (ends_skip h w).bind_eq
  simp only [round, hfield, hbreaks]
  rcases r.skip w with ⟨e | u, r'⟩ <;> exact .pure rfl

theorem parseWrappedString_ends {buf : Bytes} (h : buf.length ≤ ISIZE_MAX) :
    Ends (parseWrappedString buf) (· = Signaling.parseWrappedString buf) := by
  have hstart : ∀ n ≥ buf.length,
      wrappedLoop n (ProtoReader.new buf) = Signaling.parseWrappedString buf := by
    intro n hn
    induction hn with
    | refl => rfl
    | step hn ih => rw [wrappedLoop_succ _ _ (by simpa [ProtoReader.new] using hn), ih]
  unfold parseWrappedString eachField
  refine Ends.eachTag (I := fun _ r => ∀ n ≥ buf.length,
    wrappedLoop n r = Signaling.parseWrappedString buf) ?_ ?_ ?_ hstart h
  · intro _ r₀ f w r hI hmore htag hpast
    have hround : ∀ n ≥ buf.length, (if f = 1 then r.string.1.toOption.getD "" else
        match r.skip w with
        | (.ok _, r) => wrappedLoop n r
        | (.error _, _) => "") = Signaling.parseWrappedString buf := by
      intro n hn
      have hI' := hI (n + 1) (by omega)
      rw [wrappedLoop, if_pos hmore, htag] at hI'
      exact hI'
    by_cases hf : f = 1
    · simp only [if_pos hf] at hround ⊢
      apply (ends_stringOr hpast.within).bind_eq
      exact .pure (hround buf.length (Nat.le_refl _))
    · have hskip := hpast.skip w
      simp only [if_neg hf] at hround ⊢
      apply (ends_skip hpast.within w).bind_eq
      rcases hr : r.skip w with ⟨e | u, r'⟩
      · rw [hr] at hround
        exact .pure (hround buf.length (Nat.le_refl _))
      · rw [hr] at hround hskip
        exact .pure ⟨hround, hskip⟩
  · intro _ r e r' hI hmore htag
    rw [← hI (buf.length + 1) (by omega), wrappedLoop, if_pos hmore, htag]
  · intro _ r hI hnone
    rw [← hI (buf.length + 1) (by omega), wrappedLoop, if_neg (by simp [hnone])]

theorem parseCallEntity_ends {buf : Bytes} (h : buf.length ≤ ISIZE_MAX) :
    Ends (parseCallEntity buf) (· = Signaling.parseCallEntity buf) := by
  refine ends_table (d := callEntity) (fun c f w r hr => ?_) h
  split
  · exact (ends_varintOr hr).bind_eq (.pure rfl)
  · exact (ends_stringOr hr).bind_eq (.pure rfl)
  · exact (ends_stringOr hr).bind_eq (.pure rfl)
  · apply (ends_bytesOr hr).bind_eq
    apply (parseWrappedString_ends (length_bytesOr hr)).bind_eq
    exact .pure rfl
  · exact (ends_varintOr hr).bind_eq (.pure rfl)
  · exact (ends_varintOr hr).bind_eq (.pure rfl)
  · exact (ends_varintOr hr).bind_eq (.pure rfl)
  · exact (ends_varintOr hr).bind_eq (.pure rfl)
  · exact (ends_varintOr hr).bind_eq (.pure rfl)
  · exact (ends_varintOr hr).bind_eq (.pure rfl)
  · exact (ends_varintOr hr).bind_eq (.pure rfl)
  · refine ends_skipOr_round ?_ rfl hr
    simp only [callEntity]

theorem decodeUserEntity_ends {buf : Bytes} (h : buf.length ≤ ISIZE_MAX) :
    Ends (decodeUserEntity buf) (· = Signaling.decodeUserEntity buf) := by
  refine ends_table (d := userEntity) (fun c f w r hr => ?_) h
  split
  · exact (ends_varintOr hr).bind_eq (.pure rfl)
  · exact (ends_varintOr hr).bind_eq (.pure rfl)
  · exact (ends_stringOr hr).bind_eq (.pure rfl)
  · apply (ends_bytesOr hr).bind_eq
    apply (parseWrappedString_ends (length_bytesOr hr)).bind_eq
    exact .pure rfl
  · refine ends_skipAnyway_round ?_ rfl hr
    simp only [userEntity]

theorem decodeUserPeerRef_ends {buf : Bytes} (h : buf.length ≤ ISIZE_MAX) :
    Ends (decodeUserPeerRef buf) (· = Signaling.decodeUserPeerRef buf) := by
  refine ends_table (d := userPeerRef) (fun c f w r hr => ?_) h
  split
  · exact (ends_varintOr hr).bind_eq (.pure rfl)
  · exact (ends_varintOr hr).bind_eq (.pure rfl)
  · refine ends_skipAnyway_round ?_ rfl hr
    simp only [userPeerRef]

theorem ends_nested_run {decode : Bytes → Walk σ} {pure' : Bytes → σ} {a : α} {push : σ → α}
    (hdecode : ∀ {b : Bytes}, b.length ≤ ISIZE_MAX → Ends (decode b) (· = pure' b)) (h : r.Within) :
    Ends (nested decode a push r) (· = (FieldRead.message fun b _ => push (pure' b)).run a r) := by
  apply (ends_bytes h).bind_eq
  unfold FieldRead.run
  rcases hb : r.bytes with ⟨e | b, r'⟩
  · exact .pure rfl
  · exact (hdecode (ProtoReader.length_of_bytes h hb)).bind_eq (.pure rfl)

theorem decodeGetContactsResponse_ends {buf : Bytes} (h : buf.length ≤ ISIZE_MAX) :
    Ends (decodeGetContactsResponse buf) (· = Signaling.decodeGetContactsResponse buf) := by
  refine ends_table (d := contactPeers) (fun c f w r hr => ?_) h
  split
  · exact (ends_nested_run decodeUserEntity_ends hr).bind_eq (.pure rfl)
  · exact (ends_nested_run decodeUserPeerRef_ends hr).bind_eq (.pure rfl)
  · refine ends_skipAnyway_round ?_ rfl hr
    simp only [contactPeers]

theorem decodeUsersResponse_ends {buf : Bytes} (h : buf.length ≤ ISIZE_MAX) :
    Ends (decodeUsersResponse buf) (· = Signaling.decodeUsersResponse buf) := by
  refine ends_table (d := usersResponse) (fun out f w r hr => ?_) h
  split
  · rename_i hf
    subst hf
    exact (ends_nested_run decodeUserEntity_ends hr).bind_eq (.pure rfl)
  · refine ends_skipOr_round ?_ rfl hr
    simp only [usersResponse]

/-! ### The decoders with arms of their own -/

theorem ends_eachField {body : σ → UInt32 → UInt32 → ProtoReader → Walk (Round (σ × ProtoReader) β)}
    {behind : σ → β} (hbody : ∀ a f w {r₀ r}, r₀.Past r → Ends (body a f w r) (MovesOn r₀)) (a : σ) {buf : Bytes}
    (h : buf.length ≤ ISIZE_MAX) : Ends (eachField body behind a buf) fun _ => True :=
  ends_eachTag hbody a h

theorem ends_bytes_bind {f : Except ProtoError Bytes × ProtoReader → Walk (Round (σ × ProtoReader) β)}
    (h : r₀.Past r)
    (hok : ∀ b r', b.length ≤ ISIZE_MAX → r₀.Past r' → Ends (f (.ok b, r')) (MovesOn r₀))
    (herror : ∀ e r', r₀.Past r' → Ends (f (.error e, r')) (MovesOn r₀)) :
    Ends (bytes r >>= f) (MovesOn r₀) := by
  have hbytes := h.bytes
  apply (ends_bytes h.within).bind_eq
  rcases hb : r.bytes with ⟨e | b, r'⟩
  · rw [hb] at hbytes
    exact herror e r' hbytes
  · rw [hb] at hbytes
    exact hok b r' (ProtoReader.length_of_bytes h.within hb) hbytes

theorem parseParticipantId_ends {buf : Bytes} (h : buf.length ≤ ISIZE_MAX) :
    Ends (parseParticipantId buf) fun _ => True := by
  refine ends_eachField ?_ _ h
  rintro out f w r₀ r hr
  split
  · exact (ends_varintOr hr.within).bind_eq (.pure hr.varint)
  · exact (ends_bytes hr.within).bind_eq (.pure hr.bytes)
  · exact ends_skipOr _ out w hr

theorem parseCallResponse_ends {buf : Bytes} (h : buf.length ≤ ISIZE_MAX) :
    Ends (parseCallResponse buf) fun _ => True := by
  refine ends_eachField ?_ _ h
  rintro ⟨call, outerCallerId⟩ f w r₀ r hr
  simp only
  split
  · refine ends_bytes_bind hr (fun b r' hb hr' => ?_) fun e r' hr' => .pure trivial
    exact (parseCallEntity_ends hb).bind fun _ _ => .pure hr'
  · split
    · refine ends_bytes_bind hr (fun b r' hb hr' => ?_) fun e r' hr' => .pure trivial
      exact (parseParticipantId_ends hb).bind fun _ _ => .pure hr'
    · exact ends_skipOr _ _ w hr

theorem parseCallEnded_ends {buf : Bytes} (h : buf.length ≤ ISIZE_MAX) :
    Ends (parseCallEnded buf) fun _ => True := by
  refine ends_eachField ?_ _ h
  rintro _ f w r₀ r hr
  split
  · refine ends_bytes_bind hr (fun b r' hb hr' => ?_) fun e r' hr' => .pure trivial
    exact (parseCallEntity_ends hb).bind fun _ _ => .pure trivial
  · exact ends_skipOr _ () w hr

theorem innerCallId_ends {buf : Bytes} (h : buf.length ≤ ISIZE_MAX) :
    Ends (innerCallId buf) fun _ => True := by
  refine ends_eachField ?_ _ h
  rintro _ f w r₀ r hr
  split
  · exact (ends_varintOr hr.within).bind_eq (.pure trivial)
  · exact ends_skipOr _ () w hr

theorem parseCallId_ends {buf : Bytes} (h : buf.length ≤ ISIZE_MAX) :
    Ends (parseCallId buf) fun _ => True := by
  refine ends_eachField ?_ _ h
  rintro _ f w r₀ r hr
  split
  · exact (ends_varintOr hr.within).bind_eq (.pure trivial)
  · split
    · refine ends_bytes_bind hr (fun inner r' hinner hr' => ?_) fun e r' hr' => .pure trivial
      apply (innerCallId_ends hinner).bind
      rintro (- | id) -
      · exact .pure hr'
      · exact .pure trivial
    · exact ends_skipOr _ () w hr

theorem parseCallReceived_ends {buf : Bytes} (h : buf.length ≤ ISIZE_MAX) :
    Ends (parseCallReceived buf) fun _ => True := by
  refine ends_eachField ?_ _ h
  rintro ⟨callId, caller⟩ f w r₀ r hr
  simp only
  split
  · exact (ends_varintOr hr.within).bind_eq (.pure hr.varint)
  · split
    · refine ends_bytes_bind hr (fun b r' hb hr' => ?_) fun e r' hr' => .pure trivial
      exact (parseParticipantId_ends hb).bind fun _ _ => .pure hr'
    · exact ends_skipOr _ _ w hr

theorem fireXc_ends (f : UInt32) {raw : Bytes} (h : raw.length ≤ ISIZE_MAX) :
    Ends (fireXc f raw) fun _ => True := by
  unfold fireXc
  split
  · exact (parseCallResponse_ends h).bind fun _ _ => .pure trivial
  · split
    · apply (parseCallResponse_ends h).bind
      rintro (- | c) - <;> exact .pure trivial
    · split
      · apply (parseCallEnded_ends h).bind
        rintro (- | c) -
        · exact (parseCallId_ends h).bind fun _ _ => .pure trivial
        · exact .pure trivial
      · exact (parseCallReceived_ends h).bind fun _ _ => .pure trivial

theorem dispatchXc_ends (fired : List Fired) {buf : Bytes} (h : buf.length ≤ ISIZE_MAX) :
    Ends (dispatchXc fired buf) fun _ => True := by
  refine ends_eachTag ?_ _ h
  rintro fired f w r₀ r hr
  split
  · refine ends_bytes_bind hr (fun raw r' hraw hr' => ?_) fun e r' hr' => .pure trivial
    exact (fireXc_ends f hraw).bind fun _ _ => .pure hr'
  · exact ends_skipOr _ fired w hr

theorem handleUpdateBody_ends {buf : Bytes} (h : buf.length ≤ ISIZE_MAX) :
    Ends (handleUpdateBody buf) fun _ => True := by
  refine ends_eachTag ?_ _ h
  rintro fired f w r₀ r hr
  split
  · refine ends_bytes_bind hr (fun xc r' hxc hr' => ?_) fun e r' hr' => .pure trivial
    apply (dispatchXc_ends fired hxc).bind
    rintro ⟨e | u, fired'⟩ -
    · exact .pure trivial
    · exact .pure hr'
  · exact ends_bytes_bind hr (fun _ r' _ hr' => .pure hr') fun e r' hr' => .pure trivial
  · exact ends_bytes_bind hr (fun _ r' _ hr' => .pure hr') fun e r' hr' => .pure trivial
  · exact ends_skipOr _ fired w hr

theorem decodeRawSearch_ends (userField peerField : UInt32) {buf : Bytes} (h : buf.length ≤ ISIZE_MAX) :
    Ends (decodeRawSearch userField peerField buf) fun _ => True := by
  refine ends_eachField ?_ _ h
  rintro ⟨users, peers⟩ f w r₀ r hr
  simp only
  split
  · exact (ends_nested (fun b hb => (decodeUserEntity_ends hb).mono fun _ _ => trivial) hr).bind
      fun _ hr' => .pure hr'
  · split
    · exact (ends_nested (fun b hb => (decodeUserPeerRef_ends hb).mono fun _ _ => trivial) hr).bind
        fun _ hr' => .pure hr'
    · exact ends_skipOr _ _ w hr

theorem innerLong_ends (v : Int64) {buf : Bytes} (h : buf.length ≤ ISIZE_MAX) :
    Ends (innerLong v buf) fun _ => True := by
  refine ends_eachField ?_ _ h
  rintro v f w r₀ r hr
  split
  · exact (ends_varintOr hr.within).bind_eq (.pure hr.varint)
  · exact ends_skipOr _ v w hr

theorem extractPhoneFromContactInfo_ends {buf : Bytes} (h : buf.length ≤ ISIZE_MAX) :
    Ends (extractPhoneFromContactInfo buf) fun _ => True := by
  refine ends_eachField ?_ _ h
  rintro ⟨ty, stringValue, longValue⟩ f w r₀ r hr
  simp only
  split
  · exact (ends_varintOr hr.within).bind_eq (.pure hr.varint)
  · apply (ends_bytesOr hr.within).bind_eq
    exact (parseWrappedString_ends (length_bytesOr hr.within)).bind fun _ _ => .pure hr.bytes
  · apply (ends_bytesOr hr.within).bind_eq
    exact (innerLong_ends longValue (length_bytesOr hr.within)).bind fun _ _ => .pure hr.bytes
  · exact ends_skipAnyway _ w hr

theorem decodeFullUserPhone_ends {buf : Bytes} (h : buf.length ≤ ISIZE_MAX) :
    Ends (decodeFullUserPhone buf) fun _ => True := by
  refine ends_eachField ?_ _ h
  rintro ⟨uid, phone⟩ f w r₀ r hr
  simp only
  split
  · exact (ends_varintOr hr.within).bind_eq (.pure hr.varint)
  · split
    · exact (ends_nested (fun b hb => extractPhoneFromContactInfo_ends hb) hr).bind fun _ hr' => .pure hr'
    · exact (ends_bytes hr.within).bind_eq (.pure hr.bytes)
  · exact ends_skipAnyway _ w hr

theorem decodeFullUsersPhones_ends {buf : Bytes} (h : buf.length ≤ ISIZE_MAX) :
    Ends (decodeFullUsersPhones buf) fun _ => True := by
  refine ends_eachField ?_ _ h
  rintro out f w r₀ r hr
  split
  · exact ends_skipAnyway out w hr
  · refine ends_bytes_bind hr (fun b r' hb hr' => ?_) fun e r' hr' => .pure trivial
    exact (decodeFullUserPhone_ends hb).bind fun _ _ => .pure hr'

/-- It ends without a fault, and its readers only moved onward within their buffers. -/
def Completes (x : Walk α) : Prop := Ends x fun _ => True

theorem Completes.of_ends {x : Walk α} {post : α → Prop} (h : Ends x post) : Completes x :=
  h.mono fun _ _ => trivial

/-- For every byte string, which like every slice has at most `isize::MAX` bytes. -/
theorem walks_complete {buf : Bytes} (h : buf.length ≤ ISIZE_MAX) :
    (Completes (parseWrappedString buf) ∧ Completes (parseCallEntity buf) ∧ Completes (parseParticipantId buf) ∧
      Completes (parseCallResponse buf) ∧ Completes (parseCallEnded buf) ∧ Completes (parseCallId buf) ∧
      Completes (parseCallReceived buf) ∧ Completes (handleUpdateBody buf) ∧
      ∀ fired, Completes (dispatchXc fired buf)) ∧
    Completes (decodeGetContactsResponse buf) ∧ Completes (decodeUsersResponse buf) ∧
      (∀ userField peerField, Completes (decodeRawSearch userField peerField buf)) ∧
      Completes (decodeUserEntity buf) ∧ Completes (decodeUserPeerRef buf) ∧
      Completes (decodeFullUsersPhones buf) ∧ Completes (decodeFullUserPhone buf) ∧
      Completes (extractPhoneFromContactInfo buf) := by
  refine ⟨⟨.of_ends (parseWrappedString_ends h), .of_ends (parseCallEntity_ends h), parseParticipantId_ends h,
    parseCallResponse_ends h, parseCallEnded_ends h, parseCallId_ends h, parseCallReceived_ends h,
    handleUpdateBody_ends h, fun fired => dispatchXc_ends fired h⟩, ?_⟩
  exact ⟨.of_ends (decodeGetContactsResponse_ends h), .of_ends (decodeUsersResponse_ends h),
    fun userField peerField => decodeRawSearch_ends userField peerField h, .of_ends (decodeUserEntity_ends h),
    .of_ends (decodeUserPeerRef_ends h), decodeFullUsersPhones_ends h, decodeFullUserPhone_ends h,
    extractPhoneFromContactInfo_ends h⟩

/-- A started call in an update, which claims the largest `u64` for its length. -/
def hugeLength : Bytes :=
  [0x0A, 15, 0xBA, 0xE4, 0x19, 11, 0x0A, 0xFF, 0xFF, 0xFF, 0xFF, 0xFF, 0xFF, 0xFF, 0xFF, 0xFF, 0x01]

theorem walks_complete_hugeLength : Completes (handleUpdateBody hugeLength) ∧
    (handleUpdateBody hugeLength).map (·.1.2) = .ok [.callReceived 0 none] :=
  ⟨(walks_complete (by decide)).1.2.2.2.2.2.2.2.1, by decide +kernel⟩

end Walk

end BaleVpn.Signaling
