import BaleVpn.Signaling.Rpc
import BaleVpn.Signaling.Written

/-!
# Frames of the signalling channel (`ws.rs`)

A binary WebSocket message holds any number of top-level frames, and the reader loop of a session steps
through them with `decode_server_frame` until one cannot be parsed. The bodies it looks into are walked by
decoders that give up at the first field that cannot be read; the error of an RPC is decoded leniently.
-/

namespace BaleVpn.Signaling

open Lib Base128 Net

def PROTO_VERSION : Int32 := 1
def API_VERSION : Int64 := 151668

/-! ## What the client writes -/

def encodeHandshake : Bytes :=
  let inner := ((ProtoWriter.new.int32 1 PROTO_VERSION).int64 2 API_VERSION).build
  (ProtoWriter.new.bytes 3 inner).build

def encodePing (pingIdx : Int32) : Bytes :=
  let inner := (ProtoWriter.new.int32 1 pingIdx).build
  (ProtoWriter.new.bytes 2 inner).build

def encodeRpc (service method : String) (payload : Bytes) (idx : Int32) : Bytes :=
  let inner := ((((ProtoWriter.new.string 1 service).string 2 method).bytes 3 payload).int64 5
    idx.toInt64).build
  (ProtoWriter.new.bytes 1 inner).build

inductive ClientMessage
  | handshake
  | ping (pingIdx : Int32)
  | rpc (service method : String) (payload : Bytes) (idx : Int32)
  deriving DecidableEq

namespace ClientMessage

def encoded : ClientMessage → Bytes
  | .handshake => encodeHandshake
  | .ping pingIdx => encodePing pingIdx
  | .rpc service method payload idx => encodeRpc service method payload idx

def number : ClientMessage → UInt32
  | .handshake => 3
  | .ping _ => 2
  | .rpc _ _ _ _ => 1

def fields : ClientMessage → List (UInt32 × FieldValue)
  | .handshake => [(1, .int32 PROTO_VERSION), (2, .int64 API_VERSION)]
  | .ping pingIdx => [(1, .int32 pingIdx)]
  | .rpc service method payload idx =>
    [(1, .string service), (2, .string method), (3, .bytes payload), (5, .int64 idx.toInt64)]

theorem encoded_eq (m : ClientMessage) : m.encoded = written [(m.number, .bytes (written m.fields))] := by
  cases m <;> rfl

theorem read_encoded (m : ClientMessage) (hfits : m.encoded.length ≤ ISIZE_MAX) :
    ((ProtoReader.new m.encoded).readFields [.bytes]).1 = .ok [(m.number, 2, .bytes (written m.fields))] ∧
      ((ProtoReader.new (written m.fields)).readFields (m.fields.map (·.2.kind))).1 =
        .ok (m.fields.map fun x => (x.1, x.2.wire, x.2.image)) := by
  rw [encoded_eq] at hfits ⊢
  have houter := readFields_written [] [(m.number, .bytes (written m.fields))] hfits
  have hinner : (written m.fields).length ≤ ISIZE_MAX := (length_le_bytes_field [] [] m.number _).trans hfits
  exact ⟨congrArg Prod.fst houter, congrArg Prod.fst (readFields_written [] m.fields hinner)⟩

end ClientMessage

/-! ## The walk over a message -/

inductive ServerFrame
  | rpcOrPush (body : Bytes)
  | pushContainer (body : Bytes)
  | terminate (body : Bytes)
  | pong (body : Bytes)
  | handshake (body : Bytes)
  | other (field : UInt32) (body : Bytes)
  deriving DecidableEq, Repr

/-- The frame of a field number and a body. -/
def ServerFrame.of (field : UInt32) (body : Bytes) : ServerFrame :=
  if field = 1 then .rpcOrPush body
  else if field = 2 then .pushContainer body
  else if field = 3 then .terminate body
  else if field = 4 then .pong body
  else if field = 5 then .handshake body
  else .other field body

def decodeServerFrame (r : ProtoReader) : Except ProtoError ServerFrame × ProtoReader :=
  match r.tag with
  | (.error e, r) => (.error e, r)
  | (.ok (f, w), r) =>
    if w = 2 then
      match r.bytes with
      | (.ok body, r) => (.ok (.of f body), r)
      | (.error e, r) => (.error e, r)
    else
      match r.skip w with
      | (.ok _, r) => (.ok (.other f []), r)
      | (.error e, r) => (.error e, r)

/-- The reader loop over one message, for at most so many rounds: the frames, and what ended it early. -/
def readFrames : ℕ → ProtoReader → List ServerFrame × Option ProtoError
  | 0, _ => ([], none)
  | n + 1, r =>
    if r.hasMore then
      match decodeServerFrame r with
      | (.ok frame, r) =>
        let (frames, e) := readFrames n r
        (frame :: frames, e)
      | (.error e, _) => ([], some e)
    else ([], none)

def messageFrames (buf : Bytes) : List ServerFrame × Option ProtoError :=
  readFrames buf.length (ProtoReader.new buf)

/-! ## Fields at the top -/

/-- A tag with any field number, and the payload of its wire type. -/
structure TopField where
  tag : Varint
  payload : Payload
  wire : (tag.value &&& 7).toUInt32 = payload.wire

namespace TopField

def encoded (x : TopField) : Bytes := x.tag.bytes ++ x.payload.encoded

def number (x : TopField) : UInt32 := (x.tag.value >>> 3).toUInt32

/-- Only a length-delimited field has a body that is looked at. -/
def frame (x : TopField) : ServerFrame :=
  match x.payload with
  | .lengthDelimited _ body _ => .of x.number body
  | _ => .other x.number []

theorem encoded_ne_nil (x : TopField) : x.encoded ≠ [] :=
  List.append_ne_nil_of_left_ne_nil x.tag.terminated.ne_nil _

end TopField

def topFields (xs : List TopField) : Bytes := xs.flatMap TopField.encoded

theorem decodeServerFrame_of_remaining {r : ProtoReader} (hbuf : r.buf.length ≤ ISIZE_MAX) (x : TopField)
    {tail : Bytes} (h : r.remaining = x.encoded ++ tail) :
    decodeServerFrame r = (.ok x.frame, r.moved x.encoded.length) := by
  rw [TopField.encoded, List.append_assoc] at h
  have htag := ProtoReader.tag_of_remaining x.tag h
  have hpayload := ProtoReader.remaining_of_append h
  have hskip := ProtoReader.skip_of_remaining (r := r.moved x.tag.bytes.length) hbuf x.payload hpayload
  have hmoved : (r.moved x.tag.bytes.length).moved x.payload.encoded.length = r.moved x.encoded.length := by
    rw [ProtoReader.moved_moved, TopField.encoded, List.length_append]
  obtain ⟨tag, payload, hwire⟩ := x
  unfold decodeServerFrame
  rw [htag]
  simp only at hwire hskip hmoved ⊢
  rw [hwire]
  cases payload with
  | lengthDelimited len body hlen =>
    have hbytes := ProtoReader.bytes_of_remaining (r := r.moved tag.bytes.length) hbuf len hlen hpayload
    have hwire : (Payload.lengthDelimited len body hlen).wire = 2 := rfl
    rw [if_pos hwire, hbytes]
    simp only [← hmoved, Payload.encoded, List.length_append]
    rfl
  | varint v =>
    have hwire : ¬ (Payload.varint v).wire = 2 := by simp [Payload.wire]
    rw [if_neg hwire, hskip, hmoved]
    rfl
  | fixed64 bs hbs =>
    have hwire : ¬ (Payload.fixed64 bs hbs).wire = 2 := by simp [Payload.wire]
    rw [if_neg hwire, hskip, hmoved]
    rfl
  | fixed32 bs hbs =>
    have hwire : ¬ (Payload.fixed32 bs hbs).wire = 2 := by simp [Payload.wire]
    rw [if_neg hwire, hskip, hmoved]
    rfl

theorem skip_of_bytes {r r' : ProtoReader} {b : Bytes} (h : r.bytes = (.ok b, r')) :
    r.skip 2 = (.ok (), r') := by
  unfold ProtoReader.bytes at h
  unfold ProtoReader.skip
  rw [if_neg (by decide), if_neg (by decide), if_pos rfl]
  split at h
  · unfold ProtoReader.advance
    split at h
    · rename_i stop hstop
      obtain ⟨-, rfl⟩ := Prod.mk.inj h
      rfl
    · cases h
  · cases h

theorem exists_topField {r r' : ProtoReader} {frame : ServerFrame}
    (h : decodeServerFrame r = (.ok frame, r')) :
    ∃ (x : TopField) (tail : Bytes), r.remaining = x.encoded ++ tail := by
  unfold decodeServerFrame at h
  split at h
  · cases h
  rename_i f w r₁ htag
  have hskip : ∃ r₂, r₁.skip w = (.ok (), r₂) := by
    split at h
    · rename_i hw
      split at h
      · rename_i body r₂ hbytes
        exact ⟨r₂, hw ▸ skip_of_bytes hbytes⟩
      · cases h
    · split at h
      · rename_i r₂ hskip
        exact ⟨r₂, hskip⟩
      · cases h
  obtain ⟨r₂, hskip⟩ := hskip
  obtain ⟨p, tail, hwire, hrest⟩ := exists_payload_of_skip hskip
  unfold ProtoReader.tag at htag
  split at htag
  · rename_i v r₃ hv
    obtain ⟨tag, tail', hsplit, rfl, rfl⟩ := exists_varint hv
    obtain ⟨hfw, rfl⟩ := Prod.mk.inj htag
    obtain ⟨-, rfl⟩ := Prod.mk.inj (Except.ok.inj hfw)
    rw [ProtoReader.remaining_of_append hsplit] at hrest
    refine ⟨⟨tag, p, hwire.symm⟩, tail, ?_⟩
    rw [hsplit, hrest, TopField.encoded, List.append_assoc]
  · cases htag

/-- No field starts here. -/
def Unparsed (rest : Bytes) : Prop := rest ≠ [] → ∀ y : TopField, ¬ y.encoded <+: rest

/-- The loop splits what is ahead into fields and a rest that no field starts. -/
theorem readFrames_spec {n : ℕ} : ∀ {r : ProtoReader}, r.buf.length ≤ r.pos + n →
    r.buf.length ≤ ISIZE_MAX → ∃ (xs : List TopField) (rest : Bytes),
      r.remaining = topFields xs ++ rest ∧ (readFrames n r).1 = xs.map TopField.frame ∧
        ((readFrames n r).2 = none ↔ rest = []) ∧ Unparsed rest := by
  induction n with
  | zero =>
    intro r hfuel _
    have hnil : r.remaining = [] := List.drop_eq_nil_of_le hfuel
    exact ⟨[], [], hnil, rfl, Iff.intro (fun _ => rfl) fun _ => rfl, fun hne => absurd rfl hne⟩
  | succ n ih =>
    intro r hfuel hbuf
    by_cases hmore : r.hasMore
    · rcases hdecode : decodeServerFrame r with ⟨e | frame, r'⟩
      · refine ⟨[], r.remaining, rfl, ?_, ?_, fun _ y hy => ?_⟩
        · simp [readFrames, hmore, hdecode]
        · have hne : r.remaining ≠ [] := by
            simpa [ProtoReader.remaining, ProtoReader.hasMore] using hmore
          simp [readFrames, hmore, hdecode, hne]
        · obtain ⟨tail, htail⟩ := hy
          rw [decodeServerFrame_of_remaining hbuf y htail.symm] at hdecode
          cases hdecode
      · obtain ⟨x, tail, hsplit⟩ := exists_topField hdecode
        have hx := decodeServerFrame_of_remaining hbuf x hsplit
        rw [hdecode] at hx
        obtain ⟨hframe, rfl⟩ := Prod.mk.inj hx
        have hpos := List.length_pos_of_ne_nil x.encoded_ne_nil
        obtain ⟨xs, rest, hrest, hframes, herror, hunparsed⟩ :=
          ih (r := r.moved x.encoded.length) (by simp only [ProtoReader.buf_moved, ProtoReader.pos_moved]; omega) hbuf
        rw [ProtoReader.remaining_of_append hsplit] at hrest
        refine ⟨x :: xs, rest, ?_, ?_, ?_, hunparsed⟩
        · rw [hsplit, hrest, topFields, topFields, List.flatMap_cons, List.append_assoc]
        · simp only [readFrames, hmore, hdecode, if_true, hframes, List.map_cons, Except.ok.inj hframe]
        · simpa only [readFrames, hmore, hdecode, if_true] using herror
    · refine ⟨[], [], ?_, ?_, ?_, fun hne => absurd rfl hne⟩
      · simp only [ProtoReader.hasMore, decide_eq_true_eq, Nat.not_lt] at hmore
        exact List.drop_eq_nil_of_le hmore
      · simp [readFrames, hmore]
      · simp [readFrames, hmore]

theorem TopField.same_of_append {x y : TopField} {s t : Bytes} (h : x.encoded ++ s = y.encoded ++ t)
    (hfits : (x.encoded ++ s).length ≤ ISIZE_MAX) : x.frame = y.frame ∧ s = t := by
  have hx := @decodeServerFrame_of_remaining (ProtoReader.new (x.encoded ++ s)) hfits x s rfl
  have hy := @decodeServerFrame_of_remaining (ProtoReader.new (x.encoded ++ s)) hfits y t h
  rw [hx] at hy
  obtain ⟨hframe, hmoved⟩ := Prod.mk.inj hy
  have hlen := congrArg ProtoReader.pos hmoved
  simp only [ProtoReader.pos_moved] at hlen
  exact ⟨Except.ok.inj hframe, (List.append_inj h (by omega)).2⟩

theorem frames_of_fields {ys : List TopField} : ∀ {xs : List TopField} {rest tail : Bytes},
    topFields xs ++ rest = topFields ys ++ tail → (topFields xs ++ rest).length ≤ ISIZE_MAX → Unparsed rest →
      ys.map TopField.frame <+: xs.map TopField.frame := by
  induction ys with
  | nil => exact fun _ _ _ => List.nil_prefix
  | cons y ys ih =>
    intro xs rest tail h hfits hunparsed
    rw [show topFields (y :: ys) = y.encoded ++ topFields ys from rfl, List.append_assoc] at h
    cases xs with
    | nil =>
      have hne : rest ≠ [] := by
        rintro rfl
        exact y.encoded_ne_nil (List.append_eq_nil_iff.mp h.symm).1
      exact absurd ⟨_, h.symm⟩ (hunparsed hne y)
    | cons x xs =>
      rw [show topFields (x :: xs) = x.encoded ++ topFields xs from rfl, List.append_assoc] at h hfits
      obtain ⟨hframe, hrest⟩ := TopField.same_of_append h hfits
      rw [List.length_append] at hfits
      rw [List.map_cons, List.map_cons, hframe]
      exact List.cons_prefix_cons.mpr ⟨rfl, ih hrest (by omega) hunparsed⟩

/-- For every message: the reader loop dispatches the frames of a start of it that is a sequence of fields,
no such start has more, and the loop ends without an error just when that is the whole message. -/
theorem message_split (buf : Bytes) (hbuf : buf.length ≤ ISIZE_MAX) :
    (∃ xs, topFields xs <+: buf ∧ (messageFrames buf).1 = xs.map TopField.frame ∧
      ((messageFrames buf).2 = none ↔ topFields xs = buf)) ∧
    ∀ ys, topFields ys <+: buf → ys.map TopField.frame <+: (messageFrames buf).1 := by
  obtain ⟨xs, rest, hsplit, hframes, herror, hunparsed⟩ :=
    readFrames_spec (n := buf.length) (r := ProtoReader.new buf) (Nat.le_add_left _ _) hbuf
  change buf = _ at hsplit
  refine ⟨⟨xs, ⟨rest, hsplit.symm⟩, hframes, ?_⟩, ?_⟩
  · refine herror.trans ⟨?_, fun h => ?_⟩
    · rintro rfl
      rw [hsplit, List.append_nil]
    · rw [h] at hsplit
      exact List.append_right_eq_self.mp hsplit.symm
  · rintro ys ⟨tail, htail⟩
    rw [messageFrames, hframes]
    exact frames_of_fields (hsplit.symm.trans htail.symm) (hsplit ▸ hbuf) hunparsed

/-- A pong, then a push that is cut short. -/
theorem message_split_cut :
    (∃ xs, topFields xs <+: [0x22, 0, 0x12, 9, 1] ∧
      (messageFrames [0x22, 0, 0x12, 9, 1]).1 = xs.map TopField.frame ∧
      ((messageFrames [0x22, 0, 0x12, 9, 1]).2 = none ↔ topFields xs = [0x22, 0, 0x12, 9, 1])) ∧
    ∀ ys, topFields ys <+: [0x22, 0, 0x12, 9, 1] →
      ys.map TopField.frame <+: (messageFrames [0x22, 0, 0x12, 9, 1]).1 :=
  message_split [0x22, 0, 0x12, 9, 1] (by decide)

example : messageFrames [0x22, 0, 0x12, 9, 1] = ([.pong []], some (.truncatedLength 9 1)) := by
  decide +kernel

/-! ## Bodies -/

structure HandshakeBody where
  protoVersion : Int32 := 0
  apiVersion : Int64 := 0
  deriving DecidableEq, Repr

def handshakeBody : StrictDecoder HandshakeBody where
  init := {}
  field
    | 1 => some (.varint fun v h => { h with protoVersion := v.toUInt32.toInt32 })
    | 2 => some (.varint fun v h => { h with apiVersion := v.toInt64 })
    | _ => none

def decodeHandshake (buf : Bytes) : Except ProtoError HandshakeBody := handshakeBody.run buf

/-- `RpcResponse` as it comes off the wire. -/
structure Wire.RpcResponse where
  idx : Int32 := 0
  error : Option Bytes := none
  payload : Option Bytes := none
  deriving DecidableEq, Repr

def rpcResponse : StrictDecoder Wire.RpcResponse where
  init := {}
  field
    | 1 => some (.bytes fun b r => { r with error := some b })
    | 2 => some (.bytes fun b r => { r with payload := some b })
    | 3 => some (.varint fun v r => { r with idx := v.toUInt32.toInt32 })
    | _ => none

def decodeRpcResponse (buf : Bytes) : Except ProtoError Wire.RpcResponse := rpcResponse.run buf

structure Wire.RpcError where
  code : Int32 := 0
  message : String := ""
  deriving DecidableEq, Repr

def rpcError : Decoder Wire.RpcError where
  init := {}
  breaks := true
  field
    | 1 => some (.varint fun v e => { e with code := v.toUInt32.toInt32 })
    | 2 => some (.string fun s e => { e with message := s })
    | _ => none

def decodeRpcError (buf : Bytes) : Wire.RpcError := rpcError.run buf

/-- The response with its error decoded, as `dispatch_rpc_response` goes on with it. -/
def RpcResponse.ofWire (r : Wire.RpcResponse) : RpcResponse where
  idx := r.idx.toBitVec
  error := r.error.map fun b => ⟨(decodeRpcError b).code.toInt, (decodeRpcError b).message⟩
  payload := r.payload

/-- `handle_rpc_frame` -/
def handleRpcFrame (s : RpcPlumbing) (body : Bytes) :
    Except ProtoError (RpcPlumbing × UnmatchedRpcOutcome) :=
  (decodeRpcResponse body).map fun r => s.dispatchRpcResponse (.ofWire r)

inductive HandshakeResult
  | ok
  | versionMismatch (protoVersion : Int32) (apiVersion : Int64)
  deriving DecidableEq, Repr

/-- `handle_handshake_body`, and whether it sets `ready`. -/
def handleHandshakeBody (body : Bytes) : HandshakeResult × Bool :=
  match decodeHandshake body with
  | .error _ => (.ok, false)
  | .ok h =>
    if h.protoVersion ≠ PROTO_VERSION ∨ h.apiVersion ≠ API_VERSION then
      (.versionMismatch h.protoVersion h.apiVersion, false)
    else (.ok, true)

/-! ## What a server writes -/

inductive ServerMessage
  | rpc (idx : Int32) (error : Option (Int32 × String)) (payload : Option Bytes)
  | push (body : Bytes)
  | terminate (body : Bytes)
  | pong (body : Bytes)
  | handshake (protoVersion : Int32) (apiVersion : Int64)
  deriving DecidableEq

namespace ServerMessage

def rpcFields (idx : Int32) (error : Option (Int32 × String)) (payload : Option Bytes) :
    List (UInt32 × FieldValue) :=
  (error.map fun e => (1, .bytes (written [(1, .int32 e.1), (2, .string e.2)]))).toList ++
    ((payload.map fun p => (2, .bytes p)).toList ++ [(3, .int32 idx)])

def number : ServerMessage → UInt32
  | .rpc _ _ _ => 1
  | .push _ => 2
  | .terminate _ => 3
  | .pong _ => 4
  | .handshake _ _ => 5

def body : ServerMessage → Bytes
  | .rpc idx error payload => written (rpcFields idx error payload)
  | .push body | .terminate body | .pong body => body
  | .handshake protoVersion apiVersion => written [(1, .int32 protoVersion), (2, .int64 apiVersion)]

def encoded (m : ServerMessage) : Bytes := written [(m.number, .bytes m.body)]

end ServerMessage

/-- What the client understands of a frame. -/
def ServerFrame.understood : ServerFrame → Option ServerMessage
  | .rpcOrPush body =>
    match decodeRpcResponse body with
    | .ok r => some (.rpc r.idx (r.error.map fun b => ((decodeRpcError b).code, (decodeRpcError b).message))
        r.payload)
    | .error _ => none
  | .pushContainer body => some (.push body)
  | .terminate body => some (.terminate body)
  | .pong body => some (.pong body)
  | .handshake body =>
    match decodeHandshake body with
    | .ok h => some (.handshake h.protoVersion h.apiVersion)
    | .error _ => none
  | .other _ _ => none

theorem decodeHandshake_written (protoVersion : Int32) (apiVersion : Int64)
    (hfits : (written [(1, .int32 protoVersion), (2, .int64 apiVersion)]).length ≤ ISIZE_MAX) :
    decodeHandshake (written [(1, .int32 protoVersion), (2, .int64 apiVersion)]) =
      .ok ⟨protoVersion, apiVersion⟩ := by
  have htyped : Typed handshakeBody.field [(1, .int32 protoVersion), (2, .int64 apiVersion)] := by
    simp [Typed, handshakeBody, FieldRead.kind, FieldValue.kind]
  rw [decodeHandshake, handshakeBody.run_written htyped hfits]
  simp [takeField, handshakeBody, FieldRead.take, FieldValue.image]

theorem decodeRpcError_written (code : Int32) (message : String)
    (hfits : (written [(1, .int32 code), (2, .string message)]).length ≤ ISIZE_MAX) :
    decodeRpcError (written [(1, .int32 code), (2, .string message)]) = ⟨code, message⟩ := by
  have htyped : Typed rpcError.field [(1, .int32 code), (2, .string message)] := by
    simp [Typed, rpcError, FieldRead.kind, FieldValue.kind]
  rw [decodeRpcError, rpcError.run_written htyped hfits]
  simp [takeField, rpcError, FieldRead.take, FieldValue.image]

theorem decodeRpcResponse_written (idx : Int32) (error : Option (Int32 × String)) (payload : Option Bytes)
    (hfits : (written (ServerMessage.rpcFields idx error payload)).length ≤ ISIZE_MAX) :
    decodeRpcResponse (written (ServerMessage.rpcFields idx error payload)) =
      .ok ⟨idx, error.map fun e => written [(1, .int32 e.1), (2, .string e.2)], payload⟩ := by
  have htyped : Typed rpcResponse.field (ServerMessage.rpcFields idx error payload) := by
    rcases error with _ | ⟨code, message⟩ <;> rcases payload with _ | payload <;>
      simp [Typed, rpcResponse, ServerMessage.rpcFields, FieldRead.kind, FieldValue.kind]
  rw [decodeRpcResponse, rpcResponse.run_written htyped hfits]
  rcases error with _ | ⟨code, message⟩ <;> rcases payload with _ | payload <;>
    simp [takeField, rpcResponse, ServerMessage.rpcFields, FieldRead.take, FieldValue.image]

namespace ServerMessage

theorem length_body (m : ServerMessage) : m.body.length ≤ m.encoded.length :=
  length_le_bytes_field [] [] m.number m.body

theorem exists_topField (m : ServerMessage) (hfits : m.encoded.length ≤ ISIZE_MAX) :
    ∃ x : TopField, x.encoded = m.encoded ∧ x.frame = .of m.number m.body := by
  have hsize : ISIZE_MAX < 2 ^ 64 := by
    decide
  have hbody := m.length_body
  have hlen : (Varint.ofUInt64 (UInt64.ofNat m.body.length)).value.toNat = m.body.length := by
    rw [Varint.value_ofUInt64, UInt64.toNat_ofNat', Nat.mod_eq_of_lt (by omega)]
  obtain ⟨hnumber, hwire⟩ := tagOf_split m.number (w := 2) (by decide)
  refine ⟨⟨.ofUInt64 (tagOf m.number 2), .lengthDelimited _ m.body hlen, ?_⟩, ?_, ?_⟩
  · rw [Varint.value_ofUInt64, hwire]
    rfl
  · rw [encoded, written_eq, List.flatMap_cons, List.flatMap_nil, List.append_nil]
    exact (List.append_assoc _ _ _).symm
  · simp only [TopField.frame, TopField.number, Varint.value_ofUInt64, hnumber]

theorem understood_of (m : ServerMessage) (hfits : m.encoded.length ≤ ISIZE_MAX) :
    (ServerFrame.of m.number m.body).understood = some m := by
  have hbody := m.length_body.trans hfits
  cases m with
  | rpc idx error payload =>
    have hdecode := decodeRpcResponse_written idx error payload hbody
    have herror (e : Int32 × String) (he : e ∈ error) :
        decodeRpcError (written [(1, .int32 e.1), (2, .string e.2)]) = ⟨e.1, e.2⟩ := by
      apply decodeRpcError_written
      obtain rfl : error = some e := he
      exact (length_le_bytes_field [] _ 1 _).trans hbody
    change (ServerFrame.rpcOrPush (written (rpcFields idx error payload))).understood = _
    simp only [ServerFrame.understood, hdecode, Option.map_map]
    rcases error with _ | e
    · rfl
    · simp only [Option.map_some, Function.comp_apply, herror e rfl]
  | push body => rfl
  | terminate body => rfl
  | pong body => rfl
  | handshake protoVersion apiVersion =>
    have hdecode := decodeHandshake_written protoVersion apiVersion hbody
    change (ServerFrame.handshake (written _)).understood = _
    simp only [ServerFrame.understood, hdecode]

end ServerMessage

theorem handleRpcFrame_body (s : RpcPlumbing) (idx : Int32) (error : Option (Int32 × String))
    (payload : Option Bytes) (hfits : (ServerMessage.rpc idx error payload).encoded.length ≤ ISIZE_MAX) :
    handleRpcFrame s (ServerMessage.rpc idx error payload).body =
      .ok (s.dispatchRpcResponse ⟨idx.toBitVec, error.map fun e => ⟨e.1.toInt, e.2⟩, payload⟩) := by
  have hbody := (ServerMessage.length_body _).trans hfits
  have hdecode := decodeRpcResponse_written idx error payload hbody
  change (decodeRpcResponse (written _)).map _ = _
  rw [hdecode, Except.map, RpcResponse.ofWire]
  rcases error with _ | e
  · rfl
  · have herror := decodeRpcError_written e.1 e.2 ((length_le_bytes_field [] _ 1 _).trans hbody)
    simp only [Option.map_some, herror]

theorem readFrames_topFields {xs : List TopField} : ∀ {r : ProtoReader}, r.buf.length ≤ ISIZE_MAX →
    r.remaining = topFields xs → ∀ {n : ℕ}, xs.length ≤ n →
      readFrames n r = (xs.map TopField.frame, none) := by
  induction xs with
  | nil =>
    intro r _ h n _
    have hmore : r.hasMore = false := by
      simpa [ProtoReader.hasMore, ProtoReader.remaining, topFields] using h
    cases n <;> simp [readFrames, hmore]
  | cons x xs ih =>
    intro r hbuf h n hn
    obtain ⟨n, rfl⟩ : ∃ k, n = k + 1 := ⟨n - 1, by simp only [List.length_cons] at hn; omega⟩
    have hmore := Decoder.hasMore_of_remaining h x.encoded_ne_nil
    have hrest := ih (r := r.moved x.encoded.length) hbuf (ProtoReader.remaining_of_append h)
      (by simpa using hn)
    rw [readFrames, if_pos hmore, decodeServerFrame_of_remaining hbuf x h]
    simp only [hrest, List.map_cons]

theorem exists_topFields (ms : List ServerMessage)
    (hfits : (ms.flatMap ServerMessage.encoded).length ≤ ISIZE_MAX) :
    ∃ xs : List TopField, topFields xs = ms.flatMap ServerMessage.encoded ∧
      xs.map (fun x => x.frame.understood) = ms.map some := by
  induction ms with
  | nil => exact ⟨[], rfl, rfl⟩
  | cons m ms ih =>
    rw [List.flatMap_cons, List.length_append] at hfits
    obtain ⟨x, hx, hframe⟩ := m.exists_topField (by omega)
    obtain ⟨xs, hxs, hunderstood⟩ := ih (by omega)
    refine ⟨x :: xs, ?_, ?_⟩
    · rw [List.flatMap_cons, ← hx, ← hxs]
      rfl
    · rw [List.map_cons, List.map_cons, hunderstood, hframe, m.understood_of (by omega)]

theorem length_le_topFields (xs : List TopField) : xs.length ≤ (topFields xs).length := by
  induction xs with
  | nil => exact Nat.le_refl 0
  | cons x xs ih =>
    have hx := List.length_pos_of_ne_nil x.encoded_ne_nil
    simp only [topFields, List.flatMap_cons, List.length_append, List.length_cons] at ih ⊢
    omega

/-- Any number of server messages in one WebSocket message are all understood, in order: RPC responses with
their `idx`, error and payload, handshakes with their versions, pushes and the rest with their bodies. What
an RPC response does to the pending calls is what its fields say. -/
theorem server_messages_understood (ms : List ServerMessage)
    (hfits : (ms.flatMap ServerMessage.encoded).length ≤ ISIZE_MAX) :
    (messageFrames (ms.flatMap ServerMessage.encoded)).1.map ServerFrame.understood = ms.map some ∧
      (messageFrames (ms.flatMap ServerMessage.encoded)).2 = none ∧
      ∀ idx error payload, .rpc idx error payload ∈ ms → ∀ s : RpcPlumbing,
        handleRpcFrame s (ServerMessage.rpc idx error payload).body =
          .ok (s.dispatchRpcResponse ⟨idx.toBitVec, error.map fun e => ⟨e.1.toInt, e.2⟩, payload⟩) := by
  obtain ⟨xs, hxs, hunderstood⟩ := exists_topFields ms hfits
  have hread := readFrames_topFields (r := ProtoReader.new (topFields xs)) (hxs ▸ hfits) rfl
    (length_le_topFields xs)
  rw [messageFrames, ← hxs, hread, List.map_map]
  refine ⟨hunderstood, rfl, fun idx error payload hmem s => handleRpcFrame_body s idx error payload ?_⟩
  obtain ⟨front, after, rfl⟩ := List.append_of_mem hmem
  rw [List.flatMap_append, List.flatMap_cons, List.length_append, List.length_append] at hfits
  omega

/-- A handshake, a response with an error, and a push. -/
theorem server_messages_understood_three :
    let ms : List ServerMessage := [.handshake 1 151668, .rpc 7 (some (13, "BOOM")) none, .push [8, 5]]
    (messageFrames (ms.flatMap ServerMessage.encoded)).1.map ServerFrame.understood = ms.map some :=
  (server_messages_understood [.handshake 1 151668, .rpc 7 (some (13, "BOOM")) none, .push [8, 5]]
    (by decide +kernel)).1

end BaleVpn.Signaling
