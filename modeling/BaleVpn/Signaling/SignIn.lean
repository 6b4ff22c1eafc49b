import Mathlib.Data.Bool.AllAny
import Mathlib.Data.List.Infix
import BaleVpn.Signaling.GrpcWeb
import BaleVpn.Signaling.Written

/-!
# Signing in (`auth.rs`, `grpc_web.rs`, `ui.rs`)

Three calls go to `bale.auth.v1.Auth`, and the token of the third comes out of a cookie jar. A request is a
message in a gRPC-web frame; the answer is one in a body of frames, or a trailer with a status, or no answer of
that service at all; the JWT is a string in a message in a message.

The client is run against a server that is given by what it makes of the requests, and puts its answers
together with the client's own writer: what the interface is told, and which token is kept, is what the server
meant. The signaling client that is woken up for a new token is left out.
-/

namespace BaleVpn.Signaling

open Lib Net

variable {σ α : Type}

/-! ## Errors -/

def ProtoError.text : ProtoError → String
  | .eof => "proto: unexpected EOF"
  | .unsupportedWireType w => s!"proto: unsupported wire type {w}"
  | .invalidUtf8 => "proto: invalid utf-8 in string field"
  | .truncatedLength need left => s!"proto: need {need} bytes, only {left} left"

/-- `GrpcError` of `call`, which decodes no message itself. -/
inductive CallError
  | http (status : ℕ) (snippet : String)
  | response (e : GrpcError)
  | transport (text : String)
  deriving DecidableEq

def CallError.text : CallError → String
  | .http status snippet => s!"HTTP {status}: {snippet}"
  | .response (.status code (some m)) => s!"gRPC code={code} message={m}"
  | .response (.status code none) => s!"gRPC code={code}"
  | .response (.malformed e) => "malformed gRPC-web frame: " ++ e
  | .transport e => "transport: " ++ e

inductive AuthError
  | grpc (e : CallError)
  | proto (e : ProtoError)
  | malformed (s : String)
  | noAccessTokenCookie
  | http (text : String)
  deriving DecidableEq

def AuthError.text : AuthError → String
  | .grpc e => "auth gRPC: " ++ e.text
  | .proto e => "auth proto: " ++ e.text
  | .malformed s => "auth malformed: " ++ s
  | .noAccessTokenCookie => "auth: /set-cookie/ returned no access_token"
  | .http e => "auth HTTP: " ++ e

/-! ## One call -/

inductive HttpAnswer
  | failed (text : String)
  | answered (status : ℕ) (body : Bytes)

/-- The web as the client finds it; its state has the cookie jar as well. -/
structure Web (σ : Type) where
  /-- A POST to a method of `bale.auth.v1.Auth`. -/
  post : String → Bytes → σ → HttpAnswer × σ
  /-- A GET of `/set-cookie/` with this `Authorization`. -/
  setCookie : String → σ → Except String Unit × σ
  /-- The `Cookie` header of the jar for the host. -/
  cookies : σ → Option String

def encodeFrame (payload : Bytes) : Bytes := 0 :: (putBe32 (UInt32.ofNat payload.length) ++ payload)

/-- `call`, from the answer on. -/
def HttpAnswer.result : HttpAnswer → Except CallError Bytes
  | .failed e => .error (.transport e)
  | .answered status body =>
    if 200 ≤ status ∧ status < 300 then
      match decodeResponse body with
      | .ok buf => .ok buf
      | .error e => .error (.response e)
    else .error (.http status (String.ofList ((fromUtf8Lossy body).take 200)))

def call (web : Web σ) (method : String) (payload : Bytes) (s : σ) : Except CallError Bytes × σ :=
  let (answer, s) := web.post method (encodeFrame payload) s
  (answer.result, s)

/-! ## The three calls -/

def AUTH_APP_ID : Int32 := 4
def AUTH_API_KEY : String := "C28D46DC4C3A7A26564BFCC48B929086A95C93C98E789A19847BEE8627DE4E7D"
def SENDCODE_SMS : Int32 := 3
def DEFAULT_LANGUAGE : String := "fa"
def CLIENT_LABEL : String := "Bale Android"

structure StartResult where
  transactionHash : String := ""
  isRegistered : Bool := false
  deriving DecidableEq, Repr

inductive AuthOutcome
  | authenticated (accessToken : String)
  | needsSignupName (transactionHash : String)
  deriving DecidableEq, Repr

def startPhoneAuthDecoder : StrictDecoder StartResult where
  init := {}
  field
    | 1 => some (.string fun s r => { r with transactionHash := s })
    | 2 => some (.varint fun v r => { r with isRegistered := v != 0 })
    | _ => none

def decodeStartPhoneAuth (buf : Bytes) : Except ProtoError StartResult := startPhoneAuthDecoder.run buf

def wrappedStringDecoder : StrictDecoder String where
  init := ""
  field
    | 1 => some (.string fun s _ => s)
    | _ => none

def decodeWrappedString (buf : Bytes) : Except ProtoError String := wrappedStringDecoder.run buf

def jwtLoop : ℕ → Option String → ProtoReader → Except ProtoError (Option String)
  | 0, jwt, _ => .ok jwt
  | n + 1, jwt, r =>
    if r.hasMore then
      match r.tag with
      | (.error e, _) => .error e
      | (.ok (f, w), r) =>
        if f = 2 then
          match r.bytes with
          | (.error e, _) => .error e
          | (.ok _, r) => jwtLoop n jwt r
        else if f = 4 then
          match r.bytes with
          | (.error e, _) => .error e
          | (.ok b, r) =>
            match decodeWrappedString b with
            | .error e => .error e
            | .ok s => jwtLoop n (some s) r
        else
          match r.skip w with
          | (.error e, _) => .error e
          | (.ok _, r) => jwtLoop n jwt r
    else .ok jwt

def decodeAuthResponseJwt (buf : Bytes) : Except ProtoError (Option String) :=
  (jwtLoop buf.length none (ProtoReader.new buf)).map fun jwt => jwt.filter fun s => !s.isEmpty

/-- What `access_token=` is without the mark. -/
def ACCESS_TOKEN : List Char := "access_token".toList

def extractAccessTokenFromCookieHeader (header : String) : Option String :=
  (header.toList.splitOn ';').findSome? fun part =>
    (stripPrefix (ACCESS_TOKEN ++ ['=']) (trim part)).map String.ofList

/-- The digits are put together; 0 stands for none and for too many. -/
def phoneNumber (phone : String) : Int64 :=
  Int64.ofInt ((readInt (-2 ^ 63) (2 ^ 63 - 1) (phone.toList.filter Char.isDigit)).getD 0)

def startPayload (phone : String) (deviceHash : Bytes) : Bytes :=
  (((((((ProtoWriter.new.int64 1 (phoneNumber phone)).int32 2 AUTH_APP_ID).string 3 AUTH_API_KEY).bytes 4
    deviceHash).string 5 CLIENT_LABEL).string 7 DEFAULT_LANGUAGE).int32 9 SENDCODE_SMS).build

def codePayload (transactionHash code : String) : Bytes :=
  let isJwt := (ProtoWriter.new.bool 1 true).build
  (((ProtoWriter.new.string 1 transactionHash).string 2 code).bytes 3 isJwt).build

def signupPayload (transactionHash name : String) : Bytes :=
  ((ProtoWriter.new.string 1 transactionHash).string 2 name).build

/-- `m.contains("PHONE_NUMBER_UNOCCUPIED")` -/
def unoccupied (m : String) : Bool := "PHONE_NUMBER_UNOCCUPIED".toList <:+: m.toList

def startPhoneAuth (web : Web σ) (phone : String) (deviceHash : Bytes) (s : σ) :
    Except AuthError StartResult × σ :=
  match call web "StartPhoneAuth" (startPayload phone deviceHash) s with
  | (.error e, s) => (.error (.grpc e), s)
  | (.ok buf, s) => ((decodeStartPhoneAuth buf).mapError .proto, s)

def finalizeAuthenticated (web : Web σ) (jwt : String) (s : σ) : Except AuthError AuthOutcome × σ :=
  match web.setCookie ("Bearer " ++ jwt) s with
  | (.error e, s) => (.error (.http e), s)
  | (.ok (), s) =>
    match (web.cookies s).bind extractAccessTokenFromCookieHeader with
    | some t => (.ok (.authenticated t), s)
    | none => (.error .noAccessTokenCookie, s)

def submitOtp (web : Web σ) (transactionHash code : String) (s : σ) : Except AuthError AuthOutcome × σ :=
  match call web "ValidateCode" (codePayload transactionHash code) s with
  | (.error (.response (.status code (some m))), s) =>
    if unoccupied m then (.ok (.needsSignupName transactionHash), s)
    else (.error (.grpc (.response (.status code (some m)))), s)
  | (.error e, s) => (.error (.grpc e), s)
  | (.ok buf, s) =>
    match decodeAuthResponseJwt buf with
    | .error e => (.error (.proto e), s)
    | .ok (some jwt) => finalizeAuthenticated web jwt s
    | .ok none => (.ok (.needsSignupName transactionHash), s)

def submitSignupName (web : Web σ) (transactionHash name : String) (s : σ) : Except AuthError AuthOutcome × σ :=
  match call web "SignUp" (signupPayload transactionHash name) s with
  | (.error e, s) => (.error (.grpc e), s)
  | (.ok buf, s) =>
    match decodeAuthResponseJwt buf with
    | .error e => (.error (.proto e), s)
    | .ok (some jwt) => finalizeAuthenticated web jwt s
    | .ok none => (.error (.malformed "SignUp returned no JWT"), s)

/-! ## The interface -/

structure AuthReply where
  ok : Bool := false
  needsSignup : Bool := false
  transactionHash : Option String := none
  error : Option String := none
  deriving DecidableEq, Repr

inductive UiCall
  /-- With the random bytes that the call takes for a device. -/
  | start (phone : String) (deviceHash : Bytes)
  | verify (transactionHash code : String) (isRegistered : Bool)
  | signup (transactionHash name : String)
  deriving DecidableEq

inductive UiReply
  /-- An internal error with its text, or what was found out. -/
  | started (reply : Except String StartResult)
  | auth (reply : AuthReply)
  deriving DecidableEq

/-- `persist_outcome`, with the token store's cache. -/
def persistOutcome (token : Option Bytes) : AuthOutcome → AuthReply × Option Bytes
  | .authenticated accessToken => ({ ok := true }, some accessToken.toUTF8.data.toList)
  | .needsSignupName transactionHash =>
    ({ ok := true, needsSignup := true, transactionHash := some transactionHash }, token)

def failedReply (e : AuthError) : AuthReply := { error := some e.text }

/-- `auth_start`, `auth_verify` and `auth_signup`. -/
def uiStep (web : Web σ) (st : σ × Option Bytes) : UiCall → UiReply × (σ × Option Bytes)
  | .start phone deviceHash =>
    let (r, s) := startPhoneAuth web phone deviceHash st.1
    (.started (r.mapError AuthError.text), s, st.2)
  | .verify transactionHash code isRegistered =>
    match submitOtp web transactionHash code st.1 with
    | (.error e, s) => (.auth (failedReply e), s, st.2)
    | (.ok outcome, s) =>
      match outcome, isRegistered with
      | .needsSignupName _, true => (.auth { error := some "Incorrect or expired code" }, s, st.2)
      | outcome, _ => (.auth (persistOutcome st.2 outcome).1, s, (persistOutcome st.2 outcome).2)
  | .signup transactionHash name =>
    match submitSignupName web transactionHash name st.1 with
    | (.error e, s) => (.auth (failedReply e), s, st.2)
    | (.ok outcome, s) => (.auth (persistOutcome st.2 outcome).1, s, (persistOutcome st.2 outcome).2)

/-- One call after the other, with what they reply. -/
def uiRun {τ : Type} (step : τ → UiCall → UiReply × τ) : τ → List UiCall → List UiReply × τ
  | st, [] => ([], st)
  | st, c :: cs => ((step st c).1 :: (uiRun step (step st c).2 cs).1, (uiRun step (step st c).2 cs).2)

/-! ## The server, apart from the wire -/

/-- The text of a trailer, in which it takes the rest of a line. -/
structure TrailerText where
  text : String
  line : Char.ofNat 10 ∉ text.toList
  trimmed : trim text.toList = text.toList

/-- What the server makes of a call. -/
inductive Answer (α : Type)
  | reply (message : α)
  | refused (code : ℤ) (message : TrailerText) (hcode : code ≠ 0 ∧ -2 ^ 31 ≤ code ∧ code < 2 ^ 31)
  | http (status : ℕ) (body : Bytes) (hstatus : ¬ (200 ≤ status ∧ status < 300))
  | lost (text : String)

inductive StartPart
  | hash (s : String)
  | registered (b : Bool)
  | other (f : UInt32) (v : FieldValue) (hf : f ∉ [1, 2])

inductive WrappedPart
  | value (s : String)
  | other (f : UInt32) (v : FieldValue) (hf : f ≠ 1)

inductive AuthPart
  | user (b : Bytes)
  | jwt (parts : List WrappedPart)
  | other (f : UInt32) (v : FieldValue) (hf : f ∉ [2, 4])

/-- What a part adds to what was found out; a later one takes the place of an earlier one. -/
def StartPart.take (r : StartResult) : StartPart → StartResult
  | .hash s => { r with transactionHash := s }
  | .registered b => { r with isRegistered := b }
  | .other .. => r

def startOf (parts : List StartPart) : StartResult := parts.foldl StartPart.take {}

def WrappedPart.take (s : String) : WrappedPart → String
  | .value s => s
  | .other .. => s

def wrappedOf (parts : List WrappedPart) : String := parts.foldl WrappedPart.take ""

def AuthPart.take (jwt : Option String) : AuthPart → Option String
  | .jwt parts => some (wrappedOf parts)
  | .user _ | .other .. => jwt

/-- The last JWT, unless it is empty. -/
def jwtOf (parts : List AuthPart) : Option String := (parts.foldl AuthPart.take none).filter fun s => !s.isEmpty

/-- A cookie that has come in a `Set-Cookie` header. -/
structure Cookie where
  name : List Char
  value : List Char
  nameChars : ∀ c ∈ name, c ≠ ';' ∧ c ≠ '=' ∧ isWhiteSpace c = false
  valueChars : ∀ c ∈ value, c ≠ ';' ∧ isWhiteSpace c = false

/-- The token among the cookies. -/
def accessTokenOf (jar : List Cookie) : Option String :=
  (jar.find? fun c => c.name = ACCESS_TOKEN).map fun c => String.ofList c.value

structure AuthServer (σ : Type) where
  startPhoneAuth : Int64 → σ → Answer (List StartPart) × σ
  validateCode : String → String → σ → Answer (List AuthPart) × σ
  signUp : String → String → σ → Answer (List AuthPart) × σ
  /-- With the JWT. -/
  setCookie : String → σ → Except String Unit × σ
  jar : σ → List Cookie

/-- The answer as the client should take it. -/
def Answer.result : Answer α → Except CallError α
  | .reply message => .ok message
  | .refused code message _ => .error (.response (.status code (some message.text)))
  | .http status body _ => .error (.http status (String.ofList ((fromUtf8Lossy body).take 200)))
  | .lost e => .error (.transport e)

namespace AuthServer

variable (server : AuthServer σ)

/-- A JWT is exchanged for the token. -/
def exchange (jwt : String) (st : σ × Option Bytes) : AuthReply × (σ × Option Bytes) :=
  match server.setCookie jwt st.1 with
  | (.error e, s) => (failedReply (.http e), s, st.2)
  | (.ok (), s) =>
    match accessTokenOf (server.jar s) with
    | some t => ({ ok := true }, s, some t.toUTF8.data.toList)
    | none => (failedReply .noAccessTokenCookie, s, st.2)

/-- The answer to a code has no JWT: the code is wrong, or there is nobody yet. -/
def noJwt (transactionHash : String) (isRegistered : Bool) : AuthReply :=
  if isRegistered then { error := some "Incorrect or expired code" }
  else { ok := true, needsSignup := true, transactionHash := some transactionHash }

/-- What the interface should do with the answers. -/
def uiStep (st : σ × Option Bytes) : UiCall → UiReply × (σ × Option Bytes)
  | .start phone _ =>
    let (a, s) := server.startPhoneAuth (phoneNumber phone) st.1
    (.started ((a.result.map startOf).mapError fun e => (AuthError.grpc e).text), s, st.2)
  | .verify transactionHash code isRegistered =>
    match server.validateCode transactionHash code st.1 with
    | (.reply parts, s) =>
      match jwtOf parts with
      | some jwt => let (r, st) := server.exchange jwt (s, st.2); (.auth r, st)
      | none => (.auth (noJwt transactionHash isRegistered), s, st.2)
    | (.refused code m _, s) =>
      if unoccupied m.text then (.auth (noJwt transactionHash isRegistered), s, st.2)
      else (.auth (failedReply (.grpc (.response (.status code (some m.text))))), s, st.2)
    | (.http status body _, s) =>
      (.auth (failedReply (.grpc (.http status (String.ofList ((fromUtf8Lossy body).take 200))))), s, st.2)
    | (.lost e, s) => (.auth (failedReply (.grpc (.transport e))), s, st.2)
  | .signup transactionHash name =>
    match server.signUp transactionHash name st.1 with
    | (a, s) =>
      match a.result.map jwtOf with
      | .ok (some jwt) => let (r, st) := server.exchange jwt (s, st.2); (.auth r, st)
      | .ok none => (.auth (failedReply (.malformed "SignUp returned no JWT")), s, st.2)
      | .error e => (.auth (failedReply (.grpc e)), s, st.2)

end AuthServer

/-! ## The server on the wire -/

def StartPart.field : StartPart → UInt32 × FieldValue
  | .hash s => (1, .string s)
  | .registered b => (2, .bool b)
  | .other f v _ => (f, v)

def WrappedPart.field : WrappedPart → UInt32 × FieldValue
  | .value s => (1, .string s)
  | .other f v _ => (f, v)

def AuthPart.field : AuthPart → UInt32 × FieldValue
  | .user b => (2, .bytes b)
  | .jwt parts => (4, .bytes (written (parts.map WrappedPart.field)))
  | .other f v _ => (f, v)

/-- A frame with the mark of a trailer. -/
def encodeTrailer (text : String) : Bytes :=
  let payload := text.toUTF8.data.toList
  0x80 :: (putBe32 (UInt32.ofNat payload.length) ++ payload)

/-- A line, as a trailer ends it. -/
def trailerLine (text : String) : String := text ++ String.ofList [Char.ofNat 13, Char.ofNat 10]

def okTrailer : String := trailerLine "grpc-status:0"

def refusal (code : ℤ) (message : String) : String :=
  trailerLine ("grpc-status:" ++ toString code) ++ trailerLine ("grpc-message:" ++ message)

/-- The answer on the wire, where its message has these fields. -/
def Answer.onWire (fields : α → List (UInt32 × FieldValue)) : Answer α → HttpAnswer
  | .reply message => .answered 200 (encodeFrame (written (fields message)) ++ encodeTrailer okTrailer)
  | .refused code message _ => .answered 200 (encodeTrailer (refusal code message.text))
  | .http status body _ => .answered status body
  | .lost e => .failed e

/-- A reader of the two strings of a request. -/
def stringPair : StrictDecoder (String × String) where
  init := ("", "")
  field
    | 1 => some (.string fun s p => (s, p.2))
    | 2 => some (.string fun s p => (p.1, s))
    | _ => none

def phoneReader : StrictDecoder Int64 where
  init := 0
  field
    | 1 => some (.varint fun v _ => v.toInt64)
    | _ => none

namespace Cookie

def text (c : Cookie) : List Char := c.name ++ '=' :: c.value

/-- The jar's cookies with `"; "` between them, where there are any. -/
def header : List Cookie → Option String
  | [] => none
  | c :: cs => some (String.ofList ([';'].intercalate (c.text :: cs.map fun c => ' ' :: c.text)))

end Cookie

def AuthServer.web (server : AuthServer σ) : Web σ where
  post method body s :=
    let bad := (HttpAnswer.answered 400 [], s)
    match decodeResponse body with
    | .error _ => bad
    | .ok payload =>
      match method with
      | "StartPhoneAuth" =>
        match phoneReader.run payload with
        | .ok phone => let (a, s) := server.startPhoneAuth phone s; (a.onWire (·.map StartPart.field), s)
        | .error _ => bad
      | "ValidateCode" =>
        match stringPair.run payload with
        | .ok (hash, code) => let (a, s) := server.validateCode hash code s; (a.onWire (·.map AuthPart.field), s)
        | .error _ => bad
      | "SignUp" =>
        match stringPair.run payload with
        | .ok (hash, name) => let (a, s) := server.signUp hash name s; (a.onWire (·.map AuthPart.field), s)
        | .error _ => bad
      | _ => bad
  setCookie authorization s :=
    match stripPrefix "Bearer ".toList authorization.toList with
    | some jwt => server.setCookie (String.ofList jwt) s
    | none => (.ok (), s)
  cookies s := Cookie.header (server.jar s)

/-! ## What fits -/

/-- A frame has its length in 32 bits. -/
def FitsFrame (payload : Bytes) : Prop := payload.length < 2 ^ 32

instance (payload : Bytes) : Decidable (FitsFrame payload) := inferInstanceAs (Decidable (_ < _))

def UiCall.payload : UiCall → Bytes
  | .start phone deviceHash => startPayload phone deviceHash
  | .verify transactionHash code _ => codePayload transactionHash code
  | .signup transactionHash name => signupPayload transactionHash name

/-- The frame of the answer has room for it, and a body is no longer than a buffer. -/
def Answer.Fits (fields : α → List (UInt32 × FieldValue)) : Answer α → Prop
  | .reply message => FitsFrame (written (fields message))
  | .refused code message _ => FitsFrame (refusal code message.text).toUTF8.data.toList
  | .http .. | .lost _ => True

structure AuthServer.Fits (server : AuthServer σ) : Prop where
  start : ∀ phone s, (server.startPhoneAuth phone s).1.Fits (·.map StartPart.field)
  validate : ∀ hash code s, (server.validateCode hash code s).1.Fits (·.map AuthPart.field)
  signUp : ∀ hash name s, (server.signUp hash name s).1.Fits (·.map AuthPart.field)

/-! ## Frames -/

theorem encodeFrame_eq {payload : Bytes} (h : FitsFrame payload) : encodeFrame payload = (Frame.mk 0 payload h).encoded := rfl

theorem encodeTrailer_eq {text : String} (h : FitsFrame text.toUTF8.data.toList) :
    encodeTrailer text = (Frame.mk 0x80 text.toUTF8.data.toList h).encoded := rfl

theorem not_isTrailer {payload : Bytes} (h : FitsFrame payload) : ¬ (Frame.mk 0 payload h).IsTrailer := by
  show ¬ (0 : UInt8) &&& 0x80 ≠ 0
  decide

theorem isTrailer {payload : Bytes} (h : FitsFrame payload) : (Frame.mk 0x80 payload h).IsTrailer := by
  show (0x80 : UInt8) &&& 0x80 ≠ 0
  decide

theorem FitsFrame.le_isize {payload : Bytes} (h : FitsFrame payload) : payload.length ≤ ISIZE_MAX :=
  Nat.le_trans (Nat.le_of_lt h) (by decide)

theorem encodeFrame_length (payload : Bytes) : (encodeFrame payload).length = payload.length + 5 := by
  rw [encodeFrame, List.length_cons, List.length_append]
  show 4 + payload.length + 1 = _
  omega

theorem decodeResponse_frame {payload : Bytes} (h : FitsFrame payload) :
    decodeResponse (encodeFrame payload) = .ok payload := by
  refine (decodeResponse_ok_iff ?_).mpr ⟨[⟨0, payload, h⟩], [], ?_, by decide, ?_, ?_⟩
  · have hfits : payload.length < 2 ^ 32 := h
    have hsize : 2 ^ 32 + 5 ≤ ISIZE_MAX := by decide
    rw [encodeFrame_length]
    omega
  · rw [List.append_nil, encodeFrame_eq h, encodeFrames_cons, encodeFrames, List.flatMap_nil, List.append_nil]
  · intro f hf htrailer
    rw [List.mem_singleton.mp hf] at htrailer
    exact absurd htrailer (not_isTrailer h)
  · simp [lastData, not_isTrailer]

/-! ## Trailers -/

theorem lines_trailerLine {text : String} (h : Char.ofNat 10 ∉ text.toList) (rest : String) :
    lines (trailerLine text ++ rest).toList = text.toList :: lines rest.toList := by
  have hline := linesFrom_line h [] rest.toList
  simpa [trailerLine, lines] using hline

theorem read_utf8 (text : String) :
    Trailer.read text.toUTF8.data.toList = (lines text.toList).foldl Trailer.readLine {} := by
  rw [Trailer.read, fromUtf8Lossy_toUTF8]

theorem readLine_status (t : Trailer) (text : List Char) :
    t.readLine (GRPC_STATUS ++ text) = { t with status := (readI32 (trim text)).getD 0 } := by
  rw [Trailer.readLine, stripPrefix_append]

theorem readLine_message (t : Trailer) (text : List Char) :
    t.readLine (GRPC_MESSAGE ++ text) = { t with message := some (String.ofList (trim text)) } := by
  have hstatus : stripPrefix GRPC_STATUS (GRPC_MESSAGE ++ text) = none := rfl
  rw [Trailer.readLine, hstatus, stripPrefix_append]

theorem read_okTrailer : (Trailer.read okTrailer.toUTF8.data.toList).status = 0 := by
  have hlines := @lines_trailerLine "grpc-status:0" (by decide) ""
  rw [String.append_empty] at hlines
  rw [read_utf8, okTrailer, hlines]
  exact congrArg Trailer.status (readLine_status {} ['0'])

theorem read_refusal {code : ℤ} (hcode : code ≠ 0 ∧ -2 ^ 31 ≤ code ∧ code < 2 ^ 31) (message : TrailerText) :
    (Trailer.read (refusal code message.text).toUTF8.data.toList).status = code ∧
      (Trailer.read (refusal code message.text).toUTF8.data.toList).message = some message.text := by
  have hstatus : Char.ofNat 10 ∉ ("grpc-status:" ++ toString code).toList := by
    intro hmem
    rw [String.toList_append, List.mem_append] at hmem
    rcases hmem with hmem | hmem
    · exact absurd hmem (by decide)
    · exact absurd (isWhiteSpace_toString hmem) (by decide)
  have hmessage : Char.ofNat 10 ∉ ("grpc-message:" ++ message.text).toList := by
    intro hmem
    rw [String.toList_append, List.mem_append] at hmem
    rcases hmem with hmem | hmem
    · exact absurd hmem (by decide)
    · exact message.line hmem
  have hlast := lines_trailerLine hmessage ""
  rw [String.append_empty] at hlast
  rw [read_utf8, refusal, lines_trailerLine hstatus, hlast, String.toList_append, String.toList_append]
  have hread : readI32 (toString code).toList = some code :=
    readInt_toString (by decide) (by decide) ⟨by omega, by omega⟩
  simp only [List.foldl_cons]
  have hfirst := readLine_status {} (toString code).toList
  have hsecond := readLine_message { status := (readI32 (trim (toString code).toList)).getD 0 } message.text.toList
  rw [show "grpc-status:".toList = GRPC_STATUS from rfl, show "grpc-message:".toList = GRPC_MESSAGE from rfl, hfirst,
    hsecond, trim_toString, hread, message.trimmed]
  simp [lines, linesFrom]

theorem decodeResponse_reply {payload : Bytes} (h : FitsFrame payload) :
    decodeResponse (encodeFrame payload ++ encodeTrailer okTrailer) = .ok payload := by
  have htext : FitsFrame okTrailer.toUTF8.data.toList := by decide +kernel
  refine (decodeResponse_ok_iff ?_).mpr ⟨[⟨0, payload, h⟩, ⟨0x80, _, htext⟩], [], ?_, by decide, ?_, ?_⟩
  · have hfits : payload.length < 2 ^ 32 := h
    have hsize : 2 ^ 32 + 100 ≤ ISIZE_MAX := by decide
    have hsmall : (encodeTrailer okTrailer).length ≤ 95 := by decide +kernel
    rw [List.length_append, encodeFrame_length]
    omega
  · rw [List.append_nil, encodeFrame_eq h, encodeTrailer_eq htext, encodeFrames_cons, encodeFrames_cons, encodeFrames,
      List.flatMap_nil, List.append_nil]
  · intro f hf htrailer
    rcases List.mem_cons.mp hf with rfl | hf
    · exact absurd htrailer (not_isTrailer h)
    · rw [List.mem_singleton.mp hf]
      exact read_okTrailer
  · rw [lastData, List.foldl_cons, List.foldl_cons, List.foldl_nil, if_neg (not_isTrailer h), if_pos (isTrailer htext),
      Option.getD_some]

theorem decodeResponse_refusal {code : ℤ} (hcode : code ≠ 0 ∧ -2 ^ 31 ≤ code ∧ code < 2 ^ 31)
    (message : TrailerText) (h : FitsFrame (refusal code message.text).toUTF8.data.toList) :
    decodeResponse (encodeTrailer (refusal code message.text)) = .error (.status code (some message.text)) := by
  obtain ⟨hstatus, hmessage⟩ := read_refusal hcode message
  have hlen : (encodeTrailer (refusal code message.text)).length ≤ ISIZE_MAX := by
    have hfits : (refusal code message.text).toUTF8.data.toList.length < 2 ^ 32 := h
    have hsize : 2 ^ 32 + 5 ≤ ISIZE_MAX := by decide
    rw [encodeTrailer_eq h, Frame.encoded_length]
    dsimp only
    omega
  have hbody : (encodeTrailer (refusal code message.text)).drop 0 =
      (Frame.mk 0x80 (refusal code message.text).toUTF8.data.toList h).encoded ++ [] := by
    rw [List.append_nil, List.drop_zero, encodeTrailer_eq h]
  rw [decodeResponse, decodeFrames_frame hlen hbody, if_pos (isTrailer h), hstatus, hmessage, if_pos hcode.1]

/-- What the client makes of an answer is what the server meant, up to the fields of the message. -/
theorem result_onWire {fields : α → List (UInt32 × FieldValue)} {a : Answer α} (h : a.Fits fields) :
    (a.onWire fields).result = a.result.map fun m => written (fields m) := by
  cases a with
  | reply message => simp [Answer.onWire, HttpAnswer.result, decodeResponse_reply h, Answer.result, Except.map]
  | refused code message hcode =>
    simp [Answer.onWire, HttpAnswer.result, decodeResponse_refusal hcode message h, Answer.result, Except.map]
  | http status body hstatus => simp [Answer.onWire, HttpAnswer.result, hstatus, Answer.result, Except.map]
  | lost e => rfl

/-! ## Messages -/

theorem startPhoneAuthDecoder_none {f : UInt32} (hf : f ∉ [1, 2]) : startPhoneAuthDecoder.field f = none := by
  simp only [startPhoneAuthDecoder]
  split
  · exact absurd (by decide) hf
  · exact absurd (by decide) hf
  · rfl

theorem wrappedStringDecoder_none {f : UInt32} (hf : f ≠ 1) : wrappedStringDecoder.field f = none := by
  simp only [wrappedStringDecoder]

theorem StartPart.typed (parts : List StartPart) : Typed startPhoneAuthDecoder.field (parts.map StartPart.field) := by
  intro x hx read hread
  obtain ⟨part, -, rfl⟩ := List.mem_map.mp hx
  cases part with
  | hash s =>
    obtain rfl := Option.some.inj hread
    rfl
  | registered b =>
    obtain rfl := Option.some.inj hread
    rfl
  | other f v hf =>
    rw [show startPhoneAuthDecoder.field (StartPart.other f v hf).field.1 = none from startPhoneAuthDecoder_none hf] at hread
    cases hread

theorem StartPart.takeField (r : StartResult) (part : StartPart) :
    Signaling.takeField startPhoneAuthDecoder.field r part.field = part.take r := by
  cases part with
  | hash s => rfl
  | registered b => cases b <;> rfl
  | other f v hf =>
    simp only [Signaling.takeField, StartPart.field, startPhoneAuthDecoder_none hf, StartPart.take]

theorem decodeStartPhoneAuth_written {parts : List StartPart}
    (hfits : (written (parts.map StartPart.field)).length ≤ ISIZE_MAX) :
    decodeStartPhoneAuth (written (parts.map StartPart.field)) = .ok (startOf parts) := by
  rw [decodeStartPhoneAuth, StrictDecoder.run_written _ (StartPart.typed parts) hfits, List.foldl_map]
  simp only [StartPart.takeField, startOf]
  rfl

theorem WrappedPart.typed (parts : List WrappedPart) : Typed wrappedStringDecoder.field (parts.map WrappedPart.field) := by
  intro x hx read hread
  obtain ⟨part, -, rfl⟩ := List.mem_map.mp hx
  cases part with
  | value s =>
    obtain rfl := Option.some.inj hread
    rfl
  | other f v hf =>
    rw [show wrappedStringDecoder.field (WrappedPart.other f v hf).field.1 = none from wrappedStringDecoder_none hf] at hread
    cases hread

theorem WrappedPart.takeField (s : String) (part : WrappedPart) :
    Signaling.takeField wrappedStringDecoder.field s part.field = part.take s := by
  cases part with
  | value s => rfl
  | other f v hf =>
    simp only [Signaling.takeField, WrappedPart.field, wrappedStringDecoder_none hf, WrappedPart.take]

theorem decodeWrappedString_written {parts : List WrappedPart}
    (hfits : (written (parts.map WrappedPart.field)).length ≤ ISIZE_MAX) :
    decodeWrappedString (written (parts.map WrappedPart.field)) = .ok (wrappedOf parts) := by
  rw [decodeWrappedString, StrictDecoder.run_written _ (WrappedPart.typed parts) hfits, List.foldl_map]
  simp only [WrappedPart.takeField, wrappedOf]
  rfl

theorem jwtLoop_written {parts : List AuthPart} :
    ∀ {front : List (UInt32 × FieldValue)}, (written (front ++ parts.map AuthPart.field)).length ≤ ISIZE_MAX →
      ∀ {n : ℕ}, parts.length ≤ n → ∀ jwt,
        jwtLoop n jwt ⟨written (front ++ parts.map AuthPart.field), (written front).length⟩ =
          .ok (parts.foldl AuthPart.take jwt) := by
  induction parts with
  | nil =>
    intro front _ n _ jwt
    rw [List.map_nil, List.append_nil]
    cases n <;> simp [jwtLoop, ProtoReader.hasMore]
  | cons part parts ih =>
    intro front hfits n hn jwt
    obtain ⟨n, rfl⟩ : ∃ k, n = k + 1 := ⟨n - 1, by simp only [List.length_cons] at hn; omega⟩
    rw [List.map_cons] at hfits ⊢
    obtain ⟨tagged, next, htag, hread, hskip, rfl⟩ := read_field (f := part.field.1) (v := part.field.2) hfits
    have hrest := @ih (front ++ [part.field]) (by rwa [List.append_assoc]) n (by simpa using hn)
    rw [List.append_assoc, List.singleton_append] at hrest
    rw [jwtLoop, if_pos (hasMore_written front _ part.field), htag, List.foldl_cons]
    cases part with
    | user b =>
      simp only [AuthPart.field, if_pos, bytes_of_read hread, AuthPart.take]
      exact hrest jwt
    | jwt inner =>
      have hinner := Nat.le_trans (length_le_bytes_field front _ 4 _) hfits
      simp only [AuthPart.field, if_neg (show ¬ (4 : UInt32) = 2 by decide), if_pos, bytes_of_read hread,
        decodeWrappedString_written hinner, AuthPart.take]
      exact hrest _
    | other f v hf =>
      simp only [List.mem_cons, List.not_mem_nil, or_false, not_or] at hf
      simp only [AuthPart.field] at hskip
      simp only [AuthPart.field, if_neg hf.1, if_neg hf.2, hskip, AuthPart.take]
      exact hrest jwt

theorem decodeAuthResponseJwt_written {parts : List AuthPart}
    (hfits : (written (parts.map AuthPart.field)).length ≤ ISIZE_MAX) :
    decodeAuthResponseJwt (written (parts.map AuthPart.field)) = .ok (jwtOf parts) := by
  have hlen := length_le_written (parts.map AuthPart.field)
  rw [List.length_map] at hlen
  have hloop := @jwtLoop_written parts [] hfits _ hlen none
  rw [decodeAuthResponseJwt, ProtoReader.new]
  change Except.map _ (jwtLoop _ none ⟨written (parts.map AuthPart.field), 0⟩) = _
  exact congrArg (Except.map _) hloop

/-! ## Requests -/

/-- The fields of the first request; the server looks at the phone number only. -/
def startFields (n : Int64) (deviceHash : Bytes) : List (UInt32 × FieldValue) :=
  [(1, .int64 n), (2, .int32 AUTH_APP_ID), (3, .string AUTH_API_KEY), (4, .bytes deviceHash),
    (5, .string CLIENT_LABEL), (7, .string DEFAULT_LANGUAGE), (9, .int32 SENDCODE_SMS)]

theorem phoneReader_startFields {n : Int64} {deviceHash : Bytes}
    (h : (written (startFields n deviceHash)).length ≤ ISIZE_MAX) :
    phoneReader.run (written (startFields n deviceHash)) = .ok n := by
  have htyped : Typed phoneReader.field (startFields n deviceHash) := by
    intro x hx read hread
    simp only [startFields, List.mem_cons, List.not_mem_nil, or_false] at hx
    rcases hx with rfl | rfl | rfl | rfl | rfl | rfl | rfl
    · obtain rfl := Option.some.inj hread
      rfl
    all_goals cases hread
  rw [StrictDecoder.run_written _ htyped h]
  simp [startFields, takeField, phoneReader, FieldValue.image, FieldRead.take]

theorem phoneReader_start {phone : String} {deviceHash : Bytes} (h : FitsFrame (startPayload phone deviceHash)) :
    phoneReader.run (startPayload phone deviceHash) = .ok (phoneNumber phone) := by
  unfold startPayload at h ⊢
  exact phoneReader_startFields (n := phoneNumber phone) h.le_isize

theorem stringPair_code {hash code : String} (h : FitsFrame (codePayload hash code)) :
    stringPair.run (codePayload hash code) = .ok (hash, code) := by
  have htyped : Typed stringPair.field
      [(1, .string hash), (2, .string code), (3, .bytes (ProtoWriter.new.bool 1 true).build)] := by
    intro x hx read hread
    simp only [List.mem_cons, List.not_mem_nil, or_false] at hx
    rcases hx with rfl | rfl | rfl
    · obtain rfl := Option.some.inj hread
      rfl
    · obtain rfl := Option.some.inj hread
      rfl
    · cases hread
  exact StrictDecoder.run_written _ htyped h.le_isize

theorem stringPair_signup {hash name : String} (h : FitsFrame (signupPayload hash name)) :
    stringPair.run (signupPayload hash name) = .ok (hash, name) := by
  have htyped : Typed stringPair.field [(1, .string hash), (2, .string name)] := by
    intro x hx read hread
    simp only [List.mem_cons, List.not_mem_nil, or_false] at hx
    rcases hx with rfl | rfl
    · obtain rfl := Option.some.inj hread
      rfl
    · obtain rfl := Option.some.inj hread
      rfl
  exact StrictDecoder.run_written _ htyped h.le_isize

/-! ## Cookies -/

namespace Cookie

theorem trim_text (c : Cookie) : trim c.text = c.text := by
  apply trim_eq_self
  · intro x hx
    rcases hname : c.name with - | ⟨y, ys⟩
    · rw [text, hname, List.nil_append, List.head?_cons, Option.mem_some_iff] at hx
      rw [← hx]
      decide
    · rw [text, hname, List.cons_append, List.head?_cons, Option.mem_some_iff] at hx
      exact (c.nameChars x (by rw [hname, ← hx]; exact List.mem_cons_self)).2.2
  · intro x hx
    rcases hvalue : c.value with - | ⟨y, ys⟩
    · rw [text, hvalue, List.getLast?_concat, Option.mem_some_iff] at hx
      rw [← hx]
      decide
    · have hlast : x ∈ (y :: ys).getLast? := by
        rw [text, hvalue, List.append_cons, List.getLast?_append_of_ne_nil _ (List.cons_ne_nil y ys)] at hx
        exact hx
      exact (c.valueChars x (by rw [hvalue]; exact List.mem_of_getLast? hlast)).2

theorem semicolon_not_mem (c : Cookie) : ';' ∉ c.text := by
  intro h
  rw [text, List.mem_append, List.mem_cons] at h
  rcases h with h | h | h
  · exact (c.nameChars _ h).1 rfl
  · exact absurd h (by decide)
  · exact (c.valueChars _ h).1 rfl

theorem stripPrefix_text (c : Cookie) :
    stripPrefix (ACCESS_TOKEN ++ ['=']) c.text = if c.name = ACCESS_TOKEN then some c.value else none :=
  stripPrefix_field (by decide) (fun h => (c.nameChars _ h).2.1 rfl) c.value

theorem accessTokenOf_cons (c : Cookie) (cs : List Cookie) :
    accessTokenOf (c :: cs) = if c.name = ACCESS_TOKEN then some (String.ofList c.value) else accessTokenOf cs := by
  rw [accessTokenOf, List.find?_cons]
  by_cases hname : c.name = ACCESS_TOKEN
  · rw [if_pos hname, decide_eq_true hname, Option.map_some]
  · rw [if_neg hname, decide_eq_false hname, accessTokenOf]

theorem findSome_parts (before : List Char) (hbefore : ∀ c : Cookie, trim (before ++ c.text) = c.text)
    (cs : List Cookie) :
    ((cs.map fun c => before ++ c.text).findSome? fun part =>
      (stripPrefix (ACCESS_TOKEN ++ ['=']) (trim part)).map String.ofList) = accessTokenOf cs := by
  induction cs with
  | nil => rfl
  | cons c cs ih =>
    rw [List.map_cons, List.findSome?_cons, ih, hbefore, stripPrefix_text, accessTokenOf_cons]
    split_ifs <;> rfl

theorem extract_header (jar : List Cookie) : (header jar).bind extractAccessTokenFromCookieHeader = accessTokenOf jar := by
  cases jar with
  | nil => rfl
  | cons c cs =>
    have hparts : ∀ l ∈ c.text :: cs.map fun c => ' ' :: c.text, ';' ∉ l := by
      intro l hl
      rcases List.mem_cons.mp hl with rfl | hl
      · exact c.semicolon_not_mem
      · obtain ⟨c', -, rfl⟩ := List.mem_map.mp hl
        exact fun h => (List.mem_cons.mp h).elim (by decide) c'.semicolon_not_mem
    have hrest := findSome_parts [' '] (fun c => (trim_cons (by decide) _).trans c.trim_text) cs
    rw [header, Option.bind_some, extractAccessTokenFromCookieHeader, String.toList_ofList,
      List.splitOn_intercalate ';' hparts (List.cons_ne_nil _ _), List.findSome?_cons]
    simp only [List.singleton_append] at hrest
    rw [hrest, c.trim_text, stripPrefix_text, accessTokenOf_cons]
    split_ifs <;> rfl

end Cookie

/-! ## The wire -/

namespace AuthServer

variable {server : AuthServer σ}

theorem call_start {phone : String} {deviceHash : Bytes} (hserver : server.Fits)
    (h : FitsFrame (startPayload phone deviceHash)) (s : σ) :
    call server.web "StartPhoneAuth" (startPayload phone deviceHash) s =
      ((server.startPhoneAuth (phoneNumber phone) s).1.result.map fun m => written (m.map StartPart.field),
        (server.startPhoneAuth (phoneNumber phone) s).2) := by
  simp only [call, web, decodeResponse_frame h, phoneReader_start h, result_onWire (hserver.start _ _)]

theorem call_validate {hash code : String} (hserver : server.Fits) (h : FitsFrame (codePayload hash code)) (s : σ) :
    call server.web "ValidateCode" (codePayload hash code) s =
      ((server.validateCode hash code s).1.result.map fun m => written (m.map AuthPart.field),
        (server.validateCode hash code s).2) := by
  simp only [call, web, decodeResponse_frame h, stringPair_code h, result_onWire (hserver.validate _ _ _)]

theorem call_signup {hash name : String} (hserver : server.Fits) (h : FitsFrame (signupPayload hash name)) (s : σ) :
    call server.web "SignUp" (signupPayload hash name) s =
      ((server.signUp hash name s).1.result.map fun m => written (m.map AuthPart.field),
        (server.signUp hash name s).2) := by
  simp only [call, web, decodeResponse_frame h, stringPair_signup h, result_onWire (hserver.signUp _ _ _)]

theorem finalize_web (jwt : String) (s : σ) :
    finalizeAuthenticated server.web jwt s =
      match server.setCookie jwt s with
      | (.error e, s) => (.error (.http e), s)
      | (.ok (), s) =>
        match accessTokenOf (server.jar s) with
        | some t => (.ok (.authenticated t), s)
        | none => (.error .noAccessTokenCookie, s) := by
  have hbearer : stripPrefix "Bearer ".toList ("Bearer " ++ jwt).toList = some jwt.toList := by
    rw [String.toList_append, stripPrefix_append]
  have hcookie : server.web.setCookie ("Bearer " ++ jwt) s = server.setCookie jwt s := by
    simp only [web, hbearer, String.ofList_toList]
  have hjar : ∀ s', (server.web.cookies s').bind extractAccessTokenFromCookieHeader = accessTokenOf (server.jar s') :=
    fun _ => Cookie.extract_header _
  simp only [finalizeAuthenticated, hcookie, hjar]

theorem startPhoneAuth_web {phone : String} {deviceHash : Bytes} (hserver : server.Fits)
    (h : FitsFrame (startPayload phone deviceHash)) (s : σ) :
    Signaling.startPhoneAuth server.web phone deviceHash s =
      (((server.startPhoneAuth (phoneNumber phone) s).1.result.map startOf).mapError .grpc,
        (server.startPhoneAuth (phoneNumber phone) s).2) := by
  have hfits := hserver.start (phoneNumber phone) s
  rw [Signaling.startPhoneAuth, call_start hserver h]
  rcases hanswer : server.startPhoneAuth (phoneNumber phone) s with ⟨a, s'⟩
  rw [hanswer] at hfits
  cases a with
  | reply parts =>
    have hdecoded := decodeStartPhoneAuth_written (FitsFrame.le_isize hfits)
    simp only [Answer.result, Except.map, hdecoded]
    rfl
  | refused | http | lost => rfl

/-- One call of the interface over the wire. -/
theorem step_refines (hserver : server.Fits) {c : UiCall} (hc : FitsFrame c.payload) (st : σ × Option Bytes) :
    Signaling.uiStep server.web st c = server.uiStep st c := by
  obtain ⟨s, token⟩ := st
  cases c with
  | start phone deviceHash =>
    rw [Signaling.uiStep, uiStep, startPhoneAuth_web hserver hc]
    rcases server.startPhoneAuth (phoneNumber phone) s with ⟨a, s'⟩
    simp only
    cases a.result <;> rfl
  | verify hash code isRegistered =>
    have hfits := hserver.validate hash code s
    rw [Signaling.uiStep, uiStep, submitOtp, call_validate hserver hc]
    rcases hanswer : server.validateCode hash code s with ⟨a, s'⟩
    rw [hanswer] at hfits
    cases a with
    | reply parts =>
      have hdecoded := decodeAuthResponseJwt_written (FitsFrame.le_isize hfits)
      simp only [Answer.result, Except.map, hdecoded]
      rcases jwtOf parts with - | jwt
      · cases isRegistered <;> rfl
      · simp only [finalize_web, exchange]
        rcases server.setCookie jwt s' with ⟨e | u, s''⟩
        · rfl
        · simp only
          cases accessTokenOf (server.jar s'') <;> rfl
    | refused status m hcode =>
      simp only [Answer.result, Except.map]
      by_cases hm : unoccupied m.text = true
      · simp only [hm, if_true]
        cases isRegistered <;> rfl
      · simp only [hm]
        rfl
    | http | lost => rfl
  | signup hash name =>
    have hfits := hserver.signUp hash name s
    rw [Signaling.uiStep, uiStep, submitSignupName, call_signup hserver hc]
    rcases hanswer : server.signUp hash name s with ⟨a, s'⟩
    rw [hanswer] at hfits
    cases a with
    | reply parts =>
      have hdecoded := decodeAuthResponseJwt_written (FitsFrame.le_isize hfits)
      simp only [Answer.result, Except.map, hdecoded]
      rcases jwtOf parts with - | jwt
      · rfl
      · simp only [finalize_web, exchange]
        rcases server.setCookie jwt s' with ⟨e | u, s''⟩
        · rfl
        · simp only
          cases accessTokenOf (server.jar s'') <;> rfl
    | refused | http | lost => rfl

end AuthServer

/-- Whatever a server makes of its requests, and however it puts its answers together: what the interface is told
over the wire, call for call, and the token that is kept are what it meant. -/
theorem sign_in_over_wire {server : AuthServer σ} (hserver : server.Fits) {calls : List UiCall}
    (hcalls : ∀ c ∈ calls, FitsFrame c.payload) (st : σ × Option Bytes) :
    uiRun (uiStep server.web) st calls = uiRun server.uiStep st calls := by
  induction calls generalizing st with
  | nil => rfl
  | cons c calls ih =>
    obtain ⟨hc, hcalls⟩ := List.forall_mem_cons.mp hcalls
    rw [uiRun, uiRun, AuthServer.step_refines hserver hc, ih hcalls]

/-- It knows a phone, whose code is 1234. -/
def sampleServer : AuthServer ℕ where
  startPhoneAuth _ s := (.reply [.registered true, .other 7 (.bytes [1]) (by decide), .hash "tx"], s)
  validateCode _ code s := (.reply (if code = "1234" then [.user [8, 1], .jwt [.value "j"]] else []), s)
  signUp _ _ s := (.lost "reset", s)
  setCookie jwt s := (.ok (), if jwt = "j" then 1 else s)
  jar s :=
    if s = 1 then
      [⟨['l'], [], List.all_iff_forall_prop.mp (by decide), List.all_iff_forall_prop.mp (by decide)⟩,
        ⟨ACCESS_TOKEN, ['T'], List.all_iff_forall_prop.mp (by decide), List.all_iff_forall_prop.mp (by decide)⟩]
    else []

theorem sampleServer_fits : sampleServer.Fits where
  start _ _ := show FitsFrame _ by decide +kernel
  validate _ code _ := by
    by_cases hcode : code = "1234"
    · simp only [sampleServer, if_pos hcode]
      show FitsFrame _
      decide +kernel
    · simp only [sampleServer, if_neg hcode]
      show FitsFrame _
      decide +kernel
  signUp _ _ _ := trivial

theorem sign_in_over_wire_sample :
    (uiRun (uiStep sampleServer.web) (0, none)
      [.start "+98 912" [], .verify "tx" "1" true, .verify "tx" "1234" true, .signup "tx" "n"]) =
    ([.started (.ok ⟨"tx", true⟩), .auth { error := some "Incorrect or expired code" }, .auth { ok := true },
      .auth { error := some "auth gRPC: transport: reset" }], 1, some [84]) :=
  (sign_in_over_wire sampleServer_fits (by decide +kernel) (0, none)).trans (by decide +kernel)

end BaleVpn.Signaling
