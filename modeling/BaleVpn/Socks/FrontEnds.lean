import BaleVpn.Lib.Utf8
import BaleVpn.Net.Checksum
import BaleVpn.Socks.Dial

/-!
# The two front-ends and the target envelope (`socks5_quic.rs`)

A client's request arrives as SOCKS5 or as HTTP CONNECT, and the target it names goes to the server in an
envelope whose length field is one byte. A stream is the bytes that arrive before its end. The results hold
whatever `host.parse::<IpAddr>()` takes for an IP literal.
-/

namespace BaleVpn.Socks

open Lib Net

/-- The errors of the front-ends. -/
inductive RequestError
  | unexpectedEof
  | writeFailed
  /-- "not socks5" -/
  | notSocks5
  /-- "no acceptable auth method" -/
  | noAcceptableMethod
  /-- "bad req ver" -/
  | badReqVer
  /-- "only CONNECT supported" -/
  | onlyConnect
  /-- "bad atyp" -/
  | badAtyp
  /-- "non-utf8 domain" -/
  | nonUtf8Domain
  /-- "http request head too large" -/
  | headTooLarge
  /-- "no request line" -/
  | noRequestLine
  /-- "non-utf8 request line" -/
  | nonUtf8Line
  /-- "missing CONNECT target" -/
  | missingTarget
  /-- "unterminated ipv6 literal" -/
  | unterminatedIpv6
  /-- "junk after ipv6 literal" -/
  | junkAfterIpv6
  /-- "bad port" -/
  | badPort
  /-- "empty host" -/
  | emptyHost
  /-- "hostname too long" -/
  | hostTooLong
  deriving DecidableEq, Repr

/-- `read_exact(..).await?` of a front-end. -/
def takeExact (n : ℕ) (s : Bytes) : Except RequestError (Bytes × Bytes) :=
  (readExact n s).mapError fun _ => .unexpectedEof

/-! ## SOCKS5 -/

def SOCKS_VER : UInt8 := 0x05
def METHOD_NO_AUTH : UInt8 := 0x00
def METHOD_NO_ACCEPTABLE : UInt8 := 0xFF
def CMD_CONNECT : UInt8 := 0x01
def RSV : UInt8 := 0x00
def REP_COMMAND_NOT_SUPPORTED : UInt8 := 0x07

/-- The greeting: the methods that the client offers. -/
def readGreeting (s : Bytes) : Except RequestError (Bytes × Bytes) := do
  let (hdr, s) ← takeExact 2 s
  if hdr.getD 0 0 != SOCKS_VER then throw .notSocks5
  takeExact (hdr.getD 1 0).toNat s

/-- The request, from its version on. -/
def readRequest (s : Bytes) : Except RequestError (Target × Bytes) := do
  let (req, s) ← takeExact 4 s
  if req.getD 0 0 != SOCKS_VER then throw .badReqVer
  if req.getD 1 0 != CMD_CONNECT then throw .onlyConnect
  if req.getD 3 0 == ATYP_IPV4 then
    let (o, s) ← takeExact 4 s
    let (p, s) ← takeExact 2 s
    return (.ip (.v4 (ipv4Of o)) (be16 p), s)
  else if req.getD 3 0 == ATYP_IPV6 then
    let (o, s) ← takeExact 16 s
    let (p, s) ← takeExact 2 s
    return (.ip (.v6 (ipv6Of o)) (be16 p), s)
  else if req.getD 3 0 == ATYP_DOMAIN then
    let (l, s) ← takeExact 1 s
    let (name, s) ← takeExact (l.getD 0 0).toNat s
    let (p, s) ← takeExact 2 s
    match String.fromUTF8? ⟨name.toArray⟩ with
    | some domain => return (.domain domain (be16 p), s)
    | none => throw .nonUtf8Domain
  else throw .badAtyp

/-- `read_socks5_request` with what it writes back; `writable` says that the client still reads. -/
def readSocks5Request (writable : Bool) (s : Bytes) : Except RequestError (Target × Bytes) × Bytes :=
  match readGreeting s with
  | .error e => (.error e, [])
  | .ok (methods, s) =>
    if !methods.contains METHOD_NO_AUTH then
      (.error .noAcceptableMethod, [SOCKS_VER, METHOD_NO_ACCEPTABLE])
    else if !writable then (.error .writeFailed, [])
    else
      let answer := [SOCKS_VER, METHOD_NO_AUTH]
      match readRequest s with
      | .error .onlyConnect =>
        (.error .onlyConnect,
          answer ++ [SOCKS_VER, REP_COMMAND_NOT_SUPPORTED, RSV, ATYP_IPV4, 0, 0, 0, 0, 0, 0])
      | res => (res, answer)

/-! ## HTTP CONNECT -/

def MAX_HTTP_HEAD : ℕ := 16 * 1024

def crlf : Bytes := [13, 10]

def crlfCrlf : Bytes := crlf ++ crlf

/-- The loop that reads the head a byte at a time. -/
def readHead (head : Bytes) : Bytes → Except RequestError (Bytes × Bytes)
  | [] => .error .unexpectedEof
  | b :: s =>
    let head := head ++ [b]
    if crlfCrlf.isSuffixOf head then .ok (head, s)
    else if head.length > MAX_HTTP_HEAD then .error .headTooLarge
    else readHead head s

/-- What is before the first line end. -/
def requestLine : Bytes → Option Bytes
  | [] => none
  | b :: bs => if crlf.isPrefixOf (b :: bs) then some [] else (requestLine bs).map (b :: ·)

/-- `split_once` at the first `c`. -/
def splitOnce (c : Char) (s : List Char) : Option (List Char × List Char) :=
  if c ∈ s then some (s.takeWhile (· != c), (s.dropWhile (· != c)).tail) else none

/-- `rsplit_once` at the last `c`. -/
def rsplitOnce (c : Char) (s : List Char) : Option (List Char × List Char) :=
  (splitOnce c s.reverse).map fun x => (x.2.reverse, x.1.reverse)

/-- `parse::<u16>`: digits, after a `+` if there is one. -/
def parseU16 (s : List Char) : Option UInt16 :=
  let digits :=
    match s with
    | '+' :: ds => ds
    | ds => ds
  if digits ≠ [] ∧ digits.all Char.isDigit then
    let n := digits.foldl (fun n c => 10 * n + (c.toNat - '0'.toNat)) 0
    if n < 2 ^ 16 then some (UInt16.ofNat n) else none
  else none

def portOf (s : List Char) : Except RequestError UInt16 :=
  match parseU16 s with
  | some port => .ok port
  | none => .error .badPort

def splitAuthority (authority : List Char) : Except RequestError (List Char × UInt16) :=
  match authority with
  | '[' :: rest =>
    match splitOnce ']' rest with
    | none => .error .unterminatedIpv6
    | some (addr, []) => .ok (addr, 443)
    | some (addr, ':' :: p) => (portOf p).map (addr, ·)
    | some _ => .error .junkAfterIpv6
  | _ =>
    match rsplitOnce ':' authority with
    | some (h, p) => (portOf p).map (h, ·)
    | none => .ok (authority, 443)

def parseAuthority (parseIp : String → Option StdIpAddr) (authority : List Char) :
    Except RequestError Target := do
  let (chars, port) ← splitAuthority authority
  let host := String.ofList chars
  if host.isEmpty then throw .emptyHost
  if host.utf8ByteSize > 255 then throw .hostTooLong
  match parseIp host with
  | some ip => return .ip ip port
  | none => return .domain host port

def parseRequestHead (parseIp : String → Option StdIpAddr) (head : Bytes) : Except RequestError Target :=
  match requestLine head with
  | none => .error .noRequestLine
  | some bytes =>
    match String.fromUTF8? ⟨bytes.toArray⟩ with
    | none => .error .nonUtf8Line
    | some line =>
      match line.toList.splitOn ' ' with
      | [] => .error .onlyConnect
      | method :: parts =>
        if String.ofList (method.map Char.toUpper) != "CONNECT" then .error .onlyConnect
        else
          match parts with
          | [] => .error .missingTarget
          | authority :: _ => parseAuthority parseIp authority

def readHttpConnectRequest (parseIp : String → Option StdIpAddr) (s : Bytes) :
    Except RequestError (Target × Bytes) := do
  let (head, s) ← readHead [] s
  let target ← parseRequestHead parseIp head
  return (target, s)

/-! ## The envelope -/

def ipv6Octets (a : Ipv6Addr) : Bytes :=
  putBe16 a.s0 ++ putBe16 a.s1 ++ putBe16 a.s2 ++ putBe16 a.s3 ++ putBe16 a.s4 ++ putBe16 a.s5 ++
    putBe16 a.s6 ++ putBe16 a.s7

/-- `encode_target`; the length of a domain is cut to a byte. -/
def encodeTarget : Target → Bytes
  | .ip (.v4 a) p => ATYP_IPV4 :: [a.o0, a.o1, a.o2, a.o3] ++ putBe16 p
  | .ip (.v6 a) p => ATYP_IPV6 :: ipv6Octets a ++ putBe16 p
  | .domain d p => ATYP_DOMAIN :: UInt8.ofNat d.utf8ByteSize :: d.toUTF8.data.toList ++ putBe16 p

/-- What the length field of an envelope can say. -/
def Target.Fits : Target → Prop
  | .ip _ _ => True
  | .domain d _ => d.utf8ByteSize ≤ 255

theorem readExact_append {n : ℕ} {a : Bytes} (h : a.length = n) (s : Bytes) :
    readExact n (a ++ s) = .ok (a, s) := by
  subst h
  rw [readExact, if_neg (by simp), List.take_left, List.drop_left]

theorem ipv6Of_octets (a : Ipv6Addr) : ipv6Of (ipv6Octets a) = a := by
  obtain ⟨s0, s1, s2, s3, s4, s5, s6, s7⟩ := a
  simp only [ipv6Of, Ipv6Addr.mk.injEq]
  exact ⟨be16_putBe16 s0, be16_putBe16 s1, be16_putBe16 s2, be16_putBe16 s3, be16_putBe16 s4,
    be16_putBe16 s5, be16_putBe16 s6, be16_putBe16 s7⟩

theorem length_toUTF8 (s : String) : s.toUTF8.data.toList.length = s.utf8ByteSize := rfl

theorem readTarget_encodeTarget {t : Target} (h : t.Fits) (after : Bytes) :
    readTarget (encodeTarget t ++ after) = .ok (t, after) := by
  have hport (port : UInt16) : readExact 2 (putBe16 port ++ after) = .ok (putBe16 port, after) :=
    readExact_append rfl after
  have htyp (b : UInt8) (s : Bytes) : readExact 1 (b :: s) = .ok ([b], s) :=
    readExact_append (a := [b]) rfl s
  cases t with
  | ip ip port =>
    cases ip with
    | v4 a =>
      have hip := readExact_append (n := 4) (a := [a.o0, a.o1, a.o2, a.o3]) rfl (putBe16 port ++ after)
      simp only [encodeTarget, List.cons_append, List.nil_append] at hip ⊢
      simp [readTarget, htyp, hip, hport, be16_putBe16, ipv4Of, bind, Except.bind, pure, Except.pure]
    | v6 a =>
      have hip := readExact_append (n := 16) (a := ipv6Octets a) rfl (putBe16 port ++ after)
      simp only [encodeTarget, List.cons_append, List.append_assoc] at hip ⊢
      simp [readTarget, htyp, hip, hport, be16_putBe16, ipv6Of_octets, bind, Except.bind, pure, Except.pure,
        ATYP_IPV4, ATYP_IPV6]
  | domain d port =>
    have hlen : (UInt8.ofNat d.utf8ByteSize).toNat = d.utf8ByteSize := by
      have hle : d.utf8ByteSize ≤ 255 := h
      rw [UInt8.toNat_ofNat', Nat.mod_eq_of_lt (by omega)]
    have hname := readExact_append (length_toUTF8 d) (putBe16 port ++ after)
    have hutf8 := fromUTF8?_toUTF8 d
    simp only [encodeTarget, List.cons_append, List.append_assoc] at hname ⊢
    generalize d.toUTF8.data.toList = name at hname hutf8 ⊢
    simp [readTarget, htyp, hlen, hname, hutf8, hport, be16_putBe16, bind, Except.bind, pure, Except.pure,
      ATYP_IPV4, ATYP_IPV6, ATYP_DOMAIN]

/-! ## What the front-ends return -/

theorem length_of_takeExact {n : ℕ} {s a rest : Bytes} (h : takeExact n s = .ok (a, rest)) :
    a.length = n := by
  unfold takeExact readExact at h
  split at h
  · cases h
  · obtain ⟨rfl, -⟩ := Prod.mk.inj (Except.ok.inj h)
    rw [List.length_take]
    omega

theorem utf8ByteSize_of_fromUTF8? {name : Bytes} {d : String}
    (h : String.fromUTF8? ⟨name.toArray⟩ = some d) : d.utf8ByteSize = name.length := by
  unfold String.fromUTF8? at h
  split at h
  · obtain rfl := Option.some.inj h
    exact List.size_toArray
  · cases h

theorem ok_of_bind {ε α β : Type} {x : Except ε α} {f : α → Except ε β} {b : β} (h : x >>= f = .ok b) :
    ∃ a, x = .ok a ∧ f a = .ok b := by
  cases x with
  | error e => cases h
  | ok a => exact ⟨a, rfl, h⟩

theorem fits_of_readRequest {s rest : Bytes} {t : Target} (h : readRequest s = .ok (t, rest)) : t.Fits := by
  unfold readRequest at h
  obtain ⟨⟨req, s₁⟩, -, h⟩ := ok_of_bind h
  simp only at h
  split at h
  · cases h
  · split at h
    · cases h
    · split at h
      · obtain ⟨⟨o, s₂⟩, -, h⟩ := ok_of_bind h
        obtain ⟨⟨p, s₃⟩, -, h⟩ := ok_of_bind h
        cases h
        trivial
      · split at h
        · obtain ⟨⟨o, s₂⟩, -, h⟩ := ok_of_bind h
          obtain ⟨⟨p, s₃⟩, -, h⟩ := ok_of_bind h
          cases h
          trivial
        · split at h
          · obtain ⟨⟨l, s₂⟩, -, h⟩ := ok_of_bind h
            obtain ⟨⟨name, s₃⟩, hname, h⟩ := ok_of_bind h
            obtain ⟨⟨p, s₄⟩, -, h⟩ := ok_of_bind h
            simp only at h
            split at h
            · rename_i domain hdomain
              cases h
              have hlen : name.length = (l.getD 0 0).toNat := length_of_takeExact hname
              have hbyte := (l.getD 0 0).toNat_lt
              change domain.utf8ByteSize ≤ 255
              rw [utf8ByteSize_of_fromUTF8? hdomain, hlen]
              omega
            · cases h
          · cases h

theorem fits_of_readSocks5Request {writable : Bool} {s rest : Bytes} {t : Target}
    (h : (readSocks5Request writable s).1 = .ok (t, rest)) : t.Fits := by
  unfold readSocks5Request at h
  split at h
  · cases h
  · split at h
    · cases h
    · split at h
      · cases h
      · simp only at h
        split at h
        · cases h
        · exact fits_of_readRequest h

theorem fits_of_parseAuthority {parseIp : String → Option StdIpAddr} {authority : List Char} {t : Target}
    (h : parseAuthority parseIp authority = .ok t) : t.Fits := by
  unfold parseAuthority at h
  obtain ⟨⟨chars, port⟩, -, h⟩ := ok_of_bind h
  simp only at h
  split at h
  · cases h
  · split at h
    · cases h
    · rename_i hlen
      split at h
      · cases h
        trivial
      · cases h
        exact Nat.not_lt.mp hlen

theorem fits_of_parseRequestHead {parseIp : String → Option StdIpAddr} {head : Bytes} {t : Target}
    (h : parseRequestHead parseIp head = .ok t) : t.Fits := by
  unfold parseRequestHead at h
  split at h
  · cases h
  · split at h
    · cases h
    · split at h
      · cases h
      · split at h
        · cases h
        · split at h
          · cases h
          · exact fits_of_parseAuthority h

/-- The head ends with the first blank line of the stream, and what follows is left. -/
theorem readHead_spec {front s head rest : Bytes} (h : readHead front s = .ok (head, rest)) :
    front ++ s = head ++ rest ∧ crlfCrlf <:+ head ∧
      ∀ p, p <+: front ++ s → front.length < p.length → crlfCrlf <:+ p → head.length ≤ p.length := by
  induction s generalizing front with
  | nil => cases h
  | cons b s ih =>
    rw [readHead] at h
    have hassoc : front ++ b :: s = (front ++ [b]) ++ s := by
      rw [List.append_assoc, List.singleton_append]
    rw [hassoc]
    split at h
    · rename_i hend
      obtain ⟨rfl, rfl⟩ := Prod.mk.inj (Except.ok.inj h)
      refine ⟨rfl, List.isSuffixOf_iff_suffix.mp hend, fun p _ hp _ => ?_⟩
      rw [List.length_append, List.length_singleton]
      omega
    · rename_i hnot
      split at h
      · cases h
      · obtain ⟨hsplit, hend, hfirst⟩ := ih h
        refine ⟨hsplit, hend, fun p hp hlen hblank => ?_⟩
        by_cases hnext : p.length = front.length + 1
        · -- the prefix that was not the end of the head
          have hpe : p = front ++ [b] := by
            have htake := List.prefix_iff_eq_take.mp hp
            rw [htake, List.take_left' (by rw [hnext, List.length_append, List.length_singleton])]
          rw [hpe] at hblank
          exact absurd (List.isSuffixOf_iff_suffix.mpr hblank) hnot
        · exact hfirst p hp (by rw [List.length_append, List.length_singleton]; omega) hblank

theorem readHttpConnectRequest_spec {parseIp : String → Option StdIpAddr} {s rest : Bytes} {t : Target}
    (h : readHttpConnectRequest parseIp s = .ok (t, rest)) :
    t.Fits ∧ ∃ head, s = head ++ rest ∧ crlfCrlf <:+ head ∧
      ∀ p, p <+: s → crlfCrlf <:+ p → head.length ≤ p.length := by
  unfold readHttpConnectRequest at h
  obtain ⟨⟨head, s₁⟩, hhead, h⟩ := ok_of_bind h
  obtain ⟨target, htarget, h⟩ := ok_of_bind h
  cases h
  obtain ⟨hsplit, hend, hfirst⟩ := readHead_spec hhead
  refine ⟨fits_of_parseRequestHead htarget, head, hsplit, hend, fun p hp hblank => ?_⟩
  exact hfirst p hp (Nat.lt_of_lt_of_le (by decide) hblank.length_le) hblank

/-- Whatever arrives, a target that a front-end returns goes through the envelope unchanged, and the bytes
behind the envelope are left; its domain has at most 255 bytes. An HTTP request is consumed just up to its
first blank line. -/
theorem target_round_trip (parseIp : String → Option StdIpAddr) (writable : Bool) (s rest : Bytes)
    (t : Target) :
    ((readSocks5Request writable s).1 = .ok (t, rest) ∨ readHttpConnectRequest parseIp s = .ok (t, rest) →
        (∀ after, readTarget (encodeTarget t ++ after) = .ok (t, after)) ∧
          ∀ d port, t = .domain d port → d.utf8ByteSize ≤ 255) ∧
      (readHttpConnectRequest parseIp s = .ok (t, rest) → ∃ head, s = head ++ rest ∧ crlfCrlf <:+ head ∧
        ∀ p, p <+: s → crlfCrlf <:+ p → head.length ≤ p.length) := by
  constructor
  · intro h
    have hfits : t.Fits := by
      rcases h with h | h
      · exact fits_of_readSocks5Request h
      · exact (readHttpConnectRequest_spec h).1
    refine ⟨readTarget_encodeTarget hfits, ?_⟩
    rintro d port rfl
    exact hfits
  · intro h
    exact (readHttpConnectRequest_spec h).2

theorem target_round_trip_connect :
    readTarget (encodeTarget (.domain "a.b" 80) ++ [1, 2]) = .ok (.domain "a.b" 80, [1, 2]) :=
  ((target_round_trip (fun _ => none) true
    ("connect a.b:80 HTTP/1.1\r\nHost: a.b\r\n\r\n".toUTF8.data.toList ++ [9]) [9] (.domain "a.b" 80)).1
      (.inr (by decide +kernel))).1 [1, 2]

end BaleVpn.Socks
