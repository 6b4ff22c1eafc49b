import BaleVpn.Net.Filter

/-!
# The SOCKS5 server side (`socks5_quic.rs`)

`handle_quic_stream`: the target envelope, the resolution, the destination policy and the dial. DNS
and `TcpStream::connect` are outside and answer through a `Dialer`. Errors keep their kind, which is
what the status byte is made from; their texts only reach the log. `is_blocked_dst` looks at an
IPv4-mapped IPv6 address as at any other IPv6 address, so the policy does not see the IPv4 host that
the operating system connects to.
-/

namespace BaleVpn.Socks

open Net

/-! ## The target envelope -/

/-- `io::ErrorKind`, as far as `handle_quic_stream` makes or tells apart its values. -/
inductive ErrorKind
  | permissionDenied | connectionRefused | hostUnreachable | networkUnreachable | notFound
  | unexpectedEof | invalidData | other
  deriving DecidableEq, Repr

inductive Target
  | ip (ip : StdIpAddr) (port : UInt16)
  | domain (name : String) (port : UInt16)
  deriving DecidableEq, Repr

def ATYP_IPV4 : UInt8 := 0x01
def ATYP_DOMAIN : UInt8 := 0x03
def ATYP_IPV6 : UInt8 := 0x04

/-- `read_exact` of `n` bytes: what was read, and the rest of the stream. -/
def readExact (n : ℕ) (s : Bytes) : Except ErrorKind (Bytes × Bytes) :=
  if s.length < n then .error .unexpectedEof else .ok (s.take n, s.drop n)

/-- `Ipv4Addr::from` of four octets. -/
def ipv4Of (o : Bytes) : Ipv4Addr := ⟨o.getD 0 0, o.getD 1 0, o.getD 2 0, o.getD 3 0⟩

/-- `Ipv6Addr::from` of sixteen octets. -/
def ipv6Of (o : Bytes) : Ipv6Addr :=
  ⟨be16 o, be16 (o.drop 2), be16 (o.drop 4), be16 (o.drop 6), be16 (o.drop 8), be16 (o.drop 10),
    be16 (o.drop 12), be16 (o.drop 14)⟩

/-- The target, and the bytes after its envelope. -/
def readTarget (s : Bytes) : Except ErrorKind (Target × Bytes) := do
  let (atyp, s) ← readExact 1 s
  if atyp.getD 0 0 == ATYP_IPV4 then
    let (o, s) ← readExact 4 s
    let (p, s) ← readExact 2 s
    return (.ip (.v4 (ipv4Of o)) (be16 p), s)
  else if atyp.getD 0 0 == ATYP_IPV6 then
    let (o, s) ← readExact 16 s
    let (p, s) ← readExact 2 s
    return (.ip (.v6 (ipv6Of o)) (be16 p), s)
  else if atyp.getD 0 0 == ATYP_DOMAIN then
    let (l, s) ← readExact 1 s
    let (name, s) ← readExact (l.getD 0 0).toNat s
    let (p, s) ← readExact 2 s
    match String.fromUTF8? ⟨name.toArray⟩ with
    | some domain => return (.domain domain (be16 p), s)
    | none => throw .invalidData
  else throw .invalidData

/-! ## Dialling -/

structure SocketAddr where
  ip : StdIpAddr
  port : UInt16
  deriving DecidableEq, Repr

/-- DNS and the operating system's `connect`. -/
structure Dialer where
  lookupHost : String → UInt16 → Except ErrorKind (List SocketAddr)
  connect : SocketAddr → Except ErrorKind Unit

/-- `ssrf_blocked` under the process-wide toggle `SSRF_FILTER_ENABLED`, which starts `true` and which
only tests switch off. -/
def ssrfBlocked (enabled : Bool) (ip : StdIpAddr) : Bool := enabled && isBlockedDst ip

/-- The address to dial: a literal target as it is, a domain by its first address the policy lets
through. -/
def resolve (enabled : Bool) (net : Dialer) : Target → Except ErrorKind SocketAddr
  | .ip ip port => .ok ⟨ip, port⟩
  | .domain name port =>
    match net.lookupHost name port with
    | .ok addrs =>
      match (addrs.filter fun a => !ssrfBlocked enabled a.ip).head? with
      | some a => .ok a
      | none => .error .permissionDenied
    | .error _ => .error .notFound

def REP_SUCCEEDED : UInt8 := 0x00
def REP_GENERAL_FAILURE : UInt8 := 0x01
def REP_RULESET_BLOCKED : UInt8 := 0x02
def REP_NETWORK_UNREACHABLE : UInt8 := 0x03
def REP_HOST_UNREACHABLE : UInt8 := 0x04
def REP_CONNECTION_REFUSED : UInt8 := 0x05

def ioErrToSocks5Rep : ErrorKind → UInt8
  | .permissionDenied => REP_RULESET_BLOCKED
  | .connectionRefused => REP_CONNECTION_REFUSED
  | .hostUnreachable => REP_HOST_UNREACHABLE
  | .networkUnreachable => REP_NETWORK_UNREACHABLE
  | .notFound => REP_HOST_UNREACHABLE
  | _ => REP_GENERAL_FAILURE

/-- What serving a stream did: the addresses handed to `TcpStream::connect`, in order, and the status
byte sent (none when no target was read). The byte copy that follows a success is left out. -/
structure Served where
  dialed : List SocketAddr := []
  status : Option UInt8 := none

def Served.failed (dialed : List SocketAddr) (e : ErrorKind) : Served :=
  { dialed, status := some (ioErrToSocks5Rep e) }

def dialTarget (enabled : Bool) (net : Dialer) (target : Target) : Served :=
  match resolve enabled net target with
  | .error e => .failed [] e
  | .ok addr =>
    if ssrfBlocked enabled addr.ip then .failed [] .permissionDenied
    else
      match net.connect addr with
      | .ok () => { dialed := [addr], status := some REP_SUCCEEDED }
      | .error e => .failed [addr] e

def handleQuicStream (enabled : Bool) (net : Dialer) (stream : Bytes) : Served :=
  match readTarget stream with
  | .error _ => {}
  | .ok (target, _) => dialTarget enabled net target

/-! ## Effective destinations -/

/-- `::ffff:a.b.c.d`. -/
def mapped (ip : Ipv4Addr) : Ipv6Addr :=
  ⟨0, 0, 0, 0, 0, 0xffff, be16 [ip.o0, ip.o1], be16 [ip.o2, ip.o3]⟩

/-- The IPv4 address that an IPv4-mapped address embeds. -/
def embedded (ip : Ipv6Addr) : Option Ipv4Addr :=
  if ip.s0 == 0 && ip.s1 == 0 && ip.s2 == 0 && ip.s3 == 0 && ip.s4 == 0 && ip.s5 == 0xffff then
    some (ipv4Of (putBe16 ip.s6 ++ putBe16 ip.s7))
  else none

/-- Where the operating system connects to. -/
def effectiveDst : StdIpAddr → StdIpAddr
  | .v4 ip => .v4 ip
  | .v6 ip =>
    match embedded ip with
    | some x => .v4 x
    | none => .v6 ip

/-- The IPv4-mapped form of a blocked IPv4 address. -/
def isMappedBlocked : StdIpAddr → Bool
  | .v4 _ => false
  | .v6 ip => (embedded ip).any isBlockedV4

/-- The addresses a target stands for. -/
def candidates (net : Dialer) : Target → List SocketAddr
  | .ip ip port => [⟨ip, port⟩]
  | .domain name port =>
    match net.lookupHost name port with
    | .ok addrs => addrs
    | .error _ => []

/-- The policy never refuses an IPv4-mapped address. -/
theorem not_blocked_of_embedded {ip : Ipv6Addr} {x : Ipv4Addr} (h : embedded ip = some x) :
    isBlockedDst (.v6 ip) = false := by
  unfold embedded at h
  split at h
  · rename_i hzero
    simp only [Bool.and_eq_true, beq_iff_eq] at hzero
    obtain ⟨⟨⟨⟨⟨h0, -⟩, -⟩, -⟩, -⟩, h5⟩ := hzero
    have hunspec : ip.isUnspecified = false := by
      apply beq_false_of_ne
      rintro rfl
      exact absurd h5 (by decide)
    have hloop : ip.isLoopback = false := by
      apply beq_false_of_ne
      rintro rfl
      exact absurd h5 (by decide)
    simp only [isBlockedDst, isBlockedV6, hunspec, hloop, Ipv6Addr.isMulticast, isLinkLocalV6,
      isUniqueLocalV6, h0]
    decide
  · cases h

theorem blocked_effectiveDst (ip : StdIpAddr) (h : isBlockedDst ip = false) :
    isBlockedDst (effectiveDst ip) = isMappedBlocked ip := by
  cases ip with
  | v4 ip => exact h
  | v6 ip =>
    simp only [effectiveDst, isMappedBlocked]
    cases hx : embedded ip with
    | none => simpa using h
    | some x => rfl

theorem dialTarget_dialed (net : Dialer) (target : Target) :
    (dialTarget true net target).dialed =
      ((candidates net target).find? fun a => !isBlockedDst a.ip).toList := by
  have hconnect : ∀ addr, isBlockedDst addr.ip = false →
      (match net.connect addr with
        | .ok () => ({ dialed := [addr], status := some REP_SUCCEEDED } : Served)
        | .error e => .failed [addr] e).dialed = [addr] := by
    intro addr _
    cases net.connect addr <;> rfl
  unfold dialTarget resolve candidates ssrfBlocked
  cases target with
  | ip ip port =>
    simp only [Bool.true_and, List.find?_singleton]
    cases hip : isBlockedDst ip
    · simpa using hconnect ⟨ip, port⟩ hip
    · rfl
  | domain name port =>
    simp only
    cases net.lookupHost name port with
    | error e => rfl
    | ok addrs =>
      simp only [Bool.true_and, List.head?_filter]
      cases hfind : addrs.find? fun a => !isBlockedDst a.ip with
      | none => rfl
      | some addr =>
        have hpass : isBlockedDst addr.ip = false := by
          simpa using List.find?_some hfind
        simp only [hpass, Bool.false_eq_true, if_false, Option.toList_some]
        exact hconnect addr hpass

/-- Every address dialled for a stream leads to a host the policy allows. -/
def DialsAllowed (net : Dialer) (stream : Bytes) : Prop :=
  ∀ a ∈ (handleQuicStream true net stream).dialed, isBlockedDst (effectiveDst a.ip) = false

/-- The first address of the target that the policy lets through is not the mapped form of a blocked
one. -/
def NoMappedTarget (net : Dialer) (stream : Bytes) : Prop :=
  ∀ target rest, readTarget stream = .ok (target, rest) →
    ∀ a, ((candidates net target).find? fun a => !isBlockedDst a.ip) = some a →
      isMappedBlocked a.ip = false

theorem dials_allowed_iff (net : Dialer) (stream : Bytes) (x : Ipv4Addr) :
    (DialsAllowed net stream ↔ NoMappedTarget net stream) ∧
      ((isBlockedDst (.v4 x) = true → isBlockedDst (.v6 (mapped x)) = true) ↔
        isBlockedDst (.v4 x) = false) := by
  constructor
  · unfold DialsAllowed NoMappedTarget handleQuicStream
    cases readTarget stream with
    | error e => simp
    | ok r =>
      obtain ⟨target, rest⟩ := r
      simp only [dialTarget_dialed, Option.mem_toList, Except.ok.injEq, Prod.mk.injEq]
      constructor
      · rintro h _ _ ⟨rfl, rfl⟩ a ha
        have hpass : isBlockedDst a.ip = false := by simpa using List.find?_some ha
        rw [← blocked_effectiveDst a.ip hpass]
        exact h a ha
      · intro h a ha
        have hpass : isBlockedDst a.ip = false := by simpa using List.find?_some ha
        rw [blocked_effectiveDst a.ip hpass]
        exact h target rest ⟨rfl, rfl⟩ a ha
  · have hmapped : isBlockedDst (.v6 (mapped x)) = false :=
      not_blocked_of_embedded (x := ipv4Of (putBe16 (be16 [x.o0, x.o1]) ++ putBe16 (be16 [x.o2, x.o3])))
        rfl
    rw [hmapped]
    cases isBlockedDst (.v4 x) <;> decide

/-- A dialler whose DNS answers nothing and whose connects succeed. -/
def plainDialer : Dialer := ⟨fun _ _ => .ok [], fun _ => .ok ()⟩

/-- An IPv6 target `::ffff:169.254.169.254`, port 80. -/
def metadataTarget : Bytes :=
  [ATYP_IPV6, 0, 0, 0, 0, 0, 0, 0, 0, 0, 0, 0xff, 0xff, 169, 254, 169, 254, 0, 80]

theorem metadata_host_dialed : ¬ ∀ net stream, DialsAllowed net stream := by
  intro hall
  have hdialed : ⟨.v6 (mapped ⟨169, 254, 169, 254⟩), 80⟩ ∈
      (handleQuicStream true plainDialer metadataTarget).dialed := by decide +kernel
  exact absurd (hall plainDialer metadataTarget _ hdialed) (by decide)

end BaleVpn.Socks
