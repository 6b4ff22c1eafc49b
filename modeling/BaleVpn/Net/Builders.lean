import BaleVpn.Net.Rewrite

/-!
# Builders and parser

What a receiver reads from the bytes a builder wrote: `IpPacket::parse` gives back the addresses, the
protocol and the segment, `TcpHeader` and `UdpHeader` the fields, and both checksums verify. No sum of
words on the way is too long for 32 bits.
-/

namespace BaleVpn.Net

open Lib

namespace UdpHeader

def srcPort (p : Bytes) : UInt16 := be16 p
def dstPort (p : Bytes) : UInt16 := be16 (p.drop 2)
def udpLen (p : Bytes) : UInt16 := be16 (p.drop 4)
def payload (p : Bytes) : Bytes := p.drop 8
def payloadLen (p : Bytes) : ℕ := if (udpLen p).toNat ≥ 8 then (udpLen p).toNat - 8 else 0

end UdpHeader

/-! ## The header -/

/-- What the parser reads of the header `hdr`. -/
structure ReadsHeader (total : UInt16) (proto : UInt8) (src dst : IpAddr) (ipId flagsOff : UInt16)
    (hdr : Bytes) : Prop where
  sum : internetChecksum hdr = 0
  length : hdr.length = 20
  version : hdr.getD 0 0 = 0x45
  proto : hdr.getD 9 0 = proto
  total : be16 (hdr.drop 2) = total
  ipId : be16 (hdr.drop 4) = ipId
  flags : be16 (hdr.drop 6) = flagsOff
  src : addrAt hdr 12 = src.toIpv4.toIpAddr
  dst : addrAt hdr 16 = dst.toIpv4.toIpAddr

/-- The packet `p` has these fields and this data behind its header. -/
structure IpPacket.ReadsAs (proto : UInt8) (src dst : IpAddr) (ipId flagsOff : UInt16) (seg : Bytes)
    (p : IpPacket) : Prop where
  l4 : p.l4 = seg
  l4Len : p.l4Len = seg.length
  proto : p.proto = proto
  ipId : p.ipId = ipId
  units : p.fragOffUnits = flagsOff &&& 0x1FFF
  more : p.moreFrags = (flagsOff &&& 0x2000 != 0)
  src : p.src = src.toIpv4.toIpAddr
  dst : p.dst = dst.toIpv4.toIpAddr

theorem ReadsHeader.parse {total ipId flagsOff : UInt16} {proto : UInt8} {src dst : IpAddr}
    {hdr l4 : Bytes} (h : ReadsHeader total proto src dst ipId flagsOff hdr)
    (htotal : total.toNat = 20 + l4.length) : ∃ p, IpPacket.parse (hdr ++ l4) = some p ∧
      p.ReadsAs proto src dst ipId flagsOff l4 := by
  refine ⟨_, parse_append h.length h.version h.sum (by rw [h.total, htotal]), ?_⟩
  constructor
  case l4 => exact l4_append h.length
  case l4Len => exact Nat.add_sub_cancel_left 20 l4.length
  case proto => exact h.proto
  case ipId => exact h.ipId
  case units => rw [← h.flags]
  case more => rw [← h.flags]
  case src => exact h.src
  case dst => exact h.dst

theorem writeIpv4Header_reads (total : UInt16) (proto : UInt8) (src dst : IpAddr) :
    ReadsHeader total proto src dst 0 0x4000 (writeIpv4Header total proto src dst) := by
  have hsplit : ∀ cs, ipv4Bytes total proto src dst cs = ipv4Fixed total proto ++
      (putBe16 cs ++ (src.toIpv4.octets ++ dst.toIpv4.octets)) := fun cs => by
    simp only [ipv4Bytes, ipv4Fixed, List.append_assoc, IpAddr.take_four]
  have hid : be16 [0, 0] = 0 := by decide
  have hflags : be16 [0x40, 0] = 0x4000 := by decide
  refine ⟨internetChecksum_writeIpv4Header _ _ _ _, writeIpv4Header_length _ _ _ _, rfl, rfl,
    be16_putBe16 total, hid, hflags, ?_, ?_⟩
  all_goals
    unfold writeIpv4Header
    simp only [hsplit]
    rfl

theorem IpAddr.beq_toIpv4 {a : IpAddr} (h : a.isV4 = true) : (a.toIpv4.toIpAddr == a) = true := by
  have hfamily : a.family = .v4 := by simpa [IpAddr.isV4] using h
  have htake : a.toIpv4.toIpAddr.bytes.take 4 = a.bytes.take 4 := (IpAddr.take_four a).symm
  show (Family.v4 == a.family && (if Family.v4 == .v4 then
    a.toIpv4.toIpAddr.bytes.take 4 == a.bytes.take 4 else _)) = true
  rw [hfamily, htake]
  simp

/-! ## The L4 checksum -/

theorem l4Checksum_toIpv4 {src dst : IpAddr} (hsrc : src.isV4 = true) (proto : UInt8) (l4 : Bytes) :
    l4Checksum src.toIpv4.toIpAddr dst.toIpv4.toIpAddr proto l4 = l4Checksum src dst proto l4 := by
  have hsame : ∀ a : IpAddr, a.toIpv4.toIpAddr.bytes.take 4 = a.bytes.take 4 :=
    fun a => (IpAddr.take_four a).symm
  have hv4 : src.toIpv4.toIpAddr.isV4 = true := rfl
  simp only [l4Checksum, hsrc, hv4, if_true, hsame]

theorem l4Checksum_fill {src dst : IpAddr} {proto : UInt8} {pre post : Bytes} {cs : UInt16}
    (hsrc : src.isV4 = true) (hproto : 0 < proto.toNat) (heven : pre.length % 2 = 0)
    (hlen : (pre ++ (putBe16 0 ++ post)).length ≤ 0xffff)
    (hcs : ChecksumOf cs (l4Sum src dst proto (pre ++ (putBe16 0 ++ post)))) :
    l4Checksum src dst proto (pre ++ (putBe16 cs ++ post)) = 0 := by
  have hword : ∀ c, wordSum (pre ++ (putBe16 c ++ post)) =
      wordSum pre + (c.toNat + wordSum post) := fun c => by
    rw [wordSum_append heven, wordSum_append (by simp [putBe16]), wordSum_putBe16]
  have hsize : (pre ++ (putBe16 cs ++ post)).length = (pre ++ (putBe16 0 ++ post)).length := by
    simp [putBe16]
  have hlt := cs.toNat_lt
  have hsum : l4Sum src dst proto (pre ++ (putBe16 cs ++ post)) ≡ 0 [MOD 65535] := by
    have hzero : (0 : UInt16).toNat = 0 := rfl
    calc l4Sum src dst proto (pre ++ (putBe16 cs ++ post))
        = l4Sum src dst proto (pre ++ (putBe16 0 ++ post)) + cs.toNat := by
          unfold l4Sum
          rw [hword, hword, hsize]
          omega
      _ ≡ (65535 - cs.toNat) + cs.toNat [MOD 65535] := hcs.symm.add_right _
      _ = 65535 := by omega
      _ ≡ 0 [MOD 65535] := Nat.mod_self 65535
  -- The checksum of a sum of zero is zero: the other zero, `0xffff`, is never computed.
  obtain ⟨hof, hne⟩ := @l4Checksum_of src dst proto _ hsrc hproto (hsize.trans_le hlen)
  generalize l4Checksum src dst proto (pre ++ (putBe16 cs ++ post)) = out at hof hne ⊢
  have hmod : (65535 - out.toNat) % 65535 = 0 % 65535 := hof.trans hsum
  have hout := out.toNat_lt
  have hmax : out.toNat ≠ 65535 := fun heq => hne (UInt16.toNat_inj.mp heq)
  apply UInt16.toNat_inj.mp
  show _ = 0
  omega

/-! ## The accumulator -/

/-- No `wrapping_add` of `checksum_partial` wraps. -/
def NoWrap : Bytes → UInt32 → Prop
  | a :: b :: rest, sum =>
    sum.toNat + (be16 [a, b]).toNat < 2 ^ 32 ∧ NoWrap rest (sum + (be16 [a, b]).toUInt32)
  | [a], sum => sum.toNat + a.toNat * 256 < 2 ^ 32
  | [], _ => True

theorem noWrap_of_sum {data : Bytes} {seed : UInt32} (h : seed.toNat + wordSum data < 2 ^ 32) :
    NoWrap data seed := by
  induction data using wordSum.induct generalizing seed with
  | case1 a b rest ih =>
    simp only [wordSum] at h
    have hadd : (seed + (be16 [a, b]).toUInt32).toNat = seed.toNat + (be16 [a, b]).toNat := by
      rw [UInt32.toNat_add, UInt16.toNat_toUInt32, Nat.mod_eq_of_lt (by omega)]
    exact ⟨by omega, ih (by omega)⟩
  | case2 a => exact h
  | case3 => exact trivial

theorem noWrap_packet {data : Bytes} {seed : UInt32} (hdata : data.length ≤ 0xffff)
    (hseed : seed.toNat ≤ 65535) : NoWrap data seed := by
  have hle := wordSum_le data
  exact noWrap_of_sum (by omega)

/-- The four sums of `l4_checksum` for IPv4. -/
def L4NoWrap (src dst : IpAddr) (proto : UInt8) (l4 : Bytes) : Prop :=
  let sum₁ := checksumPartial (src.bytes.take 4) 0
  let sum₂ := checksumPartial (dst.bytes.take 4) sum₁
  let hdr : Bytes := [0, proto, (l4.length >>> 8).toUInt8, l4.length.toUInt8]
  NoWrap (src.bytes.take 4) 0 ∧ NoWrap (dst.bytes.take 4) sum₁ ∧ NoWrap hdr sum₂ ∧
    NoWrap l4 (checksumPartial hdr sum₂)

theorem l4NoWrap (src dst : IpAddr) (proto : UInt8) {l4 : Bytes} (hlen : l4.length ≤ 0xffff) :
    L4NoWrap src dst proto l4 := by
  have htake : ∀ a : IpAddr, (a.bytes.take 4).length ≤ 0xffff := fun a => by
    rw [List.length_take]
    omega
  have hfold : ∀ data seed, (checksumPartial data seed).toNat ≤ 65535 :=
    fun data seed => (foldCarry_spec (sumWords data seed)).1
  exact ⟨noWrap_packet (htake src) (by decide), noWrap_packet (htake dst) (hfold _ _),
    noWrap_packet (by simp) (hfold _ _), noWrap_packet hlen (hfold _ _)⟩

/-! ## Read back -/

/-- The packet `pkt` with the segment `seg` is accepted as `p`, which has the addresses and the whole
segment, and both checksums verify. -/
structure Delivers (src dst : IpAddr) (proto : UInt8) (seg pkt : Bytes) (p : IpPacket) : Prop where
  built : pkt.drop 20 = seg
  parsed : IpPacket.parse pkt = some p
  src : (p.src == src) = true
  dst : (p.dst == dst) = true
  proto : p.proto = proto
  l4 : p.l4 = seg
  header : internetChecksum (pkt.take 20) = 0
  sum : l4Checksum p.src p.dst p.proto p.l4 = 0

theorem delivers_append {src dst : IpAddr} {proto : UInt8} {seg : Bytes} (hsrc : src.isV4 = true)
    (hdst : dst.isV4 = true) {total : ℕ} (htotal : total = 20 + seg.length) (hbig : total ≤ 0xffff)
    (hsum : l4Checksum src dst proto seg = 0) :
    ∃ p, Delivers src dst proto seg (writeIpv4Header total.toUInt16 proto src dst ++ seg) p := by
  have hread := writeIpv4Header_reads total.toUInt16 proto src dst
  have hfield : total.toUInt16.toNat = 20 + seg.length :=
    (Nat.mod_eq_of_lt (by omega)).trans htotal
  obtain ⟨p, hparse, has⟩ := hread.parse hfield
  refine ⟨p, List.drop_left' hread.length, hparse, ?_, ?_, has.proto, has.l4, ?_, ?_⟩
  · rw [has.src]
    exact IpAddr.beq_toIpv4 hsrc
  · rw [has.dst]
    exact IpAddr.beq_toIpv4 hdst
  · rw [List.take_left' hread.length]
    exact hread.sum
  · rw [has.src, has.dst, has.proto, has.l4, l4Checksum_toIpv4 hsrc, hsum]

/-- What `TcpHeader` reads from a segment. -/
structure TcpReads (b : TcpBuild) (seg : Bytes) : Prop where
  srcPort : TcpHeader.srcPort seg = b.srcPort
  dstPort : TcpHeader.dstPort seg = b.dstPort
  seq : TcpHeader.seq seg = b.seq
  ack : TcpHeader.ack seg = b.ack
  flags : TcpHeader.flags seg = b.flags
  window : TcpHeader.window seg = b.window
  dataOff : TcpHeader.dataOff seg = 20 + b.options.length
  options : (seg.take (TcpHeader.dataOff seg)).drop 20 = b.options
  payload : seg.drop (TcpHeader.dataOff seg) = b.payload

theorem tcpBytes_reads {b : TcpBuild} (cs : UInt16) (hopts : b.options.length ≤ 40)
    (h4 : b.options.length % 4 = 0) : TcpReads b (tcpBytes b cs) := by
  have hoff := tcpBytes_dataOff cs hopts h4
  refine ⟨be16_putBe16 b.srcPort, be16_putBe16 b.dstPort, tcpBytes_seq b cs, tcpBytes_ack b cs,
    tcpBytes_flags b cs, tcpBytes_window b cs, hoff, ?_, ?_⟩
  · rw [hoff, List.drop_take, tcpBytes_drop, Nat.add_sub_cancel_left, List.take_left]
  · rw [hoff, ← List.drop_drop, tcpBytes_drop, List.drop_left]

/-- What `UdpHeader` reads from a datagram. -/
structure UdpReads (b : UdpBuild) (seg : Bytes) : Prop where
  srcPort : UdpHeader.srcPort seg = b.srcPort
  dstPort : UdpHeader.dstPort seg = b.dstPort
  udpLen : (UdpHeader.udpLen seg).toNat = seg.length
  payload : UdpHeader.payload seg = b.payload
  payloadLen : UdpHeader.payloadLen seg = b.payload.length

theorem udpBytes_reads {b : UdpBuild} (cs : UInt16) (hlen : 8 + b.payload.length ≤ 0xffff) :
    UdpReads b (udpBytes b cs) := by
  have hfield : (UdpHeader.udpLen (udpBytes b cs)).toNat = 8 + b.payload.length :=
    (congrArg UInt16.toNat (be16_putBe16 (8 + b.payload.length).toUInt16)).trans
      (Nat.mod_eq_of_lt (by omega))
  refine ⟨be16_putBe16 b.srcPort, be16_putBe16 b.dstPort, ?_, rfl, ?_⟩
  · rw [hfield, udpBytes_length]
  · unfold UdpHeader.payloadLen
    rw [hfield, if_pos (by omega), Nat.add_sub_cancel_left]

/-- The segment `build_tcp` writes. -/
def TcpBuild.segment (b : TcpBuild) : Bytes :=
  tcpBytes b (l4Checksum b.src b.dst L4.tcp.code (tcpBytes b 0))

/-- The datagram `build_udp` writes. -/
def UdpBuild.datagram (b : UdpBuild) : Bytes :=
  udpBytes b (sentChecksum (l4Checksum b.src b.dst L4.udp.code (udpBytes b 0)))

theorem TcpBuild.segment_verifies {b : TcpBuild} (hsrc : b.src.isV4 = true)
    (hlen : 20 + b.options.length + b.payload.length ≤ 0xffff) :
    l4Checksum b.src b.dst L4.tcp.code b.segment = 0 := by
  have hsplit : ∀ c, tcpBytes b c = (putBe16 b.srcPort ++ putBe16 b.dstPort ++ putBe32 b.seq ++
      putBe32 b.ack ++ [(((20 + b.options.length) / 4) <<< 4).toUInt8, b.flags] ++ putBe16 b.window) ++
        (putBe16 c ++ (putBe16 0 ++ b.options ++ b.payload)) := fun c => by
    simp only [tcpBytes, List.append_assoc]
  have hbytes := tcpBytes_length b 0
  obtain ⟨hof, -⟩ := @l4Checksum_of b.src b.dst L4.tcp.code (tcpBytes b 0) hsrc (by decide) (by omega)
  unfold TcpBuild.segment
  generalize l4Checksum b.src b.dst L4.tcp.code (tcpBytes b 0) = cs at hof ⊢
  rw [hsplit] at hof hbytes ⊢
  exact l4Checksum_fill hsrc (by decide) (by simp [putBe16, putBe32]) (by omega) hof

theorem UdpBuild.datagram_verifies {b : UdpBuild} (hsrc : b.src.isV4 = true)
    (hlen : 8 + b.payload.length ≤ 0xffff) : l4Checksum b.src b.dst L4.udp.code b.datagram = 0 := by
  have hsplit : ∀ c, udpBytes b c = (putBe16 b.srcPort ++ putBe16 b.dstPort ++
      putBe16 (8 + b.payload.length).toUInt16) ++ (putBe16 c ++ b.payload) := fun c => by
    simp only [udpBytes, List.append_assoc]
  have hbytes := udpBytes_length b 0
  obtain ⟨hof, -⟩ := @l4Checksum_of b.src b.dst L4.udp.code (udpBytes b 0) hsrc (by decide) (by omega)
  have hsent := hof.sent
  unfold UdpBuild.datagram
  generalize sentChecksum _ = cs at hsent ⊢
  rw [hsplit] at hsent hbytes ⊢
  exact l4Checksum_fill hsrc (by decide) (by simp [putBe16]) (by omega) hsent

/-- The sums of a builder and of a receiver, over the header and over the segment, with any checksum
in its field. -/
structure SumsFit (src dst : IpAddr) (proto : UInt8) (seg : UInt16 → Bytes) : Prop where
  header : ∀ total cs, NoWrap (ipv4Bytes total proto src dst cs) 0
  l4 : ∀ cs, L4NoWrap src dst proto (seg cs)

theorem sumsFit (src dst : IpAddr) (proto : UInt8) {seg : UInt16 → Bytes}
    (hlen : ∀ cs, (seg cs).length ≤ 0xffff) : SumsFit src dst proto seg where
  header total cs := by
    apply noWrap_packet _ (by decide)
    rw [ipv4Bytes_length]
    decide
  l4 cs := l4NoWrap src dst proto (hlen cs)

/-- The parser undoes the builders, for every packet that fits, and what a receiver sums up verifies. -/
theorem builders_parser_inverse :
    (∀ outLen (b : TcpBuild), b.src.isV4 = true → b.dst.isV4 = true → b.options.length % 4 = 0 →
      b.options.length ≤ 40 → 40 + b.options.length + b.payload.length ≤ outLen →
      40 + b.options.length + b.payload.length ≤ 0xffff →
      ∃ pkt p, buildTcp outLen b = some pkt ∧ Delivers b.src b.dst L4.tcp.code b.segment pkt p ∧
        TcpReads b p.l4 ∧ SumsFit b.src b.dst L4.tcp.code (tcpBytes b)) ∧
    ∀ outLen (b : UdpBuild), b.src.isV4 = true → b.dst.isV4 = true →
      28 + b.payload.length ≤ outLen → 28 + b.payload.length ≤ 0xffff →
      ∃ pkt p, buildUdp outLen b = some pkt ∧ Delivers b.src b.dst L4.udp.code b.datagram pkt p ∧
        UdpReads b p.l4 ∧ SumsFit b.src b.dst L4.udp.code (udpBytes b) := by
  constructor
  · intro outLen b hsrc hdst h4 hopts hout hbig
    have hbytes := tcpBytes_length b
    obtain ⟨p, hp⟩ := delivers_append hsrc hdst
      (show 40 + b.options.length + b.payload.length = 20 + b.segment.length by
        unfold TcpBuild.segment
        rw [hbytes]
        omega) hbig (b.segment_verifies hsrc (by omega))
    refine ⟨_, p, buildTcp_fits hsrc hdst h4 hout hbig, hp, ?_, ?_⟩
    · rw [hp.l4]
      exact tcpBytes_reads _ hopts h4
    · exact sumsFit _ _ _ fun cs => by rw [hbytes]; omega
  · intro outLen b hsrc hdst hout hbig
    have hbytes := udpBytes_length b
    obtain ⟨p, hp⟩ := delivers_append hsrc hdst
      (show 28 + b.payload.length = 20 + b.datagram.length by
        unfold UdpBuild.datagram
        rw [hbytes]
        omega) hbig (b.datagram_verifies hsrc (by omega))
    refine ⟨_, p, buildUdp_fits hsrc hdst hout hbig, hp, ?_, ?_⟩
    · rw [hp.l4]
      exact udpBytes_reads _ (by omega)
    · exact sumsFit _ _ _ fun cs => by rw [hbytes]; omega

/-- An odd payload behind 8 bytes of options, and the datagram whose sum is a zero. -/
theorem builders_parser_inverse_odd :
    (∃ pkt p, buildTcp 64 { sampleSyn with options := [2, 4, 3, 192, 1, 3, 3, 7] } = some pkt ∧
      Delivers sampleSyn.src sampleSyn.dst L4.tcp.code (pkt.drop 20) pkt p ∧
      p.l4.drop (TcpHeader.dataOff p.l4) = [104]) ∧
    ∃ pkt p, buildUdp 64 zeroSumUdp = some pkt ∧
      Delivers zeroSumUdp.src zeroSumUdp.dst L4.udp.code (pkt.drop 20) pkt p ∧
      UdpHeader.payload p.l4 = [120] := by
  obtain ⟨htcp, hudp⟩ := builders_parser_inverse
  obtain ⟨pkt, p, hbuild, hp, hreads, -⟩ :=
    htcp 64 { sampleSyn with options := [2, 4, 3, 192, 1, 3, 3, 7] } (by decide) (by decide)
      (by decide) (by decide) (by decide) (by decide)
  obtain ⟨pkt', p', hbuild', hp', hreads', -⟩ :=
    hudp 64 zeroSumUdp (by decide) (by decide) (by decide) (by decide)
  exact ⟨⟨pkt, p, hbuild, by rw [hp.built]; exact hp, hreads.payload⟩,
    pkt', p', hbuild', by rw [hp'.built]; exact hp', hreads'.payload⟩

end BaleVpn.Net
