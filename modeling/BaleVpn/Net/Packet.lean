import Mathlib.Algebra.Group.Nat.Defs
import Mathlib.Data.List.Basic

/-!
# Raw IPv4 / TCP / UDP packets (`nat/ip_packet.rs`, `nat/ip_addr.rs`, `nat/flow_key.rs`)

The packet view (`IpPacket.parse` and the `TcpHeader` accessors), the RFC 1071 checksum, `buildTcp`
and `buildUdp`. A builder of the source writes into a caller's buffer and returns the length, `0` for a
refusal; here it returns the written bytes, `none` for a refusal, and takes the buffer's length.
-/

namespace BaleVpn.Net

abbrev Bytes := List UInt8

inductive Family
  | v4
  | v6
  deriving DecidableEq, Repr

/-- Dual-stack address, 16 bytes in network order; for v4 only the first four are meaningful. -/
structure IpAddr where
  family : Family
  bytes : Bytes
  size : bytes.length = 16
  deriving DecidableEq

namespace IpAddr

/-- `IpAddr::v4_from_bytes`: the source indexes the first four bytes of `b`. -/
def v4FromBytes (b0 b1 b2 b3 : UInt8) : IpAddr where
  family := .v4
  bytes := [b0, b1, b2, b3, 0, 0, 0, 0, 0, 0, 0, 0, 0, 0, 0, 0]
  size := rfl

def isV4 (a : IpAddr) : Bool := a.family == .v4

/-- `PartialEq for IpAddr`: only the meaningful bytes count. -/
instance : BEq IpAddr where
  beq a b := a.family == b.family &&
    (if a.family == .v4 then a.bytes.take 4 == b.bytes.take 4 else a.bytes == b.bytes)

end IpAddr

inductive L4
  | tcp
  | udp
  deriving DecidableEq, Repr

def L4.code : L4 → UInt8
  | .tcp => 6
  | .udp => 17

structure FlowKey where
  src : IpAddr
  dst : IpAddr
  srcPort : UInt16
  dstPort : UInt16
  proto : L4
  deriving DecidableEq, BEq

/-- Keys of the flow table are cut from parsed packets, which are IPv4 (`IpPacket.parse`). -/
def FlowKey.IsV4 (k : FlowKey) : Prop := k.src.isV4 = true ∧ k.dst.isV4 = true

instance (k : FlowKey) : Decidable k.IsV4 := inferInstanceAs (Decidable (_ ∧ _))

/-! ## Byte order -/

def be16 (b : Bytes) : UInt16 := ((b.getD 0 0).toUInt16 <<< 8) ||| (b.getD 1 0).toUInt16

def be32 (b : Bytes) : UInt32 :=
  ((b.getD 0 0).toUInt32 <<< 24) ||| ((b.getD 1 0).toUInt32 <<< 16) |||
    ((b.getD 2 0).toUInt32 <<< 8) ||| (b.getD 3 0).toUInt32

def putBe16 (v : UInt16) : Bytes := [(v >>> 8).toUInt8, v.toUInt8]

def putBe32 (v : UInt32) : Bytes :=
  [(v >>> 24).toUInt8, (v >>> 16).toUInt8, (v >>> 8).toUInt8, v.toUInt8]

/-! ## Checksum core (RFC 1071) -/

/-- The word loop of `checksum_partial`: big-endian 16-bit words, an odd last byte padded high. -/
def sumWords : Bytes → UInt32 → UInt32
  | a :: b :: rest, sum => sumWords rest (sum + (be16 [a, b]).toUInt32)
  | [a], sum => sum + (a.toUInt32 <<< 8)
  | [], sum => sum

/-- `while sum >> 16 != 0 { sum = (sum & 0xffff) + (sum >> 16) }`. Two rounds bring every 32-bit
sum below `2^16`; the third finds nothing left to fold. -/
def foldCarry : ℕ → UInt32 → UInt32
  | 0, sum => sum
  | n + 1, sum =>
    if sum >>> (16 : UInt32) != 0 then foldCarry n ((sum &&& 0xffff) + (sum >>> (16 : UInt32)))
    else sum

def checksumPartial (data : Bytes) (seed : UInt32) : UInt32 := foldCarry 3 (sumWords data seed)

def checksumFinal (sum : UInt32) : UInt16 := ~~~(foldCarry 3 sum).toUInt16

def internetChecksum (data : Bytes) : UInt16 := checksumFinal (checksumPartial data 0)

def l4Checksum (src dst : IpAddr) (proto : UInt8) (l4 : Bytes) : UInt16 :=
  let sum :=
    if src.isV4 then
      let sum := checksumPartial (src.bytes.take 4) 0
      let sum := checksumPartial (dst.bytes.take 4) sum
      checksumPartial
        [0, proto, (l4.length >>> 8).toUInt8, l4.length.toUInt8] sum
    else
      let sum := checksumPartial src.bytes 0
      let sum := checksumPartial dst.bytes sum
      let l4Len := l4.length.toUInt32
      checksumPartial (putBe32 l4Len ++ [0, 0, 0, proto]) sum
  checksumFinal (checksumPartial l4 sum)

/-! ## Packet view -/

structure IpPacket where
  data : Bytes
  totalLen : ℕ
  l3HdrLen : ℕ
  family : Family
  proto : UInt8
  ttlHops : UInt8
  ipId : UInt16
  fragOffUnits : UInt16
  moreFrags : Bool
  src : IpAddr
  dst : IpAddr

/-- The address read from four bytes of `data` at `off`. -/
def addrAt (data : Bytes) (off : ℕ) : IpAddr :=
  .v4FromBytes (data.getD off 0) (data.getD (off + 1) 0) (data.getD (off + 2) 0)
    (data.getD (off + 3) 0)

def IpPacket.parse (data : Bytes) : Option IpPacket :=
  if data.isEmpty then none
  else if data.getD 0 0 >>> 4 == 4 then
    if data.length < 20 then none
    else
      let ihl := (data.getD 0 0 &&& 0x0f).toNat
      let hdr := ihl * 4
      let total := (be16 (data.drop 2)).toNat
      if ihl < 5 || hdr > data.length || total > data.length || total < hdr then none
      else if internetChecksum (data.take hdr) != 0 then none
      else
        let flagsOff := be16 (data.drop 6)
        some
          { data, totalLen := total, l3HdrLen := hdr, family := .v4
            proto := data.getD 9 0
            ttlHops := data.getD 8 0
            ipId := be16 (data.drop 4)
            fragOffUnits := flagsOff &&& 0x1FFF
            moreFrags := flagsOff &&& 0x2000 != 0
            src := addrAt data 12
            dst := addrAt data 16 }
  else none

def IpPacket.l4 (p : IpPacket) : Bytes := (p.data.take p.totalLen).drop p.l3HdrLen

def IpPacket.l4Len (p : IpPacket) : ℕ := p.totalLen - p.l3HdrLen

def IpPacket.fragOffsetBytes (p : IpPacket) : UInt16 := p.fragOffUnits * 8

def IpPacket.isFragment (p : IpPacket) : Bool := p.moreFrags || p.fragOffUnits != 0

namespace TcpHeader

def srcPort (p : Bytes) : UInt16 := be16 p
def dstPort (p : Bytes) : UInt16 := be16 (p.drop 2)
def seq (p : Bytes) : UInt32 := be32 (p.drop 4)
def ack (p : Bytes) : UInt32 := be32 (p.drop 8)
def dataOff (p : Bytes) : ℕ := (p.getD 12 0 >>> 4).toNat * 4
def flags (p : Bytes) : UInt8 := p.getD 13 0
def window (p : Bytes) : UInt16 := be16 (p.drop 14)

end TcpHeader

/-! ## Flags and builders -/

def TCP_FIN : UInt8 := 0x01
def TCP_SYN : UInt8 := 0x02
def TCP_RST : UInt8 := 0x04
def TCP_PSH : UInt8 := 0x08
def TCP_ACK : UInt8 := 0x10

/-- `(flags & f) != 0`. -/
def hasFlag (flags f : UInt8) : Bool := flags &&& f != 0

structure TcpBuild where
  src : IpAddr
  dst : IpAddr
  srcPort : UInt16
  dstPort : UInt16
  seq : UInt32
  ack : UInt32
  flags : UInt8
  window : UInt16
  options : Bytes
  payload : Bytes

/-- The TCP segment with the checksum field `cs`. -/
def tcpBytes (b : TcpBuild) (cs : UInt16) : Bytes :=
  putBe16 b.srcPort ++ putBe16 b.dstPort ++ putBe32 b.seq ++ putBe32 b.ack ++
    [(((20 + b.options.length) / 4) <<< 4).toUInt8, b.flags] ++ putBe16 b.window ++
    putBe16 cs ++ putBe16 0 ++ b.options ++ b.payload

/-- The 20-byte header of `write_ipv4_header` with the checksum field `cs`. -/
def ipv4Bytes (totalLen : UInt16) (proto : UInt8) (src dst : IpAddr) (cs : UInt16) : Bytes :=
  [0x45, 0] ++ putBe16 totalLen ++ [0, 0, 0x40, 0, 64, proto] ++ putBe16 cs ++
    src.bytes.take 4 ++ dst.bytes.take 4

def writeIpv4Header (totalLen : UInt16) (proto : UInt8) (src dst : IpAddr) : Bytes :=
  ipv4Bytes totalLen proto src dst (internetChecksum (ipv4Bytes totalLen proto src dst 0))

/-- The header of `write_ipv4_header_frag` with the checksum field `cs`. -/
def ipv4FragBytes (totalLen : UInt16) (proto : UInt8) (src dst : IpAddr) (ipId fragOffUnits : UInt16)
    (moreFragments : Bool) (cs : UInt16) : Bytes :=
  let flagsOff := fragOffUnits &&& 0x1FFF
  let flagsOff := if moreFragments then flagsOff ||| 0x2000 else flagsOff
  [0x45, 0] ++ putBe16 totalLen ++ putBe16 ipId ++ putBe16 flagsOff ++ [64, proto] ++ putBe16 cs ++
    src.bytes.take 4 ++ dst.bytes.take 4

def writeIpv4HeaderFrag (totalLen : UInt16) (proto : UInt8) (src dst : IpAddr)
    (ipId fragOffUnits : UInt16) (moreFragments : Bool) : Bytes :=
  let header := ipv4FragBytes totalLen proto src dst ipId fragOffUnits moreFragments
  header (internetChecksum (header 0))

def buildTcp (outLen : ℕ) (b : TcpBuild) : Option Bytes :=
  if !b.src.isV4 || !b.dst.isV4 then none
  else if b.options.length % 4 != 0 then none
  else
    let tcpHdr := 20 + b.options.length
    let tcpSeg := tcpHdr + b.payload.length
    let total := 20 + tcpSeg
    if outLen < total then none
    else if tcpSeg > 0xffff || total > 0xffff then none
    else
      let cs := l4Checksum b.src b.dst L4.tcp.code (tcpBytes b 0)
      some (writeIpv4Header total.toUInt16 L4.tcp.code b.src b.dst ++ tcpBytes b cs)

structure UdpBuild where
  src : IpAddr
  dst : IpAddr
  srcPort : UInt16
  dstPort : UInt16
  payload : Bytes

/-- The UDP datagram with the checksum field `cs`. -/
def udpBytes (b : UdpBuild) (cs : UInt16) : Bytes :=
  putBe16 b.srcPort ++ putBe16 b.dstPort ++ putBe16 (8 + b.payload.length).toUInt16 ++ putBe16 cs ++
    b.payload

/-- RFC 768: a checksum of zero is sent as `0xffff`. -/
def sentChecksum (cs : UInt16) : UInt16 := if cs == 0 then 0xffff else cs

def buildUdp (outLen : ℕ) (b : UdpBuild) : Option Bytes :=
  if !b.src.isV4 || !b.dst.isV4 then none
  else
    let udpSeg := 8 + b.payload.length
    let total := 20 + udpSeg
    if outLen < total then none
    else if udpSeg > 0xffff || total > 0xffff then none
    else
      let cs := sentChecksum (l4Checksum b.src b.dst L4.udp.code (udpBytes b 0))
      some (writeIpv4Header total.toUInt16 L4.udp.code b.src b.dst ++ udpBytes b cs)

end BaleVpn.Net
