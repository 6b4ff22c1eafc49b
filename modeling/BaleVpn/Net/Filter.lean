import BaleVpn.Net.Packet

/-!
# Destination policy (`nat/filter.rs`)

`is_blocked_dst`, which gates the host socket a flow opens and the targets the SOCKS5 server dials.
The range tests of `std::net::Ipv4Addr` are written out on the four octets, those of
`std::net::Ipv6Addr` on the eight segments.
-/

namespace BaleVpn.Net

structure Ipv4Addr where
  o0 : UInt8
  o1 : UInt8
  o2 : UInt8
  o3 : UInt8
  deriving DecidableEq, Repr

namespace Ipv4Addr

def isLoopback (ip : Ipv4Addr) : Bool := ip.o0 == 127

def isPrivate (ip : Ipv4Addr) : Bool :=
  ip.o0 == 10 || (ip.o0 == 172 && ip.o1 &&& 0xf0 == 16) || (ip.o0 == 192 && ip.o1 == 168)

def isLinkLocal (ip : Ipv4Addr) : Bool := ip.o0 == 169 && ip.o1 == 254

def isBroadcast (ip : Ipv4Addr) : Bool := ip == ⟨255, 255, 255, 255⟩

def isMulticast (ip : Ipv4Addr) : Bool := ip.o0 &&& 0xf0 == 224

def isDocumentation (ip : Ipv4Addr) : Bool :=
  (ip.o0 == 192 && ip.o1 == 0 && ip.o2 == 2) || (ip.o0 == 198 && ip.o1 == 51 && ip.o2 == 100) ||
    (ip.o0 == 203 && ip.o1 == 0 && ip.o2 == 113)

end Ipv4Addr

/-- `100.64.0.0/10`, RFC 6598. -/
def isCgnat (ip : Ipv4Addr) : Bool := ip.o0 == 100 && ip.o1 &&& 0xC0 == 64

def isOracleMetadata (ip : Ipv4Addr) : Bool := ip == ⟨192, 0, 0, 192⟩

def isBlockedV4 (ip : Ipv4Addr) : Bool :=
  ip.o0 == 0 || ip.isLoopback || ip.isPrivate || isCgnat ip || ip.isLinkLocal || ip.isBroadcast ||
    ip.isMulticast || ip.isDocumentation || isOracleMetadata ip

/-- `Ipv4Addr::from(addr.v4_be())`. -/
def IpAddr.toIpv4 (a : IpAddr) : Ipv4Addr :=
  ⟨a.bytes.getD 0 0, a.bytes.getD 1 0, a.bytes.getD 2 0, a.bytes.getD 3 0⟩

/-! ## IPv6 -/

/-- An address by its `segments()`. -/
structure Ipv6Addr where
  s0 : UInt16
  s1 : UInt16
  s2 : UInt16
  s3 : UInt16
  s4 : UInt16
  s5 : UInt16
  s6 : UInt16
  s7 : UInt16
  deriving DecidableEq, Repr

namespace Ipv6Addr

def isUnspecified (ip : Ipv6Addr) : Bool := ip == ⟨0, 0, 0, 0, 0, 0, 0, 0⟩

def isLoopback (ip : Ipv6Addr) : Bool := ip == ⟨0, 0, 0, 0, 0, 0, 0, 1⟩

def isMulticast (ip : Ipv6Addr) : Bool := ip.s0 &&& 0xff00 == 0xff00

end Ipv6Addr

/-- `fe80::/10`. -/
def isLinkLocalV6 (ip : Ipv6Addr) : Bool := ip.s0 &&& 0xffc0 == 0xfe80

/-- `fc00::/7`, RFC 4193. -/
def isUniqueLocalV6 (ip : Ipv6Addr) : Bool := ip.s0 &&& 0xfe00 == 0xfc00

def isBlockedV6 (ip : Ipv6Addr) : Bool :=
  ip.isUnspecified || ip.isLoopback || ip.isMulticast || isLinkLocalV6 ip || isUniqueLocalV6 ip

/-- `std::net::IpAddr`. -/
inductive StdIpAddr
  | v4 (ip : Ipv4Addr)
  | v6 (ip : Ipv6Addr)
  deriving DecidableEq, Repr

def isBlockedDst : StdIpAddr → Bool
  | .v4 ip => isBlockedV4 ip
  | .v6 ip => isBlockedV6 ip

end BaleVpn.Net
