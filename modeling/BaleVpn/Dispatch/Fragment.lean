import BaleVpn.Net.Rewrite
import Mathlib.Data.List.Sort

/-!
# IP fragment reassembly (`nat/dispatcher.rs`)

`NatDispatcher::handle_fragment` on the table of fragment streams, and the expiry of streams in
`sweep_idle`. The table is a `HashMap`, whose order is not specified: here it is a list, and where
several streams are the oldest one the choice of the one to evict is an input (`tie`).
-/

namespace BaleVpn.Dispatch

open Net

def MAX_FRAG_STREAMS : ℕ := 64
def MAX_FRAG_BYTES_PER_STREAM : ℕ := 65535
def FRAG_EXPIRY_MS : UInt32 := 30000

structure FragKey where
  src : IpAddr
  dst : IpAddr
  proto : UInt8
  ipId : UInt16
  deriving DecidableEq

structure FragPart where
  off : UInt16
  len : UInt16
  data : Bytes
  deriving DecidableEq

structure FragEntry where
  parts : List FragPart
  proto : UInt8
  src : IpAddr
  dst : IpAddr
  /-- `-1` until the fragment with MF = 0 arrives. -/
  totalLen : ℤ
  accumulated : ℕ
  arrivedMs : UInt32

/-! ## Routing by protocol -/

/-- A call of `handle_udp` or `handle_tcp`. -/
inductive L4Call
  | udp (k : FlowKey) (payload : Bytes)
  | tcp (k : FlowKey) (seg : Bytes)
  deriving DecidableEq

/-- What `process` and `handle_fragment` do with a whole packet: return `false`, ignore it and return
`true`, or hand it on. -/
inductive Routed
  | refused
  | ignored
  | call (c : L4Call)
  deriving DecidableEq

def routeL4 (p : IpPacket) : Routed :=
  if p.proto == L4.udp.code then
    if p.l4Len < 8 then .refused
    else .call (.udp ⟨p.src, p.dst, be16 p.l4, be16 (p.l4.drop 2), .udp⟩ (p.l4.drop 8))
  else if p.proto == L4.tcp.code then
    if p.l4Len < 20 then .refused
    else .call (.tcp ⟨p.src, p.dst, TcpHeader.srcPort p.l4, TcpHeader.dstPort p.l4, .tcp⟩ p.l4)
  else .ignored

/-! ## The table -/

abbrev FragTable := List (FragKey × FragEntry)

namespace FragTable

def get (t : FragTable) (k : FragKey) : Option FragEntry := List.lookup k t

def remove (t : FragTable) (k : FragKey) : FragTable := t.filter fun x => x.1 != k

def insert (t : FragTable) (k : FragKey) (e : FragEntry) : FragTable := t.remove k ++ [(k, e)]

/-- The streams whose `arrived_ms` is least, compared as plain numbers. -/
def oldest (t : FragTable) : List FragKey :=
  (t.filter fun x => t.all fun y => x.2.arrivedMs ≤ y.2.arrivedMs).map (·.1)

/-- The stream that makes room for the stream `k`, if the table is full and `k` is not in it. -/
def victim (t : FragTable) (k : FragKey) (tie : ℕ) : Option FragKey :=
  if (t.get k).isNone && t.length ≥ MAX_FRAG_STREAMS then t.oldest[tie % t.oldest.length]? else none

/-- `now.wrapping_sub(arrived_ms) > FRAG_EXPIRY_MS` of `sweep_idle`. -/
def expired (now : UInt32) (e : FragEntry) : Bool := now - e.arrivedMs > FRAG_EXPIRY_MS

def sweep (t : FragTable) (now : UInt32) : FragTable := t.filter fun x => !expired now x.2

end FragTable

/-! ## Reassembly -/

/-- The order of `sort_by_key(|p| p.off)`. -/
def FragPart.offLe (p q : FragPart) : Prop := p.off.toNat ≤ q.off.toNat

instance : DecidableRel FragPart.offLe := fun _ _ => inferInstanceAs (Decidable (_ ≤ _))

/-- The parts copied in order into `payload`; `none` once one leaves a gap, overlaps or runs past the
end, else the payload and where the parts end. -/
def copyParts : List FragPart → Bytes → ℕ → Option (Bytes × ℕ)
  | [], payload, expected => some (payload, expected)
  | p :: rest, payload, expected =>
    if p.off.toNat != expected then none
    else if p.off.toNat + p.len.toNat > payload.length then none
    else copyParts rest (putAt payload p.off.toNat p.data) (p.off.toNat + p.len.toNat)

/-- The payload of a stream with a known length, if its parts tile it. -/
def FragEntry.assemble (e : FragEntry) : Option Bytes :=
  let parts := e.parts.insertionSort FragPart.offLe
  match copyParts parts (List.replicate e.totalLen.toNat 0) 0 with
  | some (payload, expected) => if (expected : ℤ) == e.totalLen then some payload else none
  | none => none

/-- The un-fragmented packet that goes through the parser once more. -/
def FragEntry.rebuild (e : FragEntry) (payload : Bytes) : Option IpPacket :=
  IpPacket.parse (writeIpv4HeaderFrag (20 + e.totalLen.toNat).toUInt16 e.proto e.src e.dst 0 0 false ++
    payload)

/-- What `handle_fragment` returns, or the packet it goes on with. -/
inductive FragResult
  | refused
  | held
  | rebuilt (p : IpPacket)

/-- The end of `handle_fragment`, on a stream whose bytes are all there. -/
def FragEntry.finish (e : FragEntry) : FragResult :=
  match e.assemble with
  | none => .refused
  | some payload =>
    match e.rebuild payload with
    | none => .refused
    | some p => .rebuilt p

def fragKeyOf (p : IpPacket) : FragKey := ⟨p.src, p.dst, p.proto, p.ipId⟩

/-- The stream of a first fragment, before it is added. -/
def FragEntry.fresh (p : IpPacket) (now : UInt32) : FragEntry :=
  ⟨[], p.proto, p.src, p.dst, -1, 0, now⟩

/-- `FragPart { off, len, data }` of a fragment; its length is cut to 16 bits. -/
def partOf (p : IpPacket) : FragPart :=
  ⟨p.fragOffsetBytes, p.l4Len.toUInt16, p.l4.take p.l4Len.toUInt16.toNat⟩

def FragEntry.add (e : FragEntry) (p : IpPacket) : FragEntry :=
  { e with
    parts := e.parts ++ [partOf p]
    accumulated := e.accumulated + (partOf p).len.toNat
    totalLen := if !p.moreFrags then (p.fragOffsetBytes.toNat : ℤ) + p.l4Len else e.totalLen }

def handleFragment (t : FragTable) (p : IpPacket) (now : UInt32) (tie : ℕ) : FragTable × FragResult :=
  if !p.src.isV4 || !p.dst.isV4 then (t, .refused)
  else
    let k := fragKeyOf p
    let t := match t.victim k tie with
      | some old => t.remove old
      | none => t
    let entry := (t.get k).getD (.fresh p now)
    let part := partOf p
    if part.off.toNat + part.len.toNat > MAX_FRAG_BYTES_PER_STREAM then (t.remove k, .refused)
    else
      let entry := entry.add p
      if entry.accumulated > MAX_FRAG_BYTES_PER_STREAM then (t.remove k, .refused)
      else if entry.totalLen < 0 || (entry.accumulated : ℤ) < entry.totalLen then
        (t.insert k entry, .held)
      else (t.remove k, entry.finish)

end BaleVpn.Dispatch
