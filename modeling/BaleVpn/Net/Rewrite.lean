import BaleVpn.Net.Filter
import BaleVpn.Net.RoundTrip

/-!
# Rewriting an address (`nat/ip_packet.rs`)

`rewrite_v4_src` and `rewrite_v4_dst`, which replace an IPv4 address in place and bring the IP and
L4 checksums up to date by RFC 1624, and that they leave the packet a builder would have written for
the new address. One's complement has two zeros. A checksum field that a builder computed is never
`0xffff` over a sum that is not zero, and an update keeps it so; UDP sends `0` as `0xffff`, which is
why both its builder and its update end in the same choice between the two.
-/

namespace BaleVpn.Net

open Lib

/-! ## The rewriting -/

/-- RFC 1624 for one 16-bit word. -/
def csumUpdate16 (cksum old new : UInt16) : UInt16 :=
  ~~~(foldCarry 3 ((~~~cksum).toUInt32 + (~~~old).toUInt32 + new.toUInt32)).toUInt16

/-- The address as `[u8; 4]`. -/
def Ipv4Addr.octets (a : Ipv4Addr) : Bytes := [a.o0, a.o1, a.o2, a.o3]

def Ipv4Addr.toIpAddr (a : Ipv4Addr) : IpAddr := .v4FromBytes a.o0 a.o1 a.o2 a.o3

def csumUpdateAddr (cksum : UInt16) (old new : Ipv4Addr) : UInt16 :=
  let cksum := csumUpdate16 cksum (be16 [old.o0, old.o1]) (be16 [new.o0, new.o1])
  csumUpdate16 cksum (be16 [old.o2, old.o3]) (be16 [new.o2, new.o3])

/-- `pkt[off..off + bs.len()].copy_from_slice(bs)`, for a range inside `pkt`. -/
def putAt (pkt : Bytes) (off : ℕ) (bs : Bytes) : Bytes :=
  pkt.take off ++ bs ++ pkt.drop (off + bs.length)

def octetsAt (pkt : Bytes) (off : ℕ) : Ipv4Addr :=
  ⟨pkt.getD off 0, pkt.getD (off + 1) 0, pkt.getD (off + 2) 0, pkt.getD (off + 3) 0⟩

/-- The L4 step of `rewrite_v4_addr`, on the packet whose L4 part starts at `ihl`. -/
def rewriteL4 (pkt : Bytes) (ihl : ℕ) (proto : UInt8) (old new : Ipv4Addr) : Bool × Bytes :=
  if proto == 6 then
    if pkt.length - ihl < 18 then (false, pkt)
    else
      let cs := be16 (pkt.drop (ihl + 16))
      (true, putAt pkt (ihl + 16) (putBe16 (csumUpdateAddr cs old new)))
  else if proto == 17 then
    if pkt.length - ihl < 8 then (false, pkt)
    else
      let cs := be16 (pkt.drop (ihl + 6))
      if cs != 0 then
        (true, putAt pkt (ihl + 6) (putBe16 (sentChecksum (csumUpdateAddr cs old new))))
      else (true, pkt)
  else (true, pkt)

/-- The result, and the packet as it is left. -/
def rewriteV4Addr (pkt : Bytes) (new : Ipv4Addr) (isSrc : Bool) : Bool × Bytes :=
  if pkt.length < 20 then (false, pkt)
  else if pkt.getD 0 0 >>> 4 != 4 then (false, pkt)
  else
    let ihl := (pkt.getD 0 0 &&& 0x0f).toNat * 4
    if pkt.length < ihl then (false, pkt)
    else
      let addrOff := if isSrc then 12 else 16
      let old := octetsAt pkt addrOff
      if old == new then (true, pkt)
      else
        let pkt' := putAt pkt 10 (putBe16 (csumUpdateAddr (be16 (pkt.drop 10)) old new))
        rewriteL4 (putAt pkt' addrOff new.octets) ihl (pkt.getD 9 0) old new

def rewriteV4Src (pkt : Bytes) (newSrc : Ipv4Addr) : Bool × Bytes := rewriteV4Addr pkt newSrc true

def rewriteV4Dst (pkt : Bytes) (newDst : Ipv4Addr) : Bool × Bytes := rewriteV4Addr pkt newDst false

/-! ## Checksums and their updates -/

/-- `cs` is the complement of a residue of `s`, either zero standing for zero. -/
def ChecksumOf (cs : UInt16) (s : ℕ) : Prop := 65535 - cs.toNat ≡ s [MOD 65535]

theorem csumUpdate16_toNat (cs old new : UInt16) : ∃ f, f ≤ 65535 ∧
    f ≡ (65535 - cs.toNat) + (65535 - old.toNat) + new.toNat [MOD 65535] ∧
    (0 < 65535 - cs.toNat → 0 < f) ∧ (csumUpdate16 cs old new).toNat = 65535 - f := by
  have hcs := cs.toNat_lt
  have hold := old.toNat_lt
  have hnew := new.toNat_lt
  have hnot : ∀ x : UInt16, (~~~x).toUInt32.toNat = 65535 - x.toNat := fun x => by
    rw [UInt16.toNat_toUInt32, UInt16.toNat_not]
    rfl
  have hsum : ((~~~cs).toUInt32 + (~~~old).toUInt32 + new.toUInt32).toNat =
      (65535 - cs.toNat) + (65535 - old.toNat) + new.toNat := by
    rw [UInt32.toNat_add, UInt32.toNat_add, hnot, hnot, UInt16.toNat_toUInt32]
    omega
  obtain ⟨hle, hmod, hpos⟩ := foldCarry_spec ((~~~cs).toUInt32 + (~~~old).toUInt32 + new.toUInt32)
  rw [hsum] at hmod hpos
  refine ⟨_, hle, hmod, fun h => hpos (by omega), ?_⟩
  unfold csumUpdate16
  rw [UInt16.toNat_not, UInt32.toNat_toUInt16, Nat.mod_eq_of_lt (by omega)]
  rfl

theorem ChecksumOf.update16 {cs : UInt16} {s : ℕ} (h : ChecksumOf cs s) (old new : UInt16) :
    ChecksumOf (csumUpdate16 cs old new) (s + (65535 - old.toNat) + new.toNat) := by
  obtain ⟨f, hle, hmod, -, hcs⟩ := csumUpdate16_toNat cs old new
  unfold ChecksumOf
  rw [hcs, Nat.sub_sub_self hle]
  exact hmod.trans (Nat.ModEq.add_right _ (Nat.ModEq.add_right _ h))

theorem csumUpdate16_ne {cs : UInt16} (h : cs ≠ 0xffff) (old new : UInt16) :
    csumUpdate16 cs old new ≠ 0xffff := by
  have hcs := cs.toNat_lt
  have hne : cs.toNat ≠ 65535 := fun heq => h (UInt16.toNat_inj.mp heq)
  obtain ⟨f, hle, -, hpos, hnew⟩ := csumUpdate16_toNat cs old new
  have hf := hpos (by omega)
  intro heq
  rw [heq] at hnew
  have hmax : (0xffff : UInt16).toNat = 65535 := rfl
  omega

theorem Ipv4Addr.wordSum_octets (a : Ipv4Addr) :
    wordSum a.octets = (be16 [a.o0, a.o1]).toNat + (be16 [a.o2, a.o3]).toNat := rfl

theorem ChecksumOf.updateAddr {cs : UInt16} {s s' : ℕ} (h : ChecksumOf cs s) {old new : Ipv4Addr}
    (hs : s + wordSum new.octets = s' + wordSum old.octets) :
    ChecksumOf (csumUpdateAddr cs old new) s' := by
  have htwice := (h.update16 (be16 [old.o0, old.o1]) (be16 [new.o0, new.o1])).update16
    (be16 [old.o2, old.o3]) (be16 [new.o2, new.o3])
  have hhi := (be16 [old.o0, old.o1]).toNat_lt
  have hlo := (be16 [old.o2, old.o3]).toNat_lt
  rw [Ipv4Addr.wordSum_octets, Ipv4Addr.wordSum_octets] at hs
  refine Nat.ModEq.trans htwice ?_
  rw [show s + (65535 - (be16 [old.o0, old.o1]).toNat) + (be16 [new.o0, new.o1]).toNat +
    (65535 - (be16 [old.o2, old.o3]).toNat) + (be16 [new.o2, new.o3]).toNat = s' + 65535 * 2 by omega]
  exact Nat.add_mul_mod_self_left s' 65535 2

theorem csumUpdateAddr_ne {cs : UInt16} (h : cs ≠ 0xffff) (old new : Ipv4Addr) :
    csumUpdateAddr cs old new ≠ 0xffff := csumUpdate16_ne (csumUpdate16_ne h _ _) _ _

/-- Apart from the second zero, a sum has one checksum. -/
theorem ChecksumOf.unique {cs cs' : UInt16} {s : ℕ} (h : ChecksumOf cs s) (h' : ChecksumOf cs' s)
    (hne : cs ≠ 0xffff) (hne' : cs' ≠ 0xffff) : cs = cs' := by
  have hlt := cs.toNat_lt
  have hlt' := cs'.toNat_lt
  have hmax : ∀ x : UInt16, x ≠ 0xffff → x.toNat ≠ 65535 :=
    fun x hx heq => hx (UInt16.toNat_inj.mp heq)
  have hmod : (65535 - cs.toNat) % 65535 = (65535 - cs'.toNat) % 65535 := h.trans h'.symm
  have h₁ := hmax cs hne
  have h₂ := hmax cs' hne'
  apply UInt16.toNat_inj.mp
  omega

theorem ChecksumOf.sent_unique {cs cs' : UInt16} {s : ℕ} (h : ChecksumOf cs s)
    (h' : ChecksumOf cs' s) : sentChecksum cs = sentChecksum cs' := by
  have hlt := cs.toNat_lt
  have hlt' := cs'.toNat_lt
  have hmod : (65535 - cs.toNat) % 65535 = (65535 - cs'.toNat) % 65535 := h.trans h'.symm
  have hsent : ∀ x : UInt16, (sentChecksum x).toNat = if x.toNat = 0 then 65535 else x.toNat := by
    intro x
    unfold sentChecksum
    by_cases hx : x = 0
    · rw [hx]
      rfl
    · have hpos : x.toNat ≠ 0 := fun heq => hx (UInt16.toNat_inj.mp heq)
      simp only [beq_iff_eq, hx, hpos, if_false]
  apply UInt16.toNat_inj.mp
  rw [hsent, hsent]
  split <;> split <;> omega

theorem ChecksumOf.sent {cs : UInt16} {s : ℕ} (h : ChecksumOf cs s) :
    ChecksumOf (sentChecksum cs) s := by
  unfold sentChecksum
  by_cases hcs : cs = 0
  · subst hcs
    exact Nat.ModEq.trans (Nat.modEq_zero_iff_dvd.mpr (Nat.dvd_refl 65535)).symm h
  · simpa [hcs] using h

/-! ## Computed checksums -/

theorem complement_ne {cs : UInt16} {f : ℕ} (hpos : 0 < f) (hle : f ≤ 65535)
    (h : cs.toNat = 65535 - f) : cs ≠ 0xffff := by
  rintro rfl
  have hmax : (0xffff : UInt16).toNat = 65535 := rfl
  omega

theorem internetChecksum_of {data : Bytes} (hdata : data.length ≤ 0xffff)
    (hpos : 0 < wordSum data) : ChecksumOf (internetChecksum data) (wordSum data) ∧
      internetChecksum data ≠ 0xffff := by
  obtain ⟨f, hf, hle, hmod, hcs⟩ := internetChecksum_spec hdata hpos
  refine ⟨?_, complement_ne hf hle hcs⟩
  unfold ChecksumOf
  rw [hcs, Nat.sub_sub_self hle]
  exact hmod

theorem wordSum_pseudo {proto : UInt8} {n : ℕ} (h : n ≤ 0xffff) :
    wordSum [0, proto, (n >>> 8).toUInt8, n.toUInt8] = proto.toNat + n := by
  have hlo : (n.toUInt8).toNat = n % 256 := rfl
  have hhi : ((n >>> 8).toUInt8).toNat = n / 256 % 256 := by
    show (n >>> 8) % 256 = _
    rw [Nat.shiftRight_eq_div_pow]
  simp only [wordSum, be16_toNat, hlo, hhi, UInt8.toNat_zero]
  omega

/-- The sum an IPv4 L4 checksum complements. -/
def l4Sum (src dst : IpAddr) (proto : UInt8) (l4 : Bytes) : ℕ :=
  wordSum (src.bytes.take 4) + wordSum (dst.bytes.take 4) + (proto.toNat + l4.length) + wordSum l4

theorem l4Checksum_of {src dst : IpAddr} {proto : UInt8} {l4 : Bytes} (hsrc : src.isV4 = true)
    (hproto : 0 < proto.toNat) (hlen : l4.length ≤ 0xffff) :
    ChecksumOf (l4Checksum src dst proto l4) (l4Sum src dst proto l4) ∧
      l4Checksum src dst proto l4 ≠ 0xffff := by
  have htake : ∀ a : IpAddr, (a.bytes.take 4).length ≤ 0xffff := fun a => by
    rw [List.length_take]
    omega
  have hpseudo := @wordSum_pseudo proto _ hlen
  obtain ⟨hle₁, hmod₁, -⟩ := checksumPartial_spec (src.bytes.take 4) 0 (htake src) (by decide)
  unfold l4Checksum
  simp only [hsrc, if_true]
  generalize checksumPartial (src.bytes.take 4) 0 = sum₁ at hle₁ hmod₁ ⊢
  obtain ⟨hle₂, hmod₂, -⟩ := checksumPartial_spec (dst.bytes.take 4) sum₁ (htake dst) hle₁
  generalize checksumPartial (dst.bytes.take 4) sum₁ = sum₂ at hle₂ hmod₂ ⊢
  obtain ⟨hle₃, hmod₃, hpos₃⟩ := checksumPartial_spec
    [0, proto, (l4.length >>> 8).toUInt8, l4.length.toUInt8] sum₂ (by simp) hle₂
  generalize checksumPartial [0, proto, (l4.length >>> 8).toUInt8, l4.length.toUInt8] sum₂ = sum₃
    at hle₃ hmod₃ hpos₃ ⊢
  obtain ⟨hle₄, hmod₄, hpos₄⟩ := checksumPartial_spec l4 sum₃ hlen hle₃
  generalize checksumPartial l4 sum₃ = sum₄ at hle₄ hmod₄ hpos₄ ⊢
  have hcs : (checksumFinal sum₄).toNat = 65535 - sum₄.toNat := by
    rw [checksumFinal_toNat, foldCarry_fixed hle₄]
  rw [hpseudo] at hmod₃ hpos₃
  have hpos : 0 < sum₄.toNat := hpos₄ (by have := hpos₃ (by omega); omega)
  refine ⟨?_, complement_ne hpos hle₄ hcs⟩
  unfold ChecksumOf l4Sum
  rw [hcs, Nat.sub_sub_self hle₄]
  rw [show (0 : UInt32).toNat = 0 from rfl, Nat.zero_add] at hmod₁
  calc sum₄.toNat ≡ sum₃.toNat + wordSum l4 [MOD 65535] := hmod₄
    _ ≡ sum₂.toNat + (proto.toNat + l4.length) + wordSum l4 [MOD 65535] := hmod₃.add_right _
    _ ≡ sum₁.toNat + wordSum (dst.bytes.take 4) + (proto.toNat + l4.length) + wordSum l4
        [MOD 65535] := (hmod₂.add_right _).add_right _
    _ ≡ _ [MOD 65535] := ((hmod₁.add_right _).add_right _).add_right _

/-! ## Built packets -/

theorem putAt_append (pre old new post : Bytes) {off : ℕ} (hoff : off = pre.length)
    (hlen : new.length = old.length) : putAt (pre ++ (old ++ post)) off new = pre ++ (new ++ post) := by
  unfold putAt
  rw [hoff, List.take_left, hlen, ← List.drop_drop, List.drop_left, List.drop_left,
    List.append_assoc]

/-- The address a rewrite replaces, and the pair of addresses it leaves. -/
def oldAddr (isSrc : Bool) (src dst : IpAddr) : Ipv4Addr := if isSrc then src.toIpv4 else dst.toIpv4

def newSrc (isSrc : Bool) (src : IpAddr) (new : Ipv4Addr) : IpAddr :=
  if isSrc then new.toIpAddr else src

def newDst (isSrc : Bool) (dst : IpAddr) (new : Ipv4Addr) : IpAddr :=
  if isSrc then dst else new.toIpAddr

theorem IpAddr.take_four (a : IpAddr) : a.bytes.take 4 = a.toIpv4.octets := by
  obtain ⟨_, bytes, hsize⟩ := a
  match bytes, hsize with
  | b0 :: b1 :: b2 :: b3 :: _, _ => rfl

theorem wordSum_newAddr (isSrc : Bool) (src dst : IpAddr) (new : Ipv4Addr) :
    wordSum (src.bytes.take 4) + wordSum (dst.bytes.take 4) + wordSum new.octets =
      wordSum ((newSrc isSrc src new).bytes.take 4) + wordSum ((newDst isSrc dst new).bytes.take 4) +
        wordSum (oldAddr isSrc src dst).octets := by
  have hnew : new.toIpAddr.bytes.take 4 = new.octets := rfl
  cases isSrc
  · simp only [newSrc, newDst, oldAddr, Bool.false_eq_true, if_false, hnew, IpAddr.take_four]
    omega
  · simp only [newSrc, newDst, oldAddr, if_true, hnew, IpAddr.take_four]
    omega

/-- The fields of the header in front of its checksum. -/
def ipv4Fixed (total : UInt16) (proto : UInt8) : Bytes :=
  [0x45, 0] ++ putBe16 total ++ [0, 0, 0x40, 0, 64, proto]

theorem ipv4Bytes_append (total : UInt16) (proto : UInt8) (src dst : IpAddr) (cs : UInt16)
    (l4 : Bytes) : ipv4Bytes total proto src dst cs ++ l4 = ipv4Fixed total proto ++
      (putBe16 cs ++ (src.toIpv4.octets ++ (dst.toIpv4.octets ++ l4))) := by
  simp only [ipv4Bytes, ipv4Fixed, List.append_assoc, IpAddr.take_four]

theorem putAt_header (total : UInt16) (proto : UInt8) (src dst : IpAddr) (cs cs' : UInt16)
    (l4 : Bytes) (new : Ipv4Addr) (isSrc : Bool) :
    putAt (putAt (ipv4Bytes total proto src dst cs ++ l4) 10 (putBe16 cs'))
        (if isSrc then 12 else 16) new.octets =
      ipv4Bytes total proto (newSrc isSrc src new) (newDst isSrc dst new) cs' ++ l4 := by
  have hnew : new.toIpAddr.toIpv4 = new := rfl
  have hcs := fun post => @putAt_append (ipv4Fixed total proto) (putBe16 cs) (putBe16 cs') post 10
    rfl rfl
  have hsrc := fun post => @putAt_append (ipv4Fixed total proto ++ putBe16 cs') src.toIpv4.octets
    new.octets post 12 rfl rfl
  have hdst := fun post => @putAt_append
    (ipv4Fixed total proto ++ (putBe16 cs' ++ src.toIpv4.octets)) dst.toIpv4.octets new.octets post 16
    rfl rfl
  simp only [List.append_assoc] at hsrc hdst
  rw [ipv4Bytes_append, ipv4Bytes_append, hcs]
  cases isSrc
  · simp only [newSrc, newDst, Bool.false_eq_true, if_false, hnew, hdst]
  · simp only [newSrc, newDst, if_true, hnew, hsrc]

theorem octetsAt_header (total : UInt16) (proto : UInt8) (src dst : IpAddr) (cs : UInt16)
    (l4 : Bytes) (isSrc : Bool) :
    octetsAt (ipv4Bytes total proto src dst cs ++ l4) (if isSrc then 12 else 16) =
      oldAddr isSrc src dst := by
  rw [ipv4Bytes_append]
  cases isSrc <;> rfl

theorem rewriteV4Addr_ipv4Bytes {total : UInt16} {proto : UInt8} {src dst : IpAddr} {ipCs : UInt16}
    {l4 : Bytes} {new : Ipv4Addr} {isSrc : Bool} (hne : oldAddr isSrc src dst ≠ new) :
    rewriteV4Addr (ipv4Bytes total proto src dst ipCs ++ l4) new isSrc =
      rewriteL4 (ipv4Bytes total proto (newSrc isSrc src new) (newDst isSrc dst new)
        (csumUpdateAddr ipCs (oldAddr isSrc src dst) new) ++ l4) 20 proto (oldAddr isSrc src dst)
        new := by
  have hlen : 20 ≤ (ipv4Bytes total proto src dst ipCs ++ l4).length := by
    rw [List.length_append, ipv4Bytes_length]
    omega
  have hver : (ipv4Bytes total proto src dst ipCs ++ l4).getD 0 0 = 0x45 := rfl
  have hproto : (ipv4Bytes total proto src dst ipCs ++ l4).getD 9 0 = proto := rfl
  have hfield : be16 ((ipv4Bytes total proto src dst ipCs ++ l4).drop 10) = ipCs :=
    be16_putBe16 ipCs
  have hfour : ((0x45 : UInt8) >>> 4 != 4) = false := by decide
  have hihl : ((0x45 : UInt8) &&& 0x0f).toNat * 4 = 20 := by decide
  unfold rewriteV4Addr
  simp only [octetsAt_header, putAt_header, hver, hproto, hfield, hfour, hihl, Bool.false_eq_true,
    if_false]
  rw [if_neg (by omega), if_neg (by omega), if_neg (by simpa using hne)]

theorem rewriteL4_tcp {hdr : Bytes} (hhdr : hdr.length = 20) (b : TcpBuild) (cs : UInt16)
    (old new : Ipv4Addr) : rewriteL4 (hdr ++ tcpBytes b cs) 20 L4.tcp.code old new =
      (true, hdr ++ tcpBytes b (csumUpdateAddr cs old new)) := by
  have hlen := tcpBytes_length b cs
  obtain ⟨pre, post, hpre, hsplit⟩ : ∃ pre post : Bytes, pre.length = 16 ∧
      ∀ cs, tcpBytes b cs = pre ++ (putBe16 cs ++ post) := by
    refine ⟨putBe16 b.srcPort ++ putBe16 b.dstPort ++ putBe32 b.seq ++ putBe32 b.ack ++
      [(((20 + b.options.length) / 4) <<< 4).toUInt8, b.flags] ++ putBe16 b.window,
      putBe16 0 ++ b.options ++ b.payload, rfl, fun cs => ?_⟩
    simp only [tcpBytes, List.append_assoc]
  have hfield : be16 ((hdr ++ tcpBytes b cs).drop (20 + 16)) = cs := by
    rw [← List.drop_drop, List.drop_left' hhdr, hsplit, List.drop_left' hpre, be16_append]
  have hput := @putAt_append (hdr ++ pre) (putBe16 cs) (putBe16 (csumUpdateAddr cs old new)) post
    (20 + 16) (by rw [List.length_append, hhdr, hpre]) rfl
  unfold rewriteL4
  simp only [L4.code, beq_self_eq_true, if_true, hfield]
  rw [if_neg (by rw [List.length_append]; omega)]
  simp only [hsplit, List.append_assoc] at hput ⊢
  rw [hput]

theorem udpBytes_length (b : UdpBuild) (cs : UInt16) :
    (udpBytes b cs).length = 8 + b.payload.length := by
  simp only [udpBytes, putBe16, List.length_append, List.length_cons, List.length_nil]

theorem rewriteL4_udp {hdr : Bytes} (hhdr : hdr.length = 20) (b : UdpBuild) {cs : UInt16}
    (hcs : cs ≠ 0) (old new : Ipv4Addr) : rewriteL4 (hdr ++ udpBytes b cs) 20 L4.udp.code old new =
      (true, hdr ++ udpBytes b (sentChecksum (csumUpdateAddr cs old new))) := by
  have hlen := udpBytes_length b cs
  obtain ⟨pre, post, hpre, hsplit⟩ : ∃ pre post : Bytes, pre.length = 6 ∧
      ∀ cs, udpBytes b cs = pre ++ (putBe16 cs ++ post) := by
    refine ⟨putBe16 b.srcPort ++ putBe16 b.dstPort ++ putBe16 (8 + b.payload.length).toUInt16,
      b.payload, rfl, fun cs => ?_⟩
    simp only [udpBytes, List.append_assoc]
  have hfield : be16 ((hdr ++ udpBytes b cs).drop (20 + 6)) = cs := by
    rw [← List.drop_drop, List.drop_left' hhdr, hsplit, List.drop_left' hpre, be16_append]
  have hput := @putAt_append (hdr ++ pre) (putBe16 cs)
    (putBe16 (sentChecksum (csumUpdateAddr cs old new))) post (20 + 6)
    (by rw [List.length_append, hhdr, hpre]) rfl
  have hudp : (L4.udp.code == 6) = false := by decide
  unfold rewriteL4
  rw [hudp]
  simp only [L4.code, beq_self_eq_true, Bool.false_eq_true, if_true, if_false, hfield]
  rw [if_neg (by rw [List.length_append]; omega), if_pos (by simpa using hcs)]
  simp only [hsplit, List.append_assoc] at hput ⊢
  rw [hput]

/-! ## Rebuilding -/

section Rebuild

variable (isSrc : Bool) (src dst : IpAddr) (new : Ipv4Addr)

theorem headerChecksum_update (total : UInt16) (proto : UInt8) :
    csumUpdateAddr (internetChecksum (ipv4Bytes total proto src dst 0)) (oldAddr isSrc src dst) new =
      internetChecksum
        (ipv4Bytes total proto (newSrc isSrc src new) (newDst isSrc dst new) 0) := by
  have hspec : ∀ a z, ChecksumOf (internetChecksum (ipv4Bytes total proto a z 0))
      (wordSum (ipv4Bytes total proto a z 0)) ∧
      internetChecksum (ipv4Bytes total proto a z 0) ≠ 0xffff := by
    intro a z
    apply internetChecksum_of
    · rw [ipv4Bytes_length]
      decide
    · rw [wordSum_ipv4Bytes]
      omega
  obtain ⟨hof, hne⟩ := hspec src dst
  obtain ⟨hof', hne'⟩ := hspec (newSrc isSrc src new) (newDst isSrc dst new)
  have hsum := wordSum_newAddr isSrc src dst new
  refine (hof.updateAddr ?_).unique hof' (csumUpdateAddr_ne hne _ _) hne'
  rw [wordSum_ipv4Bytes, wordSum_ipv4Bytes]
  omega

variable {src}

theorem newSrc_isV4 (hsrc : src.isV4 = true) : (newSrc isSrc src new).isV4 = true := by
  cases isSrc
  · exact hsrc
  · rfl

theorem newDst_isV4 {dst : IpAddr} (hdst : dst.isV4 = true) : (newDst isSrc dst new).isV4 = true := by
  cases isSrc
  · rfl
  · exact hdst

theorem l4Checksum_update {proto : UInt8} {l4 : Bytes} (hsrc : src.isV4 = true)
    (hproto : 0 < proto.toNat) (hlen : l4.length ≤ 0xffff) {cs : UInt16}
    (hcs : ChecksumOf cs (l4Sum src dst proto l4)) :
    ChecksumOf (csumUpdateAddr cs (oldAddr isSrc src dst) new)
        (l4Sum (newSrc isSrc src new) (newDst isSrc dst new) proto l4) ∧
      ChecksumOf (l4Checksum (newSrc isSrc src new) (newDst isSrc dst new) proto l4)
        (l4Sum (newSrc isSrc src new) (newDst isSrc dst new) proto l4) := by
  have hsum := wordSum_newAddr isSrc src dst new
  refine ⟨hcs.updateAddr ?_, (l4Checksum_of (newSrc_isV4 isSrc new hsrc) hproto hlen).1⟩
  unfold l4Sum
  omega

variable {isSrc dst new}

theorem readdress_same (h : oldAddr isSrc src dst = new) :
    (newSrc isSrc src new).bytes.take 4 = src.bytes.take 4 ∧
      (newDst isSrc dst new).bytes.take 4 = dst.bytes.take 4 := by
  subst h
  cases isSrc
  · exact ⟨rfl, (IpAddr.take_four dst).symm⟩
  · exact ⟨(IpAddr.take_four src).symm, rfl⟩

theorem writeIpv4Header_same (h : oldAddr isSrc src dst = new) (total : UInt16) (proto : UInt8) :
    writeIpv4Header total proto (newSrc isSrc src new) (newDst isSrc dst new) =
      writeIpv4Header total proto src dst := by
  obtain ⟨hs, hd⟩ := readdress_same h
  simp only [writeIpv4Header, ipv4Bytes, hs, hd]

theorem l4Checksum_same (h : oldAddr isSrc src dst = new) (hsrc : src.isV4 = true) (proto : UInt8)
    (l4 : Bytes) : l4Checksum (newSrc isSrc src new) (newDst isSrc dst new) proto l4 =
      l4Checksum src dst proto l4 := by
  obtain ⟨hs, hd⟩ := readdress_same h
  simp only [l4Checksum, hs, hd, hsrc, newSrc_isV4 isSrc new hsrc, if_true]

theorem rewriteV4Addr_same {total : UInt16} {proto : UInt8} {ipCs : UInt16} {l4 : Bytes}
    (h : oldAddr isSrc src dst = new) :
    rewriteV4Addr (ipv4Bytes total proto src dst ipCs ++ l4) new isSrc =
      (true, ipv4Bytes total proto src dst ipCs ++ l4) := by
  have hlen : 20 ≤ (ipv4Bytes total proto src dst ipCs ++ l4).length := by
    rw [List.length_append, ipv4Bytes_length]
    omega
  have hver : (ipv4Bytes total proto src dst ipCs ++ l4).getD 0 0 = 0x45 := rfl
  have hfour : ((0x45 : UInt8) >>> 4 != 4) = false := by decide
  have hihl : ((0x45 : UInt8) &&& 0x0f).toNat * 4 = 20 := by decide
  unfold rewriteV4Addr
  simp only [octetsAt_header, hver, hfour, hihl, Bool.false_eq_true, if_false]
  rw [if_neg (by omega), if_neg (by omega), if_pos (by simpa using h)]

theorem buildTcp_rewrite {outLen : ℕ} {b : TcpBuild} {pkt : Bytes} (h : buildTcp outLen b = some pkt)
    (isSrc : Bool) (new : Ipv4Addr) : ∃ pkt', buildTcp outLen { b with
      src := newSrc isSrc b.src new, dst := newDst isSrc b.dst new } = some pkt' ∧
        rewriteV4Addr pkt new isSrc = (true, pkt') := by
  obtain ⟨hsrc, hdst, hopts, hbig, hlen, rfl⟩ := buildTcp_some h
  have hseg : (tcpBytes b 0).length ≤ 0xffff := by
    rw [tcpBytes_length]
    omega
  refine ⟨_, buildTcp_fits (newSrc_isV4 isSrc new hsrc) (newDst_isV4 isSrc new hdst) hopts hlen hbig,
    ?_⟩
  obtain ⟨hof, hne⟩ := @l4Checksum_of b.src b.dst L4.tcp.code _ hsrc (by decide) hseg
  show rewriteV4Addr (writeIpv4Header _ _ _ _ ++ tcpBytes b _) new isSrc =
    (true, writeIpv4Header _ _ _ _ ++ tcpBytes b (l4Checksum (newSrc isSrc b.src new)
      (newDst isSrc b.dst new) L4.tcp.code (tcpBytes b 0)))
  by_cases hold : oldAddr isSrc b.src b.dst = new
  · rw [writeIpv4Header_same hold, l4Checksum_same hold hsrc]
    exact rewriteV4Addr_same hold
  · unfold writeIpv4Header
    rw [rewriteV4Addr_ipv4Bytes hold, rewriteL4_tcp (ipv4Bytes_length _ _ _ _ _),
      headerChecksum_update]
    obtain ⟨hup, hnew⟩ := l4Checksum_update isSrc b.dst new hsrc (by decide) hseg hof
    rw [hup.unique hnew (csumUpdateAddr_ne hne _ _)
      (l4Checksum_of (newSrc_isV4 isSrc new hsrc) (by decide) hseg).2]

theorem buildUdp_fits {outLen : ℕ} {b : UdpBuild} (hsrc : b.src.isV4 = true)
    (hdst : b.dst.isV4 = true) (hlen : 28 + b.payload.length ≤ outLen)
    (hbig : 28 + b.payload.length ≤ 0xffff) :
    buildUdp outLen b = some (writeIpv4Header (28 + b.payload.length).toUInt16 L4.udp.code b.src b.dst
      ++ udpBytes b (sentChecksum (l4Checksum b.src b.dst L4.udp.code (udpBytes b 0)))) := by
  have htotal : 20 + (8 + b.payload.length) = 28 + b.payload.length := by omega
  unfold buildUdp
  simp only [hsrc, hdst, htotal, Bool.not_true, Bool.or_self, Bool.false_eq_true, if_false]
  rw [if_neg (by omega), if_neg (by simp; omega)]

theorem buildUdp_some {outLen : ℕ} {b : UdpBuild} {pkt : Bytes} (h : buildUdp outLen b = some pkt) :
    b.src.isV4 = true ∧ b.dst.isV4 = true ∧ 28 + b.payload.length ≤ outLen ∧
      28 + b.payload.length ≤ 0xffff := by
  unfold buildUdp at h
  simp only at h
  by_cases hv4 : (!b.src.isV4 || !b.dst.isV4) = true
  · rw [if_pos hv4] at h
    cases h
  · rw [if_neg hv4] at h
    by_cases hout : outLen < 20 + (8 + b.payload.length)
    · rw [if_pos hout] at h
      cases h
    · rw [if_neg hout] at h
      by_cases hbig : (8 + b.payload.length > 0xffff || 20 + (8 + b.payload.length) > 0xffff) = true
      · rw [if_pos hbig] at h
        cases h
      · simp only [Bool.or_eq_true, Bool.not_eq_true', decide_eq_true_eq, not_or,
          Bool.not_eq_false] at hv4 hbig
        exact ⟨hv4.1, hv4.2, by omega, by omega⟩

theorem sentChecksum_ne (cs : UInt16) : sentChecksum cs ≠ 0 := by
  unfold sentChecksum
  by_cases hcs : cs = 0
  · rw [hcs]
    decide
  · simp [hcs]

theorem buildUdp_rewrite {outLen : ℕ} {b : UdpBuild} {pkt : Bytes} (h : buildUdp outLen b = some pkt)
    (isSrc : Bool) (new : Ipv4Addr) : ∃ pkt', buildUdp outLen { b with
      src := newSrc isSrc b.src new, dst := newDst isSrc b.dst new } = some pkt' ∧
        rewriteV4Addr pkt new isSrc = (true, pkt') := by
  obtain ⟨hsrc, hdst, hlen, hbig⟩ := buildUdp_some h
  have hpkt := Option.some.inj (h.symm.trans (buildUdp_fits hsrc hdst hlen hbig))
  have hseg : (udpBytes b 0).length ≤ 0xffff := by
    rw [udpBytes_length]
    omega
  refine ⟨_, buildUdp_fits (newSrc_isV4 isSrc new hsrc) (newDst_isV4 isSrc new hdst) hlen hbig, ?_⟩
  obtain ⟨hof, -⟩ := @l4Checksum_of b.src b.dst L4.udp.code _ hsrc (by decide) hseg
  rw [hpkt]
  show rewriteV4Addr (writeIpv4Header _ _ _ _ ++ udpBytes b _) new isSrc =
    (true, writeIpv4Header _ _ _ _ ++ udpBytes b (sentChecksum (l4Checksum
      (newSrc isSrc b.src new) (newDst isSrc b.dst new) L4.udp.code (udpBytes b 0))))
  by_cases hold : oldAddr isSrc b.src b.dst = new
  · rw [writeIpv4Header_same hold, l4Checksum_same hold hsrc]
    exact rewriteV4Addr_same hold
  · unfold writeIpv4Header
    rw [rewriteV4Addr_ipv4Bytes hold, rewriteL4_udp (ipv4Bytes_length _ _ _ _ _) b
      (sentChecksum_ne _), headerChecksum_update]
    obtain ⟨hup, hnew⟩ := l4Checksum_update isSrc b.dst new hsrc (by decide) hseg hof.sent
    rw [hup.sent_unique hnew]

end Rebuild

/-! ## UDP without a checksum -/

/-- An IPv4 packet with a whole UDP header at `ihl`. -/
structure IsUdp (pkt : Bytes) (ihl : ℕ) : Prop where
  version : pkt.getD 0 0 >>> 4 = 4
  ihl_eq : ihl = (pkt.getD 0 0 &&& 0x0f).toNat * 4
  header : 20 ≤ ihl
  proto : pkt.getD 9 0 = L4.udp.code
  whole : ihl + 8 ≤ pkt.length

theorem putAt_drop {pkt bs : Bytes} {off n : ℕ} (hn : off + bs.length ≤ n) (hlen : n ≤ pkt.length) :
    (putAt pkt off bs).drop n = pkt.drop n := by
  have hpre : (pkt.take off ++ bs).length = off + bs.length := by
    rw [List.length_append, List.length_take]
    omega
  unfold putAt
  obtain ⟨k, rfl⟩ := Nat.exists_eq_add_of_le hn
  rw [← List.drop_drop, List.drop_left' hpre, List.drop_drop]

theorem putAt_length {pkt bs : Bytes} {off : ℕ} (h : off + bs.length ≤ pkt.length) :
    (putAt pkt off bs).length = pkt.length := by
  unfold putAt
  rw [List.length_append, List.length_append, List.length_take, List.length_drop]
  omega

/-- A zero checksum is left alone, and all of the datagram with it. -/
theorem rewriteV4Addr_udp_zero {pkt : Bytes} {ihl : ℕ} (h : IsUdp pkt ihl)
    (hzero : be16 (pkt.drop (ihl + 6)) = 0) (new : Ipv4Addr) (isSrc : Bool) :
    (rewriteV4Addr pkt new isSrc).1 = true ∧
      (rewriteV4Addr pkt new isSrc).2.drop ihl = pkt.drop ihl := by
  have hhdr := h.header
  have hwhole := h.whole
  have hver : (pkt.getD 0 0 >>> 4 != 4) = false := by simpa using h.version
  obtain ⟨off, hoff⟩ : ∃ off, (if isSrc then 12 else 16) = off := ⟨_, rfl⟩
  have hin : off + 4 ≤ 20 := by
    rw [← hoff]
    cases isSrc <;> decide
  unfold rewriteV4Addr
  simp only [hver, ← h.ihl_eq, hoff, h.proto, Bool.false_eq_true, if_false]
  rw [if_neg (by omega), if_neg (by omega)]
  by_cases hsame : octetsAt pkt off = new
  · simp [hsame]
  · rw [if_neg (by simpa using hsame)]
    generalize csumUpdateAddr (be16 (pkt.drop 10)) (octetsAt pkt off) new = cs
    have hoct : new.octets.length = 4 := rfl
    have hword : (putBe16 cs).length = 2 := rfl
    have hlen₁ := @putAt_length pkt (putBe16 cs) 10 (by omega)
    have hlen := @putAt_length (putAt pkt 10 (putBe16 cs)) new.octets off (by omega)
    have hdrop : ∀ n, 20 ≤ n → n ≤ pkt.length →
        (putAt (putAt pkt 10 (putBe16 cs)) off new.octets).drop n = pkt.drop n := by
      intro n hn hle
      rw [putAt_drop (by omega) (by omega), putAt_drop (by omega) hle]
    have hudp : (L4.udp.code == 6) = false := by decide
    unfold rewriteL4
    rw [hudp]
    simp only [L4.code, beq_self_eq_true, Bool.false_eq_true, if_true, if_false, hlen,
      hdrop _ (show 20 ≤ ihl + 6 by omega) (by omega), hzero, bne_self_eq_false]
    rw [if_neg (by omega)]
    exact ⟨rfl, hdrop ihl hhdr (by omega)⟩

/-- A rewrite leaves what the builder writes for the new address, and no checksum where there was
none. -/
theorem rewrite_equals_rebuild :
    (∀ outLen b pkt, buildTcp outLen b = some pkt → ∀ new : Ipv4Addr,
      (∃ pkt', buildTcp outLen { b with src := new.toIpAddr } = some pkt' ∧
        rewriteV4Src pkt new = (true, pkt')) ∧
      (∃ pkt', buildTcp outLen { b with dst := new.toIpAddr } = some pkt' ∧
        rewriteV4Dst pkt new = (true, pkt'))) ∧
    (∀ outLen b pkt, buildUdp outLen b = some pkt → ∀ new : Ipv4Addr,
      (∃ pkt', buildUdp outLen { b with src := new.toIpAddr } = some pkt' ∧
        rewriteV4Src pkt new = (true, pkt')) ∧
      (∃ pkt', buildUdp outLen { b with dst := new.toIpAddr } = some pkt' ∧
        rewriteV4Dst pkt new = (true, pkt'))) ∧
    (∀ pkt ihl, IsUdp pkt ihl → be16 (pkt.drop (ihl + 6)) = 0 → ∀ new : Ipv4Addr,
      ((rewriteV4Src pkt new).1 = true ∧ be16 ((rewriteV4Src pkt new).2.drop (ihl + 6)) = 0) ∧
      ((rewriteV4Dst pkt new).1 = true ∧ be16 ((rewriteV4Dst pkt new).2.drop (ihl + 6)) = 0)) := by
  refine ⟨fun outLen b pkt h new => ?_, fun outLen b pkt h new => ?_, fun pkt ihl h hzero new => ?_⟩
  · exact ⟨buildTcp_rewrite h true new, buildTcp_rewrite h false new⟩
  · exact ⟨buildUdp_rewrite h true new, buildUdp_rewrite h false new⟩
  · have hkept : ∀ isSrc, (rewriteV4Addr pkt new isSrc).1 = true ∧
        be16 ((rewriteV4Addr pkt new isSrc).2.drop (ihl + 6)) = 0 := by
      intro isSrc
      obtain ⟨htrue, hdrop⟩ := rewriteV4Addr_udp_zero h hzero new isSrc
      refine ⟨htrue, ?_⟩
      rw [← List.drop_drop, hdrop, List.drop_drop]
      exact hzero
    exact ⟨hkept true, hkept false⟩

/-- A datagram from `255.255.0.2` whose sum is a zero, sent as `0xffff`. -/
def zeroSumUdp : UdpBuild :=
  ⟨.v4FromBytes 255 255 0 2, .v4FromBytes 8 8 8 8, 30613, 53, [120]⟩

def zeroSumPacket : Bytes := (buildUdp 64 zeroSumUdp).getD []

/-- A SYN from `10.8.0.2`. -/
def sampleSyn : TcpBuild :=
  ⟨.v4FromBytes 10 8 0 2, .v4FromBytes 8 8 8 8, 12345, 80, 1, 0, TCP_SYN, 65535, [], [104]⟩

def sampleSynPacket : Bytes := (buildTcp 64 sampleSyn).getD []

/-- The first word of the address goes from one zero to the other, in a packet with a checksum and
in the same packet without. -/
theorem rewrite_equals_rebuild_zero_sum :
    be16 (zeroSumPacket.drop 26) = 0xffff ∧
    (∃ pkt, buildUdp 64 { zeroSumUdp with src := .v4FromBytes 0 0 0 2 } = some pkt ∧
      rewriteV4Src zeroSumPacket ⟨0, 0, 0, 2⟩ = (true, pkt)) ∧
    be16 ((rewriteV4Src (putAt zeroSumPacket 26 [0, 0]) ⟨0, 0, 0, 2⟩).2.drop 26) = 0 ∧
    ∃ pkt, buildTcp 64 { sampleSyn with src := .v4FromBytes 10 8 0 42 } = some pkt ∧
      rewriteV4Src sampleSynPacket ⟨10, 8, 0, 42⟩ = (true, pkt) := by
  have hudp : buildUdp 64 zeroSumUdp = some zeroSumPacket := by decide +kernel
  have htcp : buildTcp 64 sampleSyn = some sampleSynPacket := by decide +kernel
  have hopted : IsUdp (putAt zeroSumPacket 26 [0, 0]) 20 :=
    ⟨by decide +kernel, by decide +kernel, by decide, by decide +kernel, by decide +kernel⟩
  obtain ⟨hrebuildTcp, hrebuildUdp, hkeep⟩ := rewrite_equals_rebuild
  exact ⟨by decide +kernel, (hrebuildUdp 64 _ _ hudp ⟨0, 0, 0, 2⟩).1,
    (hkeep _ 20 hopted (by decide +kernel) ⟨0, 0, 0, 2⟩).1.2,
    (hrebuildTcp 64 _ _ htcp ⟨10, 8, 0, 42⟩).1⟩

end BaleVpn.Net
