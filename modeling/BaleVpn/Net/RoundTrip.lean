import BaleVpn.Net.Checksum

/-!
# What `build_tcp` writes

`IpPacket.parse` and the `TcpHeader` accessors read back what `build_tcp` was given, as long as the
options fit the data offset: a header of more than 60 bytes overflows its four bits.
-/

namespace BaleVpn.Net

open Lib

/-! ## The segment -/

section Segment

variable (b : TcpBuild) (cs : UInt16)

theorem tcpBytes_seq : TcpHeader.seq (tcpBytes b cs) = b.seq := be32_putBe32 b.seq

theorem tcpBytes_ack : TcpHeader.ack (tcpBytes b cs) = b.ack := be32_putBe32 b.ack

theorem tcpBytes_flags : TcpHeader.flags (tcpBytes b cs) = b.flags := rfl

theorem tcpBytes_window : TcpHeader.window (tcpBytes b cs) = b.window := be16_putBe16 b.window

theorem tcpBytes_length :
    (tcpBytes b cs).length = 20 + b.options.length + b.payload.length := by
  simp only [tcpBytes, putBe16, putBe32, List.length_append, List.length_cons, List.length_nil]

theorem tcpBytes_drop : (tcpBytes b cs).drop 20 = b.options ++ b.payload := by
  simp [tcpBytes, putBe16, putBe32]

variable {b}

theorem tcpBytes_dataOff (h : b.options.length ≤ 40) (h4 : b.options.length % 4 = 0) :
    TcpHeader.dataOff (tcpBytes b cs) = 20 + b.options.length := by
  have hbyte : (tcpBytes b cs).getD 12 0 = (((20 + b.options.length) / 4) <<< 4).toUInt8 := rfl
  unfold TcpHeader.dataOff
  rw [hbyte]
  simp only [UInt8.toNat_shiftRight, Nat.toUInt8, UInt8.toNat_ofNat', Nat.shiftLeft_eq,
    Nat.shiftRight_eq_div_pow, UInt8.toNat_ofNat, Nat.reducePow, Nat.reduceMod]
  omega

end Segment

/-! ## Building -/

theorem buildTcp_fits {outLen : ℕ} {b : TcpBuild} (hsrc : b.src.isV4 = true)
    (hdst : b.dst.isV4 = true) (hopts : b.options.length % 4 = 0)
    (hlen : 40 + b.options.length + b.payload.length ≤ outLen)
    (hbig : 40 + b.options.length + b.payload.length ≤ 0xffff) :
    buildTcp outLen b = some (writeIpv4Header (40 + b.options.length + b.payload.length).toUInt16
      L4.tcp.code b.src b.dst ++ tcpBytes b (l4Checksum b.src b.dst L4.tcp.code (tcpBytes b 0))) := by
  have htotal : 20 + (20 + b.options.length + b.payload.length) =
      40 + b.options.length + b.payload.length := by omega
  unfold buildTcp
  simp only [hsrc, hdst, hopts, htotal, Bool.not_true, Bool.or_self, Bool.false_eq_true, if_false,
    bne_self_eq_false]
  rw [if_neg (by omega), if_neg (by simp; omega)]

theorem buildTcp_eq_some {outLen : ℕ} {b : TcpBuild} (hsrc : b.src.isV4 = true)
    (hdst : b.dst.isV4 = true) (hopts : b.options.length % 4 = 0)
    (hlen : 40 + b.options.length + b.payload.length ≤ outLen) (hout : outLen ≤ 0xffff) :
    ∃ pkt, buildTcp outLen b = some pkt :=
  ⟨_, buildTcp_fits hsrc hdst hopts hlen (hlen.trans hout)⟩

theorem buildTcp_some {outLen : ℕ} {b : TcpBuild} {pkt : Bytes} (h : buildTcp outLen b = some pkt) :
    b.src.isV4 = true ∧ b.dst.isV4 = true ∧ b.options.length % 4 = 0 ∧
      40 + b.options.length + b.payload.length ≤ 0xffff ∧
      40 + b.options.length + b.payload.length ≤ outLen ∧
      pkt = writeIpv4Header (40 + b.options.length + b.payload.length).toUInt16 L4.tcp.code b.src
        b.dst ++ tcpBytes b (l4Checksum b.src b.dst L4.tcp.code (tcpBytes b 0)) := by
  have htotal : 20 + (20 + b.options.length + b.payload.length) =
      40 + b.options.length + b.payload.length := by omega
  unfold buildTcp at h
  simp only [htotal] at h
  split at h
  · cases h
  · rename_i hv4
    split at h
    · cases h
    · rename_i hopts
      split at h
      · cases h
      · rename_i hout
        split at h
        · cases h
        · rename_i hbig
          simp only [Bool.or_eq_true, decide_eq_true_eq, Bool.not_eq_true'] at hbig hv4
          refine ⟨?_, ?_, ?_, by omega, by omega, (Option.some.inj h).symm⟩
          · exact eq_true_of_ne_false fun hc => hv4 (.inl hc)
          · exact eq_true_of_ne_false fun hc => hv4 (.inr hc)
          · simpa using hopts

/-! ## The IPv4 header -/

section Header

variable (total : UInt16) (proto : UInt8) (src dst : IpAddr) (cs : UInt16)

theorem wordSum_ipv4Bytes : wordSum (ipv4Bytes total proto src dst cs) =
    (50432 + total.toNat + proto.toNat) + cs.toNat + wordSum (src.bytes.take 4) +
      wordSum (dst.bytes.take 4) := by
  have hsrc : (src.bytes.take 4).length % 2 = 0 := by
    rw [List.length_take, src.size]
    rfl
  have hfixed : wordSum ([0x45, 0] ++ putBe16 total ++ [0, 0, 0x40, 0, 64, proto]) =
      50432 + total.toNat + proto.toNat := by
    have htotal : (be16 [(total >>> 8).toUInt8, total.toUInt8]).toNat = total.toNat :=
      congrArg UInt16.toNat (be16_putBe16 total)
    simp only [putBe16, List.cons_append, List.nil_append, wordSum, htotal]
    simp only [be16_toNat, UInt8.toNat_ofNat, Nat.reduceMod, Nat.reducePow]
    omega
  have hsplit : ipv4Bytes total proto src dst cs =
      ([0x45, 0] ++ putBe16 total ++ [0, 0, 0x40, 0, 64, proto]) ++
        (putBe16 cs ++ (src.bytes.take 4 ++ dst.bytes.take 4)) := by
    simp only [ipv4Bytes, List.append_assoc]
  rw [hsplit, wordSum_append (by simp [putBe16]), hfixed, wordSum_append (by simp [putBe16]),
    wordSum_append hsrc, wordSum_putBe16]
  omega

theorem ipv4Bytes_length : (ipv4Bytes total proto src dst cs).length = 20 := by
  have hsrc := src.size
  have hdst := dst.size
  simp only [ipv4Bytes, putBe16, List.length_append, List.length_cons, List.length_nil,
    List.length_take]
  omega

theorem writeIpv4Header_length : (writeIpv4Header total proto src dst).length = 20 :=
  ipv4Bytes_length total proto src dst _

theorem internetChecksum_writeIpv4Header :
    internetChecksum (writeIpv4Header total proto src dst) = 0 := by
  have hsplit : ∀ c, ipv4Bytes total proto src dst c =
      ([0x45, 0] ++ putBe16 total ++ [0, 0, 0x40, 0, 64, proto]) ++
        (putBe16 c ++ (src.bytes.take 4 ++ dst.bytes.take 4)) := fun c => by
    simp only [ipv4Bytes, List.append_assoc]
  have hsum := wordSum_ipv4Bytes total proto src dst 0
  have hlen := ipv4Bytes_length total proto src dst 0
  unfold writeIpv4Header
  rw [hsplit] at hsum hlen ⊢
  rw [hsplit]
  exact internetChecksum_fill (by simp [putBe16]) (by omega) (by omega)

end Header

/-! ## Reading back -/

/-- What a receiver reads from a packet is what it was built from, and the options fit. -/
structure ReadsBack (b : TcpBuild) (pkt : Bytes) : Prop where
  fits : b.options.length ≤ 40
  words : b.options.length % 4 = 0
  parsed : ∃ p, IpPacket.parse pkt = some p ∧ p.proto = L4.tcp.code ∧
    TcpHeader.seq p.l4 = b.seq ∧ TcpHeader.ack p.l4 = b.ack ∧ TcpHeader.flags p.l4 = b.flags ∧
    TcpHeader.window p.l4 = b.window ∧ TcpHeader.dataOff p.l4 = 20 + b.options.length ∧
    (p.l4.take (TcpHeader.dataOff p.l4)).drop 20 = b.options ∧
    p.l4.drop (TcpHeader.dataOff p.l4) = b.payload

theorem parse_append {hdr l4 : Bytes} (hhdr : hdr.length = 20) (hver : hdr.getD 0 0 = 0x45)
    (hsum : internetChecksum hdr = 0) (hfield : (be16 (hdr.drop 2)).toNat = 20 + l4.length) :
    IpPacket.parse (hdr ++ l4) = some
      { data := hdr ++ l4, totalLen := 20 + l4.length, l3HdrLen := 20, family := .v4
        proto := hdr.getD 9 0
        ttlHops := hdr.getD 8 0
        ipId := be16 (hdr.drop 4)
        fragOffUnits := be16 (hdr.drop 6) &&& 0x1FFF
        moreFrags := be16 (hdr.drop 6) &&& 0x2000 != 0
        src := addrAt hdr 12
        dst := addrAt hdr 16 } := by
  match hdr, hhdr with
  | [b0, b1, b2, b3, b4, b5, b6, b7, b8, b9, b10, b11, b12, b13, b14, b15, b16, b17, b18, b19], _ =>
    obtain rfl : b0 = 0x45 := hver
    obtain ⟨hdr, hhdr⟩ : ∃ hdr, [0x45, b1, b2, b3, b4, b5, b6, b7, b8, b9, b10, b11, b12, b13, b14,
      b15, b16, b17, b18, b19] = hdr := ⟨_, rfl⟩
    have hlen : (hdr ++ l4).length = 20 + l4.length := by
      rw [← hhdr]
      simp only [List.length_append, List.length_cons, List.length_nil]
    have htake : (hdr ++ l4).take 20 = hdr := List.take_left' (by rw [← hhdr]; rfl)
    have htotal : (be16 ((hdr ++ l4).drop 2)).toNat = 20 + l4.length := by
      rw [← hhdr]
      exact hfield
    have hfirst : (hdr ++ l4).getD 0 0 = 0x45 := by
      rw [← hhdr]
      rfl
    have hne : (hdr ++ l4).isEmpty = false := by
      rw [← hhdr]
      rfl
    have hihl : ((0x45 : UInt8) &&& 0x0f).toNat = 5 := by decide
    have hfour : ((0x45 : UInt8) >>> 4 == 4) = true := by decide
    rw [hhdr] at hsum
    rw [hhdr]
    unfold IpPacket.parse
    simp only [hne, hfirst, hfour, hihl, htotal, hlen, htake, hsum, Bool.false_eq_true, if_false,
      if_true, Nat.reduceMul, bne_self_eq_false]
    rw [if_neg (by omega), if_neg (by simp)]
    rw [← hhdr]
    rfl

theorem l4_append {hdr l4 : Bytes} (hhdr : hdr.length = 20) :
    ((hdr ++ l4).take (20 + l4.length)).drop 20 = l4 := by
  rw [List.take_of_length_le (by rw [List.length_append, hhdr]), List.drop_left' hhdr]

theorem parse_header {total : ℕ} {src dst : IpAddr} {l4 : Bytes} (htotal : total = 20 + l4.length)
    (hbig : total ≤ 0xffff) : ∃ p,
      IpPacket.parse (writeIpv4Header total.toUInt16 L4.tcp.code src dst ++ l4) = some p ∧
        p.proto = L4.tcp.code ∧ p.l4 = l4 := by
  have hhdr := writeIpv4Header_length total.toUInt16 L4.tcp.code src dst
  have hfield : (be16 ((writeIpv4Header total.toUInt16 L4.tcp.code src dst).drop 2)).toNat =
      20 + l4.length := by
    rw [show be16 ((writeIpv4Header total.toUInt16 L4.tcp.code src dst).drop 2) = total.toUInt16 from
      be16_putBe16 total.toUInt16, ← htotal]
    exact Nat.mod_eq_of_lt (by omega)
  refine ⟨_, parse_append hhdr rfl (internetChecksum_writeIpv4Header _ _ _ _) hfield, rfl, ?_⟩
  exact l4_append hhdr

/-- `build_tcp` and the readers agree exactly when the options fit the header. -/
theorem buildTcp_readsBack {outLen : ℕ} {b : TcpBuild} {pkt : Bytes}
    (h : buildTcp outLen b = some pkt) (hopts : b.options.length ≤ 40) : ReadsBack b pkt := by
  obtain ⟨-, -, h4, hbig, -, rfl⟩ := buildTcp_some h
  refine ⟨hopts, h4, ?_⟩
  generalize l4Checksum b.src b.dst L4.tcp.code (tcpBytes b 0) = cs
  have hlen := tcpBytes_length b cs
  obtain ⟨p, hp, hproto, hl4⟩ := @parse_header _ b.src b.dst (tcpBytes b cs)
    (show 40 + b.options.length + b.payload.length = 20 + (tcpBytes b cs).length by omega) hbig
  have hoff := tcpBytes_dataOff cs hopts h4
  refine ⟨p, hp, hproto, ?_⟩
  rw [hl4]
  refine ⟨tcpBytes_seq b cs, tcpBytes_ack b cs, tcpBytes_flags b cs, tcpBytes_window b cs, hoff,
    ?_, ?_⟩
  · rw [hoff, List.drop_take, tcpBytes_drop, Nat.add_sub_cancel_left, List.take_left]
  · rw [hoff, ← List.drop_drop, tcpBytes_drop, List.drop_left]

end BaleVpn.Net
