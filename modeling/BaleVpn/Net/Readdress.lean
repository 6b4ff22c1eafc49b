import BaleVpn.Net.RewriteFrame

/-!
# The addresses of a rewritten packet (`nat/ip_packet.rs`)

`rewrite_v4_addr` writes the L4 checksum last, where the protocol number and the header length say it is.
With a header length below five that may be over an address: over the one just written, and a TCP header
at byte 0 or a UDP header at byte 12 has its checksum in the destination.
-/

namespace BaleVpn.Net

/-! ## Addresses and patches -/

theorem getD_putAt {pkt bs : Bytes} {off : ℕ} (h : off + bs.length ≤ pkt.length) (i : ℕ) :
    (putAt pkt off bs).getD i 0 =
      if InField off bs.length i then bs.getD (i - off) 0 else pkt.getD i 0 := by
  rw [List.getD_eq_getElem?_getD, putAt_getElem? h]
  split <;> rw [List.getD_eq_getElem?_getD]

theorem octetsAt_putAt {pkt bs : Bytes} {off n : ℕ} (hoff : off + bs.length ≤ pkt.length)
    (h : off + bs.length ≤ n ∨ n + 4 ≤ off) : octetsAt (putAt pkt off bs) n = octetsAt pkt n := by
  have hget : ∀ i, n ≤ i → i < n + 4 → (putAt pkt off bs).getD i 0 = pkt.getD i 0 := by
    intro i hi hi'
    rw [getD_putAt hoff, if_neg]
    unfold InField
    omega
  simp only [octetsAt]
  rw [hget n (by omega) (by omega), hget (n + 1) (by omega) (by omega), hget (n + 2) (by omega) (by omega),
    hget (n + 3) (by omega) (by omega)]

theorem octetsAt_putAt_fst {pkt : Bytes} {off : ℕ} (v : UInt16) (h : off + 2 ≤ pkt.length) :
    octetsAt (putAt pkt off (putBe16 v)) off =
      { octetsAt pkt off with o0 := (v >>> 8).toUInt8, o1 := v.toUInt8 } := by
  have hget := @getD_putAt pkt (putBe16 v) off h
  have hword : (putBe16 v).length = 2 := rfl
  rw [hword] at hget
  have h₀ := hget off
  have h₁ := hget (off + 1)
  have h₂ := hget (off + 2)
  have h₃ := hget (off + 3)
  rw [if_pos ⟨by omega, by omega⟩, Nat.sub_self] at h₀
  rw [if_pos ⟨by omega, by omega⟩, Nat.add_sub_cancel_left] at h₁
  rw [if_neg (by unfold InField; omega)] at h₂ h₃
  simp only [octetsAt]
  rw [h₀, h₁, h₂, h₃]
  rfl

theorem octetsAt_putAt_snd {pkt : Bytes} {off : ℕ} (v : UInt16) (h : off + 4 ≤ pkt.length) :
    octetsAt (putAt pkt (off + 2) (putBe16 v)) off =
      { octetsAt pkt off with o2 := (v >>> 8).toUInt8, o3 := v.toUInt8 } := by
  have hget := @getD_putAt pkt (putBe16 v) (off + 2) h
  have hword : (putBe16 v).length = 2 := rfl
  rw [hword] at hget
  have h₀ := hget off
  have h₁ := hget (off + 1)
  have h₂ := hget (off + 2)
  have h₃ := hget (off + 3)
  rw [if_neg (by unfold InField; omega)] at h₀ h₁
  rw [if_pos ⟨by omega, by omega⟩, Nat.sub_self] at h₂
  rw [if_pos ⟨by omega, by omega⟩, show off + 3 - (off + 2) = 1 by omega] at h₃
  simp only [octetsAt]
  rw [h₀, h₁, h₂, h₃]
  rfl

theorem be16_drop {pkt : Bytes} {off : ℕ} (h : off + 2 ≤ pkt.length) :
    be16 (pkt.drop off) = be16 [pkt.getD off 0, pkt.getD (off + 1) 0] := by
  have h₀ : off < pkt.length := by omega
  have h₁ : off + 1 < pkt.length := by omega
  rw [List.drop_eq_getElem_cons h₀, List.drop_eq_getElem_cons h₁, List.getD_eq_getElem?_getD,
    List.getD_eq_getElem?_getD, List.getElem?_eq_getElem h₀, List.getElem?_eq_getElem h₁]
  rfl

/-! ## The rewritten address -/

theorem rewriteL4_true {pkt buf out : Bytes} {old new : Ipv4Addr}
    (h : rewriteL4 buf (headerLen pkt) (pkt.getD 9 0) old new = (true, out)) :
    out = buf ∨ ∃ n v, l4CsumOff pkt = some n ∧ n + 2 ≤ buf.length ∧ out = putAt buf n (putBe16 v) := by
  unfold rewriteL4 at h
  split at h
  · next htcp =>
    split at h
    · cases h
    · next hlen =>
      exact .inr ⟨_, _, by rw [l4CsumOff, if_pos htcp], by omega, (Prod.mk.inj h).2.symm⟩
  · next htcp =>
    split at h
    · next hudp =>
      split at h
      · cases h
      · next hlen =>
        simp only at h
        split at h
        · exact .inr ⟨_, _, by rw [l4CsumOff, if_neg htcp, if_pos hudp], by omega, (Prod.mk.inj h).2.symm⟩
        · exact .inl (Prod.mk.inj h).2.symm
    · exact .inl (Prod.mk.inj h).2.symm

theorem rewriteV4Addr_true {pkt out : Bytes} {new : Ipv4Addr} {isSrc : Bool}
    (h : rewriteV4Addr pkt new isSrc = (true, out)) :
    (octetsAt pkt (addrOff isSrc) = new ∧ out = pkt) ∨
      (Readdresses pkt new isSrc ∧ rewriteL4 (readdressed pkt new isSrc) (headerLen pkt) (pkt.getD 9 0)
        (octetsAt pkt (addrOff isSrc)) new = (true, out)) := by
  by_cases hr : Readdresses pkt new isSrc
  · exact .inr ⟨hr, by rw [← rewriteV4Addr_readdresses hr, h]⟩
  · have hkept := rewriteV4Addr_kept hr
    rw [h] at hkept
    refine .inl ⟨?_, hkept⟩
    by_contra hmoves
    rw [rewriteV4Addr_eq] at h
    split at h
    · cases h
    · next hsize =>
      split at h
      · cases h
      · next hversion =>
        split at h
        · cases h
        · next hheader =>
          exact hr ⟨Nat.not_lt.mp hsize, by simpa using hversion, Nat.not_lt.mp hheader, hmoves⟩

/-- The rewritten address is there, unless the L4 checksum is written over it. -/
theorem octetsAt_rewriteV4Addr {pkt out : Bytes} {new : Ipv4Addr} {isSrc : Bool}
    (h : rewriteV4Addr pkt new isSrc = (true, out))
    (hclear : ∀ n, l4CsumOff pkt = some n → n + 2 ≤ addrOff isSrc ∨ addrOff isSrc + 4 ≤ n) :
    octetsAt out (addrOff isSrc) = new := by
  obtain ⟨hsame, rfl⟩ | ⟨hr, hl4⟩ := rewriteV4Addr_true h
  · exact hsame
  · obtain rfl | ⟨n, v, hn, hfits, rfl⟩ := rewriteL4_true hl4
    · exact readdressed_octets hr
    · rw [octetsAt_putAt hfits (hclear n hn), readdressed_octets hr]

/-! ## The other address -/

/-- The destination of a packet behind a rewritten source. -/
def patchedDst (pkt : Bytes) (newSrc : Ipv4Addr) : Ipv4Addr :=
  let src := octetsAt pkt 12
  let dst := octetsAt pkt 16
  if src = newSrc then dst
  else if pkt.getD 9 0 = 6 ∧ headerLen pkt = 0 then
    let cs := csumUpdateAddr (be16 [dst.o0, dst.o1]) src newSrc
    { dst with o0 := (cs >>> 8).toUInt8, o1 := cs.toUInt8 }
  else if pkt.getD 9 0 = 17 ∧ headerLen pkt = 12 ∧ be16 [dst.o2, dst.o3] ≠ 0 then
    let cs := sentChecksum (csumUpdateAddr (be16 [dst.o2, dst.o3]) src newSrc)
    { dst with o2 := (cs >>> 8).toUInt8, o3 := cs.toUInt8 }
  else dst

theorem headerLen_dvd (pkt : Bytes) : 4 ∣ headerLen pkt := Nat.dvd_mul_left 4 _

section Readdressed

variable {pkt out : Bytes} {new : Ipv4Addr} (hr : Readdresses pkt new true)

include hr

theorem readdressed_getD {i : ℕ} (hi : i < 10 ∨ 16 ≤ i) :
    (readdressed pkt new true).getD i 0 = pkt.getD i 0 := by
  have hoff : addrOff true = 12 := rfl
  rw [List.getD_eq_getElem?_getD, readdressed_getElem? hr, List.getD_eq_getElem?_getD]
  all_goals
    unfold InField
    omega

theorem readdressed_dst : octetsAt (readdressed pkt new true) 16 = octetsAt pkt 16 := by
  simp only [octetsAt]
  rw [readdressed_getD hr (.inr (by omega)), readdressed_getD hr (.inr (by omega)),
    readdressed_getD hr (.inr (by omega)), readdressed_getD hr (.inr (by omega))]

theorem readdressed_fits : 20 ≤ (readdressed pkt new true).length := by
  rw [readdressed_length hr]
  exact hr.size

theorem rewriteL4_dst_tcp (htcp : pkt.getD 9 0 = 6)
    (h : rewriteL4 (readdressed pkt new true) (headerLen pkt) 6 (octetsAt pkt 12) new = (true, out)) :
    octetsAt out 16 = patchedDst pkt new := by
  have hdst := readdressed_dst hr
  have hsize := readdressed_fits hr
  have hmoves : octetsAt pkt 12 ≠ new := hr.moves
  simp only [patchedDst]
  rw [if_neg hmoves]
  unfold rewriteL4 at h
  rw [if_pos (by decide)] at h
  split at h
  · cases h
  · next hfits =>
    obtain rfl := (Prod.mk.inj h).2
    by_cases hzero : headerLen pkt = 0
    · have hword : be16 ((readdressed pkt new true).drop 16) =
          be16 [(octetsAt pkt 16).o0, (octetsAt pkt 16).o1] := by
        rw [be16_drop (by omega), ← hdst]
        rfl
      rw [if_pos ⟨htcp, hzero⟩, hzero, octetsAt_putAt_fst _ (by omega), hdst, hword]
    · have hudp : ¬ pkt.getD 9 0 = 17 := by
        rw [htcp]
        decide
      have hdvd := headerLen_dvd pkt
      have hfits' : headerLen pkt + 16 + 2 ≤ (readdressed pkt new true).length := by omega
      rw [if_neg (fun hboth => hzero hboth.2), if_neg (fun hboth => hudp hboth.1),
        octetsAt_putAt hfits' (.inr (by omega)), hdst]

theorem rewriteL4_dst_udp (hudp : pkt.getD 9 0 = 17)
    (h : rewriteL4 (readdressed pkt new true) (headerLen pkt) 17 (octetsAt pkt 12) new = (true, out)) :
    octetsAt out 16 = patchedDst pkt new := by
  have hdst := readdressed_dst hr
  have hsize := readdressed_fits hr
  have hmoves : octetsAt pkt 12 ≠ new := hr.moves
  have htcp : ¬ pkt.getD 9 0 = 6 := by
    rw [hudp]
    decide
  simp only [patchedDst]
  rw [if_neg hmoves, if_neg (fun hboth => htcp hboth.1)]
  unfold rewriteL4 at h
  rw [if_neg (by decide), if_pos (by decide)] at h
  split at h
  · cases h
  · next hfits =>
    by_cases htwelve : headerLen pkt = 12
    · have hword : be16 ((readdressed pkt new true).drop 18) =
          be16 [(octetsAt pkt 16).o2, (octetsAt pkt 16).o3] := by
        rw [be16_drop (by omega), ← hdst]
        rfl
      simp only [htwelve, hword] at h
      split at h
      · next hcs =>
        obtain rfl := (Prod.mk.inj h).2
        rw [if_pos ⟨hudp, htwelve, by simpa using hcs⟩, octetsAt_putAt_snd _ (by omega), hdst]
      · next hcs =>
        obtain rfl := (Prod.mk.inj h).2
        rw [if_neg (fun hall => hcs (by simpa using hall.2.2)), hdst]
    · rw [if_neg (fun hall => htwelve hall.2.1)]
      simp only at h
      split at h
      · obtain rfl := (Prod.mk.inj h).2
        have hdvd := headerLen_dvd pkt
        have hfits' : headerLen pkt + 6 + 2 ≤ (readdressed pkt new true).length := by omega
        rw [octetsAt_putAt hfits' (show headerLen pkt + 6 + 2 ≤ 16 ∨ 16 + 4 ≤ headerLen pkt + 6 by omega), hdst]
      · obtain rfl := (Prod.mk.inj h).2
        exact hdst

theorem rewriteL4_dst
    (h : rewriteL4 (readdressed pkt new true) (headerLen pkt) (pkt.getD 9 0) (octetsAt pkt 12) new =
      (true, out)) : octetsAt out 16 = patchedDst pkt new := by
  by_cases htcp : pkt.getD 9 0 = 6
  · rw [htcp] at h
    exact rewriteL4_dst_tcp hr htcp h
  · by_cases hudp : pkt.getD 9 0 = 17
    · rw [hudp] at h
      exact rewriteL4_dst_udp hr hudp h
    · have hmoves : octetsAt pkt 12 ≠ new := hr.moves
      unfold rewriteL4 at h
      rw [if_neg (mt eq_of_beq htcp), if_neg (mt eq_of_beq hudp)] at h
      obtain rfl := (Prod.mk.inj h).2
      simp only [patchedDst]
      rw [if_neg hmoves, if_neg (fun hboth => htcp hboth.1), if_neg (fun hall => hudp hall.1),
        readdressed_dst hr]

end Readdressed

/-- The destination that a rewrite of the source leaves. -/
theorem octetsAt_rewriteV4Src {pkt out : Bytes} {new : Ipv4Addr} (h : rewriteV4Src pkt new = (true, out)) :
    octetsAt out 16 = patchedDst pkt new := by
  obtain ⟨hsame, rfl⟩ | ⟨hr, hl4⟩ := rewriteV4Addr_true h
  · have hsame' : octetsAt out 12 = new := hsame
    simp only [patchedDst, if_pos hsame']
  · exact rewriteL4_dst hr hl4

end BaleVpn.Net
