import BaleVpn.Net.Rewrite

/-!
# What a rewrite touches (`nat/ip_packet.rs`)

`rewrite_v4_addr` patches the L4 checksum at `IHL * 4` by the protocol number alone. It does not ask
whether an L4 header starts there: not in a later fragment of a datagram, and not behind an `IHL` below
five, where the patch lands inside the IPv4 header.
-/

namespace BaleVpn.Net

/-! ## The property -/

def headerLen (pkt : Bytes) : ℕ := (pkt.getD 0 0 &&& 0x0f).toNat * 4

def addrOff (isSrc : Bool) : ℕ := if isSrc then 12 else 16

/-- Where the checksum of the L4 header is, if one starts behind the IPv4 header. -/
def l4CsumOff (pkt : Bytes) : Option ℕ :=
  if pkt.getD 9 0 == 6 then some (headerLen pkt + 16)
  else if pkt.getD 9 0 == 17 then some (headerLen pkt + 6)
  else none

/-- An L4 header starts at `IHL * 4`. -/
def StartsL4 (pkt : Bytes) : Prop := 20 ≤ headerLen pkt ∧ be16 (pkt.drop 6) &&& 0x1fff = 0

/-- `i` is one of the `n` positions from `off` on. -/
def InField (off n i : ℕ) : Prop := off ≤ i ∧ i < off + n

instance (off n i : ℕ) : Decidable (InField off n i) :=
  inferInstanceAs (Decidable (off ≤ i ∧ i < off + n))

/-- The positions of the rewritten address and of the checksums over it. -/
def OfAddress (pkt : Bytes) (isSrc : Bool) (i : ℕ) : Prop :=
  InField 10 2 i ∨ InField (addrOff isSrc) 4 i ∨
    ∃ off, l4CsumOff pkt = some off ∧ StartsL4 pkt ∧ InField off 2 i

/-- A rewrite that succeeds leaves everything else as it was. -/
def TouchesOnly (pkt : Bytes) (isSrc : Bool) (r : Bool × Bytes) : Prop :=
  r.1 = true → r.2.length = pkt.length ∧ ∀ i, ¬ OfAddress pkt isSrc i → r.2[i]? = pkt[i]?

/-! ## The condition -/

/-- The address behind `isSrc` is there and is not `new`. -/
structure Readdresses (pkt : Bytes) (new : Ipv4Addr) (isSrc : Bool) : Prop where
  size : 20 ≤ pkt.length
  version : pkt.getD 0 0 >>> 4 = 4
  header : headerLen pkt ≤ pkt.length
  moves : octetsAt pkt (addrOff isSrc) ≠ new

/-- Going from `old` to `new` changes a TCP checksum `cs`. -/
def ChangesTcp (cs : UInt16) (old new : Ipv4Addr) : Prop :=
  if cs = 0xffff then ¬ (old = ⟨255, 255, 255, 255⟩ ∧ new = ⟨0, 0, 0, 0⟩)
  else ¬ wordSum old.octets ≡ wordSum new.octets [MOD 65535]

/-- Going from `old` to `new` changes a UDP checksum `cs`. -/
def ChangesUdp (cs : UInt16) (old new : Ipv4Addr) : Prop :=
  cs ≠ 0 ∧ ¬ wordSum old.octets ≡ wordSum new.octets [MOD 65535]

/-- The update of the L4 checksum changes the word at `off`. -/
inductive Patches (pkt : Bytes) (old new : Ipv4Addr) : ℕ → Prop
  | tcp (hproto : pkt.getD 9 0 = 6) (hlen : headerLen pkt + 18 ≤ pkt.length)
      (hcs : ChangesTcp (be16 (pkt.drop (headerLen pkt + 16))) old new) :
      Patches pkt old new (headerLen pkt + 16)
  | udp (hproto : pkt.getD 9 0 = 17) (hlen : headerLen pkt + 8 ≤ pkt.length)
      (hcs : ChangesUdp (be16 (pkt.drop (headerLen pkt + 6))) old new) :
      Patches pkt old new (headerLen pkt + 6)

/-- The rewrite changes a word that is neither the address nor a checksum over it. -/
structure Strays (pkt : Bytes) (new : Ipv4Addr) (isSrc : Bool) (off : ℕ) : Prop where
  readdresses : Readdresses pkt new isSrc
  patches : Patches pkt (octetsAt pkt (addrOff isSrc)) new off
  outside : ¬ OfAddress pkt isSrc off

/-! ## Checksums that an update leaves alone -/

theorem csumUpdate16_max (old new : UInt16) :
    csumUpdate16 0xffff old new = 0xffff ↔ old = 0xffff ∧ new = 0 := by
  have hnot : ∀ x : UInt16, (~~~x).toUInt32.toNat = 65535 - x.toNat := fun x => by
    rw [UInt16.toNat_toUInt32, UInt16.toNat_not]
    rfl
  constructor
  · intro h
    by_contra hne
    have hold := old.toNat_lt
    have hnew := new.toNat_lt
    have hpos : 0 < ((~~~(0xffff : UInt16)).toUInt32 + (~~~old).toUInt32 + new.toUInt32).toNat := by
      rw [UInt32.toNat_add, UInt32.toNat_add, hnot, hnot, UInt16.toNat_toUInt32]
      have hsome : old.toNat ≠ 65535 ∨ new.toNat ≠ 0 := by
        by_contra hboth
        obtain ⟨h₁, h₂⟩ := not_or.mp hboth
        exact hne ⟨UInt16.toNat_inj.mp (not_not.mp h₁), UInt16.toNat_inj.mp (not_not.mp h₂)⟩
      have : (0xffff : UInt16).toNat = 65535 := rfl
      omega
    obtain ⟨hle, -, hfold⟩ := foldCarry_spec
      ((~~~(0xffff : UInt16)).toUInt32 + (~~~old).toUInt32 + new.toUInt32)
    have hcs := congrArg UInt16.toNat h
    unfold csumUpdate16 at hcs
    rw [UInt16.toNat_not, UInt32.toNat_toUInt16, Nat.mod_eq_of_lt (by omega)] at hcs
    have := hfold hpos
    have : (0xffff : UInt16).toNat = 65535 := rfl
    have : UInt16.size - 1 = 65535 := rfl
    omega
  · rintro ⟨rfl, rfl⟩
    decide

theorem csumUpdateAddr_of {cs : UInt16} (old new : Ipv4Addr) :
    ∃ s, ChecksumOf (csumUpdateAddr cs old new) s ∧
      (ChecksumOf cs s ↔ wordSum old.octets ≡ wordSum new.octets [MOD 65535]) := by
  have hself : ChecksumOf cs (65535 - cs.toNat) := rfl
  refine ⟨_, (hself.update16 (be16 [old.o0, old.o1]) (be16 [new.o0, new.o1])).update16
    (be16 [old.o2, old.o3]) (be16 [new.o2, new.o3]), ?_⟩
  have h₁ := (be16 [old.o0, old.o1]).toNat_lt
  have h₂ := (be16 [old.o2, old.o3]).toNat_lt
  rw [Ipv4Addr.wordSum_octets, Ipv4Addr.wordSum_octets]
  unfold ChecksumOf Nat.ModEq
  omega

theorem be16_pair (a b a' b' : UInt8) : be16 [a, b] = be16 [a', b'] ↔ a = a' ∧ b = b' := by
  constructor
  · intro h
    have hnat := congrArg UInt16.toNat h
    rw [be16_toNat, be16_toNat] at hnat
    have := b.toNat_lt
    have := b'.toNat_lt
    exact ⟨UInt8.toNat_inj.mp (by omega), UInt8.toNat_inj.mp (by omega)⟩
  · rintro ⟨rfl, rfl⟩
    rfl

theorem csumUpdateAddr_eq (cs : UInt16) (old new : Ipv4Addr) :
    csumUpdateAddr cs old new = cs ↔ ¬ ChangesTcp cs old new := by
  unfold ChangesTcp
  by_cases hmax : cs = 0xffff
  · subst hmax
    rw [if_pos rfl, not_not]
    have hbytes : be16 [255, 255] = 0xffff ∧ be16 [0, 0] = 0 := by decide
    have hword : ∀ a b : UInt8, (be16 [a, b] = 0xffff ↔ a = 255 ∧ b = 255) ∧
        (be16 [a, b] = 0 ↔ a = 0 ∧ b = 0) := by
      intro a b
      rw [← hbytes.1, ← hbytes.2]
      exact ⟨be16_pair a b 255 255, be16_pair a b 0 0⟩
    obtain ⟨o0, o1, o2, o3⟩ := old
    obtain ⟨n0, n1, n2, n3⟩ := new
    show csumUpdate16 (csumUpdate16 0xffff (be16 [o0, o1]) (be16 [n0, n1])) (be16 [o2, o3])
      (be16 [n2, n3]) = 0xffff ↔ _
    by_cases hfirst : csumUpdate16 0xffff (be16 [o0, o1]) (be16 [n0, n1]) = 0xffff
    · rw [hfirst, csumUpdate16_max, (hword o2 o3).1, (hword n2 n3).2]
      rw [csumUpdate16_max, (hword o0 o1).1, (hword n0 n1).2] at hfirst
      simp only [Ipv4Addr.mk.injEq]
      grind
    · have hne := csumUpdate16_ne hfirst (be16 [o2, o3]) (be16 [n2, n3])
      rw [csumUpdate16_max, (hword o0 o1).1, (hword n0 n1).2] at hfirst
      simp only [Ipv4Addr.mk.injEq]
      grind
  · rw [if_neg hmax, not_not]
    obtain ⟨s, hs, hiff⟩ := @csumUpdateAddr_of cs old new
    rw [← hiff]
    constructor
    · intro h
      rwa [h] at hs
    · intro h
      exact hs.unique h (csumUpdateAddr_ne hmax old new) hmax

theorem sentChecksum_update_eq {cs : UInt16} (hcs : cs ≠ 0) (old new : Ipv4Addr) :
    sentChecksum (csumUpdateAddr cs old new) = cs ↔ ¬ ChangesUdp cs old new := by
  have hsent : sentChecksum cs = cs := by
    unfold sentChecksum
    simp [hcs]
  obtain ⟨s, hs, hiff⟩ := @csumUpdateAddr_of cs old new
  unfold ChangesUdp
  rw [not_and, not_not, ← hiff]
  constructor
  · intro h _
    have hsum := hs.sent
    rwa [h] at hsum
  · intro h
    rw [hs.sent_unique (h hcs), hsent]

/-! ## Bytes of a patched packet -/

theorem putAt_getElem? {pkt bs : Bytes} {off i : ℕ} (h : off + bs.length ≤ pkt.length) :
    (putAt pkt off bs)[i]? = if InField off bs.length i then bs[i - off]? else pkt[i]? := by
  have hlen : (pkt.take off).length = off := List.length_take_of_le (by omega)
  unfold putAt
  rw [List.append_assoc]
  by_cases hin : InField off bs.length i
  · obtain ⟨hlo, hhi⟩ := hin
    rw [if_pos ⟨hlo, hhi⟩, List.getElem?_append_right (by omega), hlen,
      List.getElem?_append_left (by omega)]
  · rw [if_neg hin]
    unfold InField at hin
    by_cases hi : i < off
    · rw [List.getElem?_append_left (by omega), List.getElem?_take_of_lt hi]
    · rw [List.getElem?_append_right (by omega), List.getElem?_append_right (by omega),
        List.getElem?_drop, hlen]
      congr 1
      omega

theorem be16_eq_iff {l : Bytes} {off : ℕ} (h : off + 2 ≤ l.length) (v : UInt16) :
    be16 (l.drop off) = v ↔ l[off]? = (putBe16 v)[0]? ∧ l[off + 1]? = (putBe16 v)[1]? := by
  have h₀ : off < l.length := by omega
  have h₁ : off + 1 < l.length := by omega
  have hpair : be16 (l.drop off) = be16 [l[off], l[off + 1]] := by
    rw [List.drop_eq_getElem_cons h₀, List.drop_eq_getElem_cons h₁]
    rfl
  have hput : putBe16 v = [(v >>> 8).toUInt8, v.toUInt8] := rfl
  conv_lhs => rw [hpair, ← be16_putBe16 v, hput, be16_pair]
  rw [List.getElem?_eq_getElem h₀, List.getElem?_eq_getElem h₁, hput]
  simp

/-! ## The two steps of a rewrite -/

/-- The packet after the header: its checksum, then the address. -/
def readdressed (pkt : Bytes) (new : Ipv4Addr) (isSrc : Bool) : Bytes :=
  putAt (putAt pkt 10 (putBe16 (csumUpdateAddr (be16 (pkt.drop 10)) (octetsAt pkt (addrOff isSrc)) new)))
    (addrOff isSrc) new.octets

theorem addrOff_le (isSrc : Bool) : 12 ≤ addrOff isSrc ∧ addrOff isSrc ≤ 16 ∧ 2 ∣ addrOff isSrc := by
  cases isSrc <;> decide

theorem rewriteV4Addr_eq (pkt : Bytes) (new : Ipv4Addr) (isSrc : Bool) :
    rewriteV4Addr pkt new isSrc =
      if pkt.length < 20 then (false, pkt)
      else if pkt.getD 0 0 >>> 4 != 4 then (false, pkt)
      else if pkt.length < headerLen pkt then (false, pkt)
      else if octetsAt pkt (addrOff isSrc) == new then (true, pkt)
      else rewriteL4 (readdressed pkt new isSrc) (headerLen pkt) (pkt.getD 9 0)
        (octetsAt pkt (addrOff isSrc)) new := rfl

theorem rewriteV4Addr_kept {pkt : Bytes} {new : Ipv4Addr} {isSrc : Bool}
    (h : ¬ Readdresses pkt new isSrc) : (rewriteV4Addr pkt new isSrc).2 = pkt := by
  rw [rewriteV4Addr_eq]
  split
  · rfl
  · rename_i hsize
    split
    · rfl
    · rename_i hversion
      split
      · rfl
      · rename_i hheader
        split
        · rfl
        · rename_i hmoves
          exact absurd ⟨Nat.not_lt.mp hsize, by simpa using hversion, Nat.not_lt.mp hheader,
            by simpa using hmoves⟩ h

section Readdressed

variable {pkt : Bytes} {new : Ipv4Addr} {isSrc : Bool} (h : Readdresses pkt new isSrc)

include h

theorem rewriteV4Addr_readdresses : rewriteV4Addr pkt new isSrc =
    rewriteL4 (readdressed pkt new isSrc) (headerLen pkt) (pkt.getD 9 0)
      (octetsAt pkt (addrOff isSrc)) new := by
  have hversion : ¬ (pkt.getD 0 0 >>> 4 != 4) = true := by simpa using h.version
  have hmoves : ¬ (octetsAt pkt (addrOff isSrc) == new) = true := by simpa using h.moves
  rw [rewriteV4Addr_eq, if_neg (Nat.not_lt.mpr h.size), if_neg hversion,
    if_neg (Nat.not_lt.mpr h.header), if_neg hmoves]

theorem readdressed_length : (readdressed pkt new isSrc).length = pkt.length := by
  have hsize := h.size
  obtain ⟨-, hoff, -⟩ := addrOff_le isSrc
  have hword : ∀ v : UInt16, (putBe16 v).length = 2 := fun _ => rfl
  have haddr : new.octets.length = 4 := rfl
  unfold readdressed
  rw [putAt_length, putAt_length]
  all_goals
    first | rw [putAt_length] | skip
    all_goals
      first | rw [hword] | rw [haddr]
      omega

theorem readdressed_getElem? {i : ℕ} (hcs : ¬ InField 10 2 i) (haddr : ¬ InField (addrOff isSrc) 4 i) :
    (readdressed pkt new isSrc)[i]? = pkt[i]? := by
  have hsize := h.size
  obtain ⟨-, hoff, -⟩ := addrOff_le isSrc
  have hword : ∀ v : UInt16, (putBe16 v).length = 2 := fun _ => rfl
  have hoct : new.octets.length = 4 := rfl
  unfold readdressed
  rw [putAt_getElem? (by rw [putAt_length (by rw [hword]; omega), hoct]; omega), hoct, if_neg haddr,
    putAt_getElem? (by rw [hword]; omega), hword, if_neg hcs]

end Readdressed

/-! ## The L4 step -/

theorem l4CsumOff_even {pkt : Bytes} {off : ℕ} (h : l4CsumOff pkt = some off) : 2 ∣ off := by
  unfold l4CsumOff headerLen at h
  split at h
  · obtain rfl := Option.some.inj h
    omega
  · split at h
    · obtain rfl := Option.some.inj h
      omega
    · cases h

theorem ofAddress_succ {pkt : Bytes} {isSrc : Bool} {off : ℕ} (hoff : l4CsumOff pkt = some off) :
    OfAddress pkt isSrc (off + 1) ↔ OfAddress pkt isSrc off := by
  have heven := l4CsumOff_even hoff
  obtain ⟨hlo, hhi, haddr⟩ := addrOff_le isSrc
  have hiff : ∀ off', l4CsumOff pkt = some off' → (InField off' 2 (off + 1) ↔ InField off' 2 off) := by
    intro off' hoff'
    obtain rfl := Option.some.inj (hoff.symm.trans hoff')
    unfold InField
    omega
  unfold OfAddress
  refine or_congr ?_ (or_congr ?_ (exists_congr fun off' => ?_))
  · unfold InField
    omega
  · unfold InField
    omega
  · exact and_congr_right fun hoff' => and_congr_right fun _ => hiff off' hoff'

/-- A patch of the checksum field touches nothing else if the field is one, or if it stays as it was. -/
theorem touchesOnly_patched {pkt : Bytes} {new : Ipv4Addr} {isSrc : Bool}
    (h : Readdresses pkt new isSrc) {off : ℕ} (hoff : l4CsumOff pkt = some off)
    (hlen : off + 2 ≤ pkt.length) (v : UInt16) :
    TouchesOnly pkt isSrc (true, putAt (readdressed pkt new isSrc) off (putBe16 v)) ↔
      OfAddress pkt isSrc off ∨ v = be16 (pkt.drop off) := by
  have hword : (putBe16 v).length = 2 := rfl
  have hhdr := readdressed_length h
  have hbyte : ∀ i, (putAt (readdressed pkt new isSrc) off (putBe16 v))[i]? =
      if InField off 2 i then (putBe16 v)[i - off]? else (readdressed pkt new isSrc)[i]? := by
    intro i
    rw [putAt_getElem? (by omega), hword]
  have hfield := be16_eq_iff hlen v
  constructor
  · intro htouch
    by_cases hof : OfAddress pkt isSrc off
    · exact .inl hof
    · obtain ⟨-, hsame⟩ := htouch rfl
      have h₀ := hsame off hof
      have h₁ := hsame (off + 1) (mt (ofAddress_succ hoff).mp hof)
      rw [hbyte, if_pos ⟨by omega, by omega⟩] at h₀ h₁
      rw [Nat.sub_self] at h₀
      rw [Nat.add_sub_cancel_left] at h₁
      exact .inr (hfield.mpr ⟨h₀.symm, h₁.symm⟩).symm
  · intro hor _
    refine ⟨by rw [putAt_length (by omega), hhdr], fun i hi => ?_⟩
    show (putAt (readdressed pkt new isSrc) off (putBe16 v))[i]? = pkt[i]?
    rw [hbyte]
    split
    · rename_i hin
      have hcases : i = off ∨ i = off + 1 := by
        unfold InField at hin
        omega
      have hof : ¬ OfAddress pkt isSrc off := by
        obtain rfl | rfl := hcases
        · exact hi
        · exact mt (ofAddress_succ hoff).mpr hi
      obtain ⟨h₀, h₁⟩ := hfield.mp (hor.resolve_left hof).symm
      obtain rfl | rfl := hcases
      · rw [Nat.sub_self, h₀]
      · rw [Nat.add_sub_cancel_left, h₁]
    · exact readdressed_getElem? h (fun hcs => hi (.inl hcs)) fun haddr => hi (.inr (.inl haddr))

theorem touchesOnly_readdressed {pkt : Bytes} {new : Ipv4Addr} {isSrc : Bool}
    (h : Readdresses pkt new isSrc) (ok : Bool) :
    TouchesOnly pkt isSrc (ok, readdressed pkt new isSrc) := by
  intro _
  exact ⟨readdressed_length h, fun i hi =>
    readdressed_getElem? h (fun hcs => hi (.inl hcs)) fun haddr => hi (.inr (.inl haddr))⟩

theorem readdressed_field {pkt : Bytes} {new : Ipv4Addr} {isSrc : Bool}
    (h : Readdresses pkt new isSrc) {off : ℕ} (hoff : l4CsumOff pkt = some off)
    (hlen : off + 2 ≤ pkt.length) (hout : ¬ OfAddress pkt isSrc off) :
    be16 ((readdressed pkt new isSrc).drop off) = be16 (pkt.drop off) := by
  obtain ⟨-, hsame⟩ := touchesOnly_readdressed h true rfl
  have hhdr := readdressed_length h
  rw [be16_eq_iff (by omega), hsame off hout, hsame (off + 1) (mt (ofAddress_succ hoff).mp hout),
    ← be16_eq_iff hlen]

section L4

variable {pkt : Bytes} {new : Ipv4Addr} {isSrc : Bool} (h : Readdresses pkt new isSrc)

include h

/-- Where only the word at `off` may be patched, a stray is a patch of it outside the address. -/
theorem no_stray_iff {off : ℕ}
    (hoff : ∀ off', Patches pkt (octetsAt pkt (addrOff isSrc)) new off' → off' = off) :
    (∀ off', ¬ Strays pkt new isSrc off') ↔
      OfAddress pkt isSrc off ∨ ¬ Patches pkt (octetsAt pkt (addrOff isSrc)) new off := by
  constructor
  · intro hnone
    by_contra hboth
    obtain ⟨hout, hpatch⟩ := not_or.mp hboth
    exact hnone off ⟨h, not_not.mp hpatch, hout⟩
  · rintro hor off' ⟨-, hpatch, hout⟩
    obtain rfl := hoff off' hpatch
    exact hor.elim hout fun hno => hno hpatch

theorem touchesOnly_tcp (htcp : pkt.getD 9 0 = 6) :
    TouchesOnly pkt isSrc (rewriteL4 (readdressed pkt new isSrc) (headerLen pkt) (pkt.getD 9 0)
      (octetsAt pkt (addrOff isSrc)) new) ↔ ∀ off, ¬ Strays pkt new isSrc off := by
  have hhdr := readdressed_length h
  have hheader := h.header
  have hoff : l4CsumOff pkt = some (headerLen pkt + 16) := by
    unfold l4CsumOff
    rw [htcp]
    rfl
  have hpatches : ∀ off, Patches pkt (octetsAt pkt (addrOff isSrc)) new off ↔
      off = headerLen pkt + 16 ∧ headerLen pkt + 18 ≤ pkt.length ∧
        ChangesTcp (be16 (pkt.drop (headerLen pkt + 16))) (octetsAt pkt (addrOff isSrc)) new := by
    intro off
    constructor
    · rintro (⟨-, hlen, hcs⟩ | ⟨hudp, -, -⟩)
      · exact ⟨rfl, hlen, hcs⟩
      · rw [htcp] at hudp
        cases hudp
    · rintro ⟨rfl, hlen, hcs⟩
      exact .tcp htcp hlen hcs
  rw [no_stray_iff h fun off hp => ((hpatches off).mp hp).1, hpatches]
  unfold rewriteL4
  simp only [htcp, beq_self_eq_true, if_true]
  by_cases hshort : (readdressed pkt new isSrc).length - headerLen pkt < 18
  · rw [if_pos hshort]
    refine ⟨fun _ => .inr fun hp => ?_, fun _ => touchesOnly_readdressed h false⟩
    have := hp.2.1
    omega
  · rw [if_neg hshort, touchesOnly_patched h hoff (by omega)]
    refine or_congr_right' fun hout => ?_
    rw [readdressed_field h hoff (by omega) hout, csumUpdateAddr_eq, not_iff_not]
    exact ⟨fun hcs => ⟨trivial, by omega, hcs⟩, fun hp => hp.2.2⟩

theorem touchesOnly_udp (hudp : pkt.getD 9 0 = 17) :
    TouchesOnly pkt isSrc (rewriteL4 (readdressed pkt new isSrc) (headerLen pkt) (pkt.getD 9 0)
      (octetsAt pkt (addrOff isSrc)) new) ↔ ∀ off, ¬ Strays pkt new isSrc off := by
  have hhdr := readdressed_length h
  have hheader := h.header
  have htcp : ((17 : UInt8) == 6) = false := by decide
  have hoff : l4CsumOff pkt = some (headerLen pkt + 6) := by
    unfold l4CsumOff
    rw [hudp]
    rfl
  have hpatches : ∀ off, Patches pkt (octetsAt pkt (addrOff isSrc)) new off ↔
      off = headerLen pkt + 6 ∧ headerLen pkt + 8 ≤ pkt.length ∧
        ChangesUdp (be16 (pkt.drop (headerLen pkt + 6))) (octetsAt pkt (addrOff isSrc)) new := by
    intro off
    constructor
    · rintro (⟨htcp, -, -⟩ | ⟨-, hlen, hcs⟩)
      · rw [hudp] at htcp
        cases htcp
      · exact ⟨rfl, hlen, hcs⟩
    · rintro ⟨rfl, hlen, hcs⟩
      exact .udp hudp hlen hcs
  rw [no_stray_iff h fun off hp => ((hpatches off).mp hp).1, hpatches]
  unfold rewriteL4
  simp only [hudp, htcp, beq_self_eq_true, Bool.false_eq_true, if_false, if_true]
  by_cases hshort : (readdressed pkt new isSrc).length - headerLen pkt < 8
  · rw [if_pos hshort]
    refine ⟨fun _ => .inr fun hp => ?_, fun _ => touchesOnly_readdressed h false⟩
    have := hp.2.1
    omega
  · rw [if_neg hshort]
    by_cases hzero : be16 ((readdressed pkt new isSrc).drop (headerLen pkt + 6)) = 0
    · rw [hzero, if_neg (by decide)]
      refine ⟨fun _ => ?_, fun _ => touchesOnly_readdressed h true⟩
      refine or_iff_not_imp_left.mpr fun hout hp => hp.2.2.1 ?_
      rw [← readdressed_field h hoff (by omega) hout, hzero]
    · rw [if_pos (by simpa using hzero), touchesOnly_patched h hoff (by omega)]
      refine or_congr_right' fun hout => ?_
      rw [readdressed_field h hoff (by omega) hout] at hzero ⊢
      rw [sentChecksum_update_eq hzero, not_iff_not]
      exact ⟨fun hcs => ⟨trivial, by omega, hcs⟩, fun hp => hp.2.2⟩

theorem touchesOnly_other (htcp : pkt.getD 9 0 ≠ 6) (hudp : pkt.getD 9 0 ≠ 17) :
    TouchesOnly pkt isSrc (rewriteL4 (readdressed pkt new isSrc) (headerLen pkt) (pkt.getD 9 0)
      (octetsAt pkt (addrOff isSrc)) new) ↔ ∀ off, ¬ Strays pkt new isSrc off := by
  have hnone : ∀ off, ¬ Strays pkt new isSrc off := by
    rintro off ⟨-, hpatch, -⟩
    cases hpatch with
    | tcp hproto => exact htcp hproto
    | udp hproto => exact hudp hproto
  refine ⟨fun _ => hnone, fun _ => ?_⟩
  unfold rewriteL4
  rw [if_neg (by simpa using htcp), if_neg (by simpa using hudp)]
  exact touchesOnly_readdressed h true

end L4

theorem touchesOnly_iff (pkt : Bytes) (new : Ipv4Addr) (isSrc : Bool) :
    TouchesOnly pkt isSrc (rewriteV4Addr pkt new isSrc) ↔ ∀ off, ¬ Strays pkt new isSrc off := by
  by_cases h : Readdresses pkt new isSrc
  · rw [rewriteV4Addr_readdresses h]
    by_cases htcp : pkt.getD 9 0 = 6
    · exact touchesOnly_tcp h htcp
    · by_cases hudp : pkt.getD 9 0 = 17
      · exact touchesOnly_udp h hudp
      · exact touchesOnly_other h htcp hudp
  · have hkept := rewriteV4Addr_kept h
    refine ⟨fun _ off hstray => h hstray.readdresses, fun _ _ => ?_⟩
    rw [hkept]
    exact ⟨rfl, fun _ _ => rfl⟩

/-- A rewrite touches only the address and the checksums over it, unless the word it patches as an L4
checksum is something else and its value moves. -/
theorem rewrite_touches_only (pkt : Bytes) (new : Ipv4Addr) :
    (TouchesOnly pkt true (rewriteV4Src pkt new) ↔ ∀ off, ¬ Strays pkt new true off) ∧
    (TouchesOnly pkt false (rewriteV4Dst pkt new) ↔ ∀ off, ¬ Strays pkt new false off) :=
  ⟨touchesOnly_iff pkt new true, touchesOnly_iff pkt new false⟩

/-- The second fragment of a UDP datagram, with eight bytes of its payload. -/
def laterFragment : Bytes :=
  [0x45, 0, 0, 28, 0, 1, 0, 185, 64, 17, 0, 0, 10, 8, 0, 2, 8, 8, 8, 8] ++ [1, 2, 3, 4, 5, 6, 7, 8]

/-- Two bytes of its payload change. -/
theorem rewrite_touches_payload :
    rewriteV4Src laterFragment ⟨10, 8, 0, 42⟩ =
      (true, [0x45, 0, 0, 28, 0, 1, 0, 185, 64, 17, 255, 215, 10, 8, 0, 42, 8, 8, 8, 8] ++
        [1, 2, 3, 4, 5, 6, 6, 224]) ∧
    ¬ ∀ (pkt : Bytes) (new : Ipv4Addr), TouchesOnly pkt true (rewriteV4Src pkt new) ∧
      TouchesOnly pkt false (rewriteV4Dst pkt new) := by
  refine ⟨by decide +kernel, fun hall => ?_⟩
  obtain ⟨-, hsame⟩ := (hall laterFragment ⟨10, 8, 0, 42⟩).1 (by decide +kernel)
  have hout : ¬ OfAddress laterFragment true 26 := by
    rintro (hcs | haddr | ⟨off, -, ⟨-, hfirst⟩, -⟩)
    · exact absurd hcs (by decide)
    · exact absurd haddr (by decide)
    · exact absurd hfirst (by decide)
  exact absurd (hsame 26 hout) (by decide +kernel)

/-! ## What a refusal leaves

The doc of `rewrite_v4_src` has it that `false` is for a packet it will not touch. The lengths of the L4
headers are asked for last, after the IPv4 checksum and the address are written. -/

/-- A rewrite that is refused leaves the packet as it was. -/
def RefusesIntact (pkt : Bytes) (r : Bool × Bytes) : Prop := r.1 = false → r.2 = pkt

/-- A TCP or UDP header that starts in the packet ends outside it, or at least its checksum does. -/
def CutShort (pkt : Bytes) : Prop :=
  (pkt.getD 9 0 = 6 ∧ pkt.length - headerLen pkt < 18) ∨
    (pkt.getD 9 0 = 17 ∧ pkt.length - headerLen pkt < 8)

/-- The L4 step refuses by the length alone, and what it refuses it leaves. -/
theorem rewriteL4_refuses (pkt : Bytes) (ihl : ℕ) (proto : UInt8) (old new : Ipv4Addr) :
    ((rewriteL4 pkt ihl proto old new).1 = false ↔
      (proto = 6 ∧ pkt.length - ihl < 18) ∨ (proto = 17 ∧ pkt.length - ihl < 8)) ∧
    ((rewriteL4 pkt ihl proto old new).1 = false → (rewriteL4 pkt ihl proto old new).2 = pkt) := by
  unfold rewriteL4
  by_cases htcp : proto = 6
  · subst htcp
    have hudp : (6 : UInt8) ≠ 17 := by decide
    simp only [beq_self_eq_true, if_true, true_and, hudp, false_and, or_false]
    split <;> simp_all
  · by_cases hudp : proto = 17
    · subst hudp
      have htcp' : ((17 : UInt8) == 6) = false := by decide
      simp only [beq_self_eq_true, htcp', Bool.false_eq_true, if_false, if_true, htcp, false_and,
        true_and, false_or]
      split
      · simp_all
      · split <;> simp_all
    · simp [htcp, hudp]

section Refused

variable {pkt : Bytes} {new : Ipv4Addr} {isSrc : Bool} (h : Readdresses pkt new isSrc)

include h

theorem readdressed_octets : octetsAt (readdressed pkt new isSrc) (addrOff isSrc) = new := by
  have hsize := h.size
  obtain ⟨-, hoff, -⟩ := addrOff_le isSrc
  have hword : ∀ v : UInt16, (putBe16 v).length = 2 := fun _ => rfl
  have hoct : new.octets.length = 4 := rfl
  have hget : ∀ j < 4, (readdressed pkt new isSrc).getD (addrOff isSrc + j) 0 = new.octets.getD j 0 := by
    intro j hj
    rw [List.getD_eq_getElem?_getD, List.getD_eq_getElem?_getD]
    unfold readdressed
    rw [putAt_getElem? (by rw [putAt_length (by rw [hword]; omega), hoct]; omega), hoct,
      if_pos ⟨by omega, by omega⟩, Nat.add_sub_cancel_left]
  unfold octetsAt
  rw [hget 1 (by omega), hget 2 (by omega), hget 3 (by omega)]
  have hfirst := hget 0 (by omega)
  rw [Nat.add_zero] at hfirst
  rw [hfirst]
  rfl

theorem readdressed_ne : readdressed pkt new isSrc ≠ pkt := by
  intro heq
  apply h.moves
  conv_lhs => rw [← heq]
  exact readdressed_octets h

theorem refusesIntact_readdresses :
    RefusesIntact pkt (rewriteV4Addr pkt new isSrc) ↔ ¬ CutShort pkt := by
  have hlen := readdressed_length h
  obtain ⟨hfalse, hkept⟩ := rewriteL4_refuses (readdressed pkt new isSrc) (headerLen pkt) (pkt.getD 9 0)
    (octetsAt pkt (addrOff isSrc)) new
  rw [rewriteV4Addr_readdresses h]
  rw [hlen] at hfalse
  unfold RefusesIntact CutShort
  rw [hfalse]
  constructor
  · intro hintact hcut
    have hsame := hintact hcut
    rw [hkept (hfalse.mpr hcut)] at hsame
    exact readdressed_ne h hsame
  · intro hwhole hcut
    exact absurd hcut hwhole

end Refused

theorem refusesIntact_iff (pkt : Bytes) (new : Ipv4Addr) (isSrc : Bool) :
    RefusesIntact pkt (rewriteV4Addr pkt new isSrc) ↔
      ¬ (Readdresses pkt new isSrc ∧ CutShort pkt) := by
  by_cases h : Readdresses pkt new isSrc
  · rw [refusesIntact_readdresses h]
    simp [h]
  · have hkept := rewriteV4Addr_kept h
    refine ⟨fun _ hcut => h hcut.1, fun _ _ => hkept⟩

/-- A refused rewrite leaves the packet intact, unless the header alone was fit to be rewritten and the L4
header behind it is cut short. -/
theorem refused_rewrite_intact (pkt : Bytes) (new : Ipv4Addr) :
    (RefusesIntact pkt (rewriteV4Src pkt new) ↔ ¬ (Readdresses pkt new true ∧ CutShort pkt)) ∧
    (RefusesIntact pkt (rewriteV4Dst pkt new) ↔ ¬ (Readdresses pkt new false ∧ CutShort pkt)) :=
  ⟨refusesIntact_iff pkt new true, refusesIntact_iff pkt new false⟩

/-- A packet that ends four bytes into its TCP header. -/
def cutHeader : Bytes :=
  [0x45, 0, 0, 24, 0, 0, 0x40, 0, 64, 6, 0, 0, 10, 8, 0, 2, 8, 8, 8, 8] ++ [0x13, 0x88, 0, 80]

/-- It is refused with the new source address in it. -/
theorem refused_rewrite_readdresses :
    rewriteV4Src cutHeader ⟨10, 8, 0, 42⟩ =
      (false, [0x45, 0, 0, 24, 0, 0, 0x40, 0, 64, 6, 255, 215, 10, 8, 0, 42, 8, 8, 8, 8] ++
        [0x13, 0x88, 0, 80]) ∧
    ¬ ∀ (pkt : Bytes) (new : Ipv4Addr), RefusesIntact pkt (rewriteV4Src pkt new) ∧
      RefusesIntact pkt (rewriteV4Dst pkt new) := by
  refine ⟨by decide +kernel, fun hall => ?_⟩
  exact absurd ((hall cutHeader ⟨10, 8, 0, 42⟩).1 (by decide +kernel)) (by decide +kernel)

end BaleVpn.Net
