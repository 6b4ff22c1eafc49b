import BaleVpn.Net.Checksum

/-!
# The IPv6 reject (`ipv6.rs`)

A packet that an application sends over IPv6 is answered with an ICMPv6 Destination Unreachable, which
carries as much of the packet as fits the minimum MTU. Offsets of the source are the lengths of what
comes before.
-/

namespace BaleVpn.Net

def ICMPV6_NEXT_HDR : UInt8 := 58

/-- `checksum16`: one sum over the whole buffer, folded at the end. -/
def checksum16 (data : Bytes) : UInt16 := checksumFinal (sumWords data 0)

/-- An ICMPv6 error message, as far as the guard against loops looks. -/
def IsIcmpv6Error (p : Bytes) : Prop :=
  p.getD 6 0 = ICMPV6_NEXT_HDR ∧ 41 ≤ p.length ∧ p.getD 40 0 < 128

instance (p : Bytes) : Decidable (IsIcmpv6Error p) := inferInstanceAs (Decidable (_ ∧ _))

/-! ## Fields -/

def ipv6Src (p : Bytes) : Bytes := (p.drop 8).take 16

def ipv6Dst (p : Bytes) : Bytes := (p.drop 24).take 16

def icmpv6Body (p : Bytes) : Bytes := p.drop 40

/-- What fits of the offending packet. -/
def excerpt (p : Bytes) : Bytes := p.take 1232

/-- Type 1, code 0, the checksum, four unused bytes and the excerpt. -/
def icmpv6Message (cksum : UInt16) (p : Bytes) : Bytes :=
  [1, 0] ++ (putBe16 cksum ++ ([0, 0, 0, 0] ++ excerpt p))

/-- The pseudo-header of a message of `len` bytes. -/
def icmpv6Pseudo (src dst : Bytes) (len : ℕ) : Bytes :=
  src ++ (dst ++ (putBe32 (UInt32.ofNat len) ++ [0, 0, 0, ICMPV6_NEXT_HDR]))

/-- An IPv6 header with hop limit 64. -/
def ipv6Header (src dst : Bytes) (len : ℕ) : Bytes :=
  [0x60, 0, 0, 0] ++ (putBe16 (UInt16.ofNat len) ++ ([ICMPV6_NEXT_HDR, 64] ++ (src ++ dst)))

def buildIcmpv6DestUnreach (p : Bytes) : Option Bytes :=
  if p.length < 40 then none
  else if IsIcmpv6Error p then none
  else
    let len := 8 + (excerpt p).length
    let src := ipv6Dst p
    let dst := ipv6Src p
    let cksum := checksum16 (icmpv6Pseudo src dst len ++ icmpv6Message 0 p)
    some (ipv6Header src dst len ++ icmpv6Message cksum p)

/-! ## The checksum -/

/-- The second fold of `internet_checksum` finds nothing to fold. -/
theorem checksum16_eq (data : Bytes) : checksum16 data = internetChecksum data := by
  unfold checksum16 internetChecksum checksumPartial checksumFinal
  rw [foldCarry_fixed (foldCarry_spec (sumWords data 0)).1]

theorem length_icmpv6Message (cksum : UInt16) (p : Bytes) :
    (icmpv6Message cksum p).length = 8 + (excerpt p).length := by
  simp only [icmpv6Message, putBe16, List.length_append, List.length_cons, List.length_nil]
  omega

theorem length_excerpt_le (p : Bytes) : (excerpt p).length ≤ 1232 := List.length_take_le _ _

theorem icmpv6_verifies {src dst p : Bytes} {len : ℕ} (hsrc : src.length = 16) (hdst : dst.length = 16) :
    checksum16 (icmpv6Pseudo src dst len ++
      icmpv6Message (checksum16 (icmpv6Pseudo src dst len ++ icmpv6Message 0 p)) p) = 0 := by
  have hexcerpt := length_excerpt_le p
  have hpre : (icmpv6Pseudo src dst len ++ [1, 0]).length = 42 := by
    simp only [icmpv6Pseudo, putBe32, List.length_append, List.length_cons, List.length_nil]
    omega
  have hmsg (cksum : UInt16) : icmpv6Pseudo src dst len ++ icmpv6Message cksum p =
      (icmpv6Pseudo src dst len ++ [1, 0]) ++ (putBe16 cksum ++ ([0, 0, 0, 0] ++ excerpt p)) :=
    (List.append_assoc _ _ _).symm
  have hpos : 0 < wordSum ((icmpv6Pseudo src dst len ++ [1, 0]) ++
      (putBe16 0 ++ ([0, 0, 0, 0] ++ excerpt p))) := by
    -- the next header of the pseudo-header
    have hsplit : icmpv6Pseudo src dst len ++ [1, 0] =
        (src ++ (dst ++ putBe32 (UInt32.ofNat len))) ++ [0, 0, 0, ICMPV6_NEXT_HDR, 1, 0] := by
      simp only [icmpv6Pseudo, List.append_assoc, List.cons_append, List.nil_append]
    have heven : (src ++ (dst ++ putBe32 (UInt32.ofNat len))).length % 2 = 0 := by
      simp only [putBe32, List.length_append, List.length_cons, List.length_nil]
      omega
    rw [wordSum_append (by omega), hsplit, wordSum_append heven]
    have hnext : 0 < wordSum [0, 0, 0, ICMPV6_NEXT_HDR, 1, 0] := by decide
    omega
  simp only [checksum16_eq, hmsg]
  refine internetChecksum_fill (by omega) ?_ hpos
  simp only [List.length_append, hpre, putBe16, List.length_cons, List.length_nil]
  omega

/-! ## The reply -/

/-- What a receiver of the reply `r` to the packet `p` reads. -/
structure Icmpv6Reject (p r : Bytes) : Prop where
  length : r.length = 48 + min p.length 1232
  version : r.getD 0 0 >>> 4 = 6
  payloadLen : (be16 (r.drop 4)).toNat = r.length - 40
  nextHdr : r.getD 6 0 = ICMPV6_NEXT_HDR
  src : ipv6Src r = ipv6Dst p
  dst : ipv6Dst r = ipv6Src p
  unreachable : (icmpv6Body r).take 2 = [1, 0]
  excerpt : (icmpv6Body r).drop 8 = p.take 1232
  sum : checksum16 (icmpv6Pseudo (ipv6Src r) (ipv6Dst r) (r.length - 40) ++ icmpv6Body r) = 0

theorem length_ipv6Header {src dst : Bytes} (hsrc : src.length = 16) (hdst : dst.length = 16) (len : ℕ) :
    (ipv6Header src dst len).length = 40 := by
  simp only [ipv6Header, putBe16, List.length_append, List.length_cons, List.length_nil]
  omega

theorem ipv6Src_header {src dst : Bytes} (hsrc : src.length = 16) (len : ℕ) (body : Bytes) :
    ipv6Src (ipv6Header src dst len ++ body) = src := by
  change ((src ++ dst) ++ body).take 16 = src
  rw [List.append_assoc, List.take_left' hsrc]

theorem ipv6Dst_header {src dst : Bytes} (hsrc : src.length = 16) (hdst : dst.length = 16) (len : ℕ)
    (body : Bytes) : ipv6Dst (ipv6Header src dst len ++ body) = dst := by
  change (((src ++ dst) ++ body).drop 16).take 16 = dst
  rw [List.append_assoc, List.drop_left' hsrc, List.take_left' hdst]

theorem icmpv6Body_header {src dst : Bytes} (hsrc : src.length = 16) (hdst : dst.length = 16) (len : ℕ)
    (body : Bytes) : icmpv6Body (ipv6Header src dst len ++ body) = body :=
  List.drop_left' (length_ipv6Header hsrc hdst len)

theorem reject_spec {p : Bytes} (hlen : 40 ≤ p.length) (cksum : UInt16)
    (hsum : checksum16 (icmpv6Pseudo (ipv6Dst p) (ipv6Src p) (8 + (Net.excerpt p).length) ++
      icmpv6Message cksum p) = 0) :
    Icmpv6Reject p (ipv6Header (ipv6Dst p) (ipv6Src p) (8 + (Net.excerpt p).length) ++
      icmpv6Message cksum p) := by
  have hsrc : (ipv6Dst p).length = 16 := by
    rw [ipv6Dst, List.length_take, List.length_drop]
    omega
  have hdst : (ipv6Src p).length = 16 := by
    rw [ipv6Src, List.length_take, List.length_drop]
    omega
  have hexcerpt := length_excerpt_le p
  have hmin : (Net.excerpt p).length = min p.length 1232 := by
    rw [Net.excerpt, List.length_take, Nat.min_comm]
  have htotal : (ipv6Header (ipv6Dst p) (ipv6Src p) (8 + (Net.excerpt p).length) ++
      icmpv6Message cksum p).length = 48 + (Net.excerpt p).length := by
    rw [List.length_append, length_ipv6Header hsrc hdst, length_icmpv6Message]
    omega
  refine ⟨?_, ?_, ?_, rfl, ipv6Src_header hsrc _ _, ipv6Dst_header hsrc hdst _ _, ?_, ?_, ?_⟩
  · rw [htotal, hmin]
  · show (0x60 : UInt8) >>> 4 = 6
    decide
  · have hfield : be16 ((ipv6Header (ipv6Dst p) (ipv6Src p) (8 + (Net.excerpt p).length) ++
        icmpv6Message cksum p).drop 4) = UInt16.ofNat (8 + (Net.excerpt p).length) :=
      be16_append (UInt16.ofNat (8 + (Net.excerpt p).length)) _
    rw [hfield, htotal, UInt16.toNat_ofNat', Nat.mod_eq_of_lt (by omega)]
    omega
  · rw [icmpv6Body_header hsrc hdst]
    rfl
  · rw [icmpv6Body_header hsrc hdst]
    rfl
  · rw [ipv6Src_header hsrc, ipv6Dst_header hsrc hdst, icmpv6Body_header hsrc hdst, htotal,
      show 48 + (Net.excerpt p).length - 40 = 8 + (Net.excerpt p).length by omega]
    exact hsum

theorem isIcmpv6Error_of_reject {p r : Bytes} (h : Icmpv6Reject p r) (hlen : 40 ≤ p.length) :
    IsIcmpv6Error r := by
  have hr := h.length
  refine ⟨h.nextHdr, by omega, ?_⟩
  have htype : r.getD 40 0 = ((icmpv6Body r).take 2).getD 0 0 := by
    simp only [icmpv6Body, List.getD_eq_getElem?_getD, List.getElem?_take, List.getElem?_drop]
    rfl
  rw [htype, h.unreachable]
  decide

/-- Every packet with a full IPv6 header that is no ICMPv6 error is rejected, the reject is addressed to
its sender, fits the minimum MTU, verifies and quotes the packet; and no reject is answered in turn. -/
theorem icmpv6_reject (p : Bytes) :
    (buildIcmpv6DestUnreach p = none ↔ p.length < 40 ∨ IsIcmpv6Error p) ∧
      ∀ r, buildIcmpv6DestUnreach p = some r →
        Icmpv6Reject p r ∧ r.length ≤ 1280 ∧ buildIcmpv6DestUnreach r = none := by
  unfold buildIcmpv6DestUnreach
  by_cases hlen : p.length < 40
  · simp [hlen]
  · by_cases herror : IsIcmpv6Error p
    · simp [hlen, herror]
    · simp only [hlen, herror, if_false, or_self, iff_false]
      refine ⟨Option.some_ne_none _, fun r hr => ?_⟩
      have hge : 40 ≤ p.length := Nat.not_lt.mp hlen
      have hsrc : (ipv6Dst p).length = 16 := by
        rw [ipv6Dst, List.length_take, List.length_drop]
        omega
      have hdst : (ipv6Src p).length = 16 := by
        rw [ipv6Src, List.length_take, List.length_drop]
        omega
      have hspec := reject_spec hge _ (icmpv6_verifies hsrc hdst)
      rw [Option.some.inj hr] at hspec
      have hrlen := hspec.length
      refine ⟨hspec, by omega, ?_⟩
      rw [if_neg (by omega), if_pos (isIcmpv6Error_of_reject hspec hge)]

end BaleVpn.Net
