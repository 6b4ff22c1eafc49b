import BaleVpn.Lib.OnesComplement
import BaleVpn.Net.Packet

/-!
# The Internet checksum

`checksum_partial` and `checksum_final` in numbers: the sum of the big-endian words with end-around
carry, which is the plain sum modulo `65535`, and zero only for a zero sum.
-/

namespace BaleVpn.Net

open Lib

/-! ## Big-endian fields -/

theorem be16_toNat (a b : UInt8) : (be16 [a, b]).toNat = a.toNat * 256 + b.toNat := by
  have ha := a.toNat_lt
  have hb := b.toNat_lt
  have hor := Nat.two_pow_add_eq_or_of_lt (i := 8) hb a.toNat
  unfold be16
  simp only [List.getD_cons_zero, List.getD_cons_succ, UInt16.toNat_or, UInt16.toNat_shiftLeft,
    UInt8.toNat_toUInt16, UInt16.toNat_ofNat, Nat.shiftLeft_eq, Nat.reduceMod, Nat.reducePow]
  rw [Nat.mod_eq_of_lt (by omega), Nat.mul_comm, ← hor]

theorem be32_toNat (a b c d : UInt8) : (be32 [a, b, c, d]).toNat =
    a.toNat * 2 ^ 24 + b.toNat * 2 ^ 16 + c.toNat * 2 ^ 8 + d.toNat := by
  have ha := a.toNat_lt
  have hb := b.toNat_lt
  have hc := c.toNat_lt
  have hd := d.toNat_lt
  have hor₁ := Nat.two_pow_add_eq_or_of_lt (i := 24) (b := 2 ^ 16 * b.toNat) (by omega) a.toNat
  have hor₂ := Nat.two_pow_add_eq_or_of_lt (i := 16) (b := 2 ^ 8 * c.toNat) (by omega)
    (2 ^ 8 * a.toNat + b.toNat)
  have hor₃ := Nat.two_pow_add_eq_or_of_lt (i := 8) (b := d.toNat) (by omega)
    (2 ^ 16 * a.toNat + 2 ^ 8 * b.toNat + c.toNat)
  unfold be32
  simp only [List.getD_cons_zero, List.getD_cons_succ, UInt32.toNat_or, UInt32.toNat_shiftLeft,
    UInt8.toNat_toUInt32, UInt32.toNat_ofNat, Nat.shiftLeft_eq, Nat.reduceMod, Nat.reducePow]
    at hor₁ hor₂ hor₃ ⊢
  rw [Nat.mod_eq_of_lt (a := a.toNat * _) (by omega), Nat.mod_eq_of_lt (a := b.toNat * _) (by omega),
    Nat.mod_eq_of_lt (a := c.toNat * _) (by omega), Nat.mul_comm, Nat.mul_comm b.toNat,
    Nat.mul_comm c.toNat, ← hor₁,
    show 16777216 * a.toNat + 65536 * b.toNat = 65536 * (256 * a.toNat + b.toNat) by omega,
    ← hor₂, show 65536 * (256 * a.toNat + b.toNat) + 256 * c.toNat =
      256 * (65536 * a.toNat + 256 * b.toNat + c.toNat) by omega, ← hor₃]

theorem be16_putBe16 (v : UInt16) : be16 (putBe16 v) = v := by
  have hv := v.toNat_lt
  apply UInt16.toNat_inj.mp
  unfold putBe16
  rw [be16_toNat]
  simp only [UInt16.toNat_toUInt8, UInt16.toNat_shiftRight, Nat.shiftRight_eq_div_pow,
    UInt16.toNat_ofNat, Nat.reduceMod, Nat.reducePow]
  omega

theorem be32_putBe32 (v : UInt32) : be32 (putBe32 v) = v := by
  have hv := v.toNat_lt
  apply UInt32.toNat_inj.mp
  unfold putBe32
  rw [be32_toNat]
  simp only [UInt32.toNat_toUInt8, UInt32.toNat_shiftRight, Nat.shiftRight_eq_div_pow,
    UInt32.toNat_ofNat, Nat.reduceMod, Nat.reducePow]
  omega

theorem be16_append (v : UInt16) (l : Bytes) : be16 (putBe16 v ++ l) = v := be16_putBe16 v

/-! ## Folding -/

theorem foldCarry_toNat (n : ℕ) : ∀ x : UInt32,
    (foldCarry n x).toNat = (carry 65535)^[n] x.toNat := by
  induction n with
  | zero => exact fun _ => rfl
  | succ n ih =>
    intro x
    have hx := x.toNat_lt
    have hhi : (x >>> (16 : UInt32)).toNat = x.toNat / 65536 := by
      simp [UInt32.toNat_shiftRight, Nat.shiftRight_eq_div_pow]
    have hlo : (x &&& 0xffff).toNat = x.toNat % 65536 := by
      rw [UInt32.toNat_and]
      exact Nat.and_two_pow_sub_one_eq_mod x.toNat 16
    unfold foldCarry
    rw [Function.iterate_succ_apply]
    split
    · rw [ih, UInt32.toNat_add, hlo, hhi, Nat.mod_eq_of_lt (by omega)]
      rfl
    · rename_i hnone
      have hzero : x.toNat / 65536 = 0 := by
        rw [← hhi, show x >>> (16 : UInt32) = 0 by simpa using hnone]
        rfl
      have hle : x.toNat ≤ 65535 := by omega
      rw [carry_of_le hle]
      exact (Function.iterate_fixed (carry_of_le hle) n).symm

/-- The folded sum: at most 16 bits, congruent to the sum, and zero only for zero. -/
theorem foldCarry_spec (x : UInt32) : (foldCarry 3 x).toNat ≤ 65535 ∧
    (foldCarry 3 x).toNat ≡ x.toNat [MOD 65535] ∧ (0 < x.toNat → 0 < (foldCarry 3 x).toNat) := by
  have hx := x.toNat_lt
  have hle := carry_carry_le (w := 65535) (n := x.toNat) (by omega)
  have hiter : (foldCarry 3 x).toNat = carry 65535 (carry 65535 x.toNat) := by
    rw [foldCarry_toNat]
    exact carry_of_le hle
  rw [hiter]
  refine ⟨hle, ?_, fun hpos => carry_pos (carry_pos hpos)⟩
  exact (carry_modEq 65535 _).trans (carry_modEq 65535 _)

theorem foldCarry_fixed {x : UInt32} (h : x.toNat ≤ 65535) : foldCarry 3 x = x := by
  apply UInt32.toNat_inj.mp
  rw [foldCarry_toNat]
  exact Function.iterate_fixed (carry_of_le h) 3

theorem checksumFinal_toNat (x : UInt32) :
    (checksumFinal x).toNat = 65535 - (foldCarry 3 x).toNat := by
  have hle := (foldCarry_spec x).1
  unfold checksumFinal
  rw [UInt16.toNat_not, UInt32.toNat_toUInt16, Nat.mod_eq_of_lt (by omega)]
  rfl

/-! ## Words -/

/-- The sum of the big-endian words of `data`, an odd last byte padded. -/
def wordSum : Bytes → ℕ
  | a :: b :: rest => (be16 [a, b]).toNat + wordSum rest
  | [a] => a.toNat * 256
  | [] => 0

theorem wordSum_le (data : Bytes) : wordSum data ≤ 65535 * ((data.length + 1) / 2) := by
  induction data using wordSum.induct with
  | case1 a b rest ih =>
    have hw := (be16 [a, b]).toNat_lt
    simp only [wordSum, List.length_cons]
    omega
  | case2 a =>
    have ha := a.toNat_lt
    simp only [wordSum, List.length_singleton]
    omega
  | case3 => simp [wordSum]

theorem wordSum_append {data : Bytes} (h : data.length % 2 = 0) (rest : Bytes) :
    wordSum (data ++ rest) = wordSum data + wordSum rest := by
  induction data using wordSum.induct with
  | case1 a b l ih =>
    have hl : l.length % 2 = 0 := by
      simp only [List.length_cons] at h
      omega
    rw [List.cons_append, List.cons_append, wordSum, wordSum, ih hl, Nat.add_assoc]
  | case2 a => simp at h
  | case3 => simp [wordSum]

theorem wordSum_putBe16 (v : UInt16) : wordSum (putBe16 v) = v.toNat := by
  have hv : wordSum (putBe16 v) = (be16 (putBe16 v)).toNat := rfl
  rw [hv, be16_putBe16]

/-- Packets are too short for the 32-bit sum to wrap. -/
theorem sumWords_toNat (data : Bytes) : ∀ seed : UInt32, seed.toNat + wordSum data < 2 ^ 32 →
    (sumWords data seed).toNat = seed.toNat + wordSum data := by
  induction data using wordSum.induct with
  | case1 a b rest ih =>
    intro seed h
    simp only [wordSum] at h
    have hadd : (seed + (be16 [a, b]).toUInt32).toNat = seed.toNat + (be16 [a, b]).toNat := by
      rw [UInt32.toNat_add, UInt16.toNat_toUInt32, Nat.mod_eq_of_lt (by omega)]
    rw [sumWords, ih _ (by omega), hadd, wordSum, Nat.add_assoc]
  | case2 a =>
    intro seed h
    have ha := a.toNat_lt
    simp only [wordSum] at h
    rw [sumWords, wordSum, UInt32.toNat_add, UInt32.toNat_shiftLeft, UInt8.toNat_toUInt32]
    simp only [UInt32.toNat_ofNat, Nat.shiftLeft_eq, Nat.reducePow, Nat.reduceMod]
    omega
  | case3 => exact fun _ _ => rfl

theorem checksumPartial_spec (data : Bytes) (seed : UInt32) (hdata : data.length ≤ 0xffff)
    (hseed : seed.toNat ≤ 65535) : (checksumPartial data seed).toNat ≤ 65535 ∧
      (checksumPartial data seed).toNat ≡ seed.toNat + wordSum data [MOD 65535] ∧
      (0 < seed.toNat + wordSum data → 0 < (checksumPartial data seed).toNat) := by
  have hle := wordSum_le data
  have hsum := sumWords_toNat data seed (by omega)
  have hspec := foldCarry_spec (sumWords data seed)
  rw [hsum] at hspec
  exact hspec

/-- `internet_checksum` of a non-zero piece of a packet: the complement of the residue of its words
that lies between 1 and 65535. -/
theorem internetChecksum_spec {data : Bytes} (hdata : data.length ≤ 0xffff)
    (hpos : 0 < wordSum data) : ∃ f, 0 < f ∧ f ≤ 65535 ∧ f ≡ wordSum data [MOD 65535] ∧
      (internetChecksum data).toNat = 65535 - f := by
  obtain ⟨hle, hmod, hzero⟩ := checksumPartial_spec data 0 hdata (by decide)
  rw [show (0 : UInt32).toNat = 0 from rfl, Nat.zero_add] at hmod hzero
  refine ⟨_, hzero hpos, hle, hmod, ?_⟩
  unfold internetChecksum
  rw [checksumFinal_toNat, foldCarry_fixed hle]

theorem internetChecksum_fill {pre post : Bytes} (heven : pre.length % 2 = 0)
    (hlen : (pre ++ (putBe16 0 ++ post)).length ≤ 0xffff)
    (hpos : 0 < wordSum (pre ++ (putBe16 0 ++ post))) :
    internetChecksum (pre ++ (putBe16 (internetChecksum (pre ++ (putBe16 0 ++ post))) ++ post)) = 0 := by
  have hsum : ∀ c, wordSum (pre ++ (putBe16 c ++ post)) =
      wordSum (pre ++ (putBe16 0 ++ post)) + c.toNat := by
    intro c
    have hword : ∀ c, (putBe16 c).length % 2 = 0 := fun c => by simp [putBe16]
    rw [wordSum_append heven, wordSum_append heven, wordSum_append (hword c),
      wordSum_append (hword 0), wordSum_putBe16, wordSum_putBe16, show (0 : UInt16).toNat = 0 from rfl]
    omega
  have hlen' : ∀ c, (pre ++ (putBe16 c ++ post)).length ≤ 0xffff := fun c => by
    simpa [putBe16] using hlen
  obtain ⟨f, hf, hle, hmod, hcs⟩ := internetChecksum_spec hlen hpos
  generalize internetChecksum (pre ++ (putBe16 0 ++ post)) = c at hcs ⊢
  obtain ⟨g, hg, hgle, hgmod, hzero⟩ := internetChecksum_spec (hlen' c) (by rw [hsum]; omega)
  rw [hsum, hcs] at hgmod
  have hgw : g = 65535 := eq_of_modEq_zero hg hgle (hgmod.trans (add_complement_modEq hle hmod))
  apply UInt16.toNat_inj.mp
  rw [hzero, hgw]
  rfl

end BaleVpn.Net
