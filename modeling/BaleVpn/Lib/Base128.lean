import Mathlib.Algebra.Group.Nat.Defs

/-!
# Numbers in base 128

A number as bytes of seven bits each, the lowest first, where a high bit says that another byte follows.
-/

namespace BaleVpn.Lib.Base128

/-- The number that the low seven bits make up. -/
def value : List UInt8 → ℕ
  | [] => 0
  | b :: bs => b.toNat % 128 + 128 * value bs

/-- The last byte is the first without the high bit. -/
def Terminated : List UInt8 → Prop
  | [] => False
  | b :: bs => if b.toNat < 128 then bs = [] else Terminated bs

theorem Terminated.ne_nil {bs : List UInt8} (h : Terminated bs) : bs ≠ [] := by
  rintro rfl
  exact h

theorem terminated_singleton {b : UInt8} (h : b.toNat < 128) : Terminated [b] := by
  simp [Terminated, h]

theorem terminated_cons {b : UInt8} {bs : List UInt8} (h : ¬ b.toNat < 128) :
    Terminated (b :: bs) ↔ Terminated bs := by
  simp [Terminated, h]

theorem toNat_and_low (b : UInt8) : (b &&& 0x7F).toNat = b.toNat % 128 :=
  Nat.and_two_pow_sub_one_eq_mod b.toNat 7

theorem and_high_eq_zero (b : UInt8) : b &&& 0x80 = 0 ↔ b.toNat < 128 := by
  have hall : ∀ n : Fin 256, n.val &&& 128 = 0 ↔ n.val < 128 := by decide +kernel
  rw [← UInt8.toNat_inj, UInt8.toNat_and]
  exact hall ⟨b.toNat, b.toNat_lt⟩

theorem uint64_and_low (v : UInt64) : (v &&& 0x7F).toNat = v.toNat % 128 :=
  Nat.and_two_pow_sub_one_eq_mod v.toNat 7

theorem and_not_low_eq_zero (v : UInt64) : v &&& ~~~0x7F = 0 ↔ v.toNat < 128 := by
  have hsplit : (v &&& 0x7F) ||| (v &&& ~~~0x7F) = v := by
    rw [← UInt64.toBitVec_inj, UInt64.toBitVec_or, UInt64.toBitVec_and, UInt64.toBitVec_and,
      ← BitVec.and_or_distrib_left, ← UInt64.toBitVec_or, UInt64.or_not_self, ← UInt64.toBitVec_and,
      UInt64.and_neg_one]
  have hlow := uint64_and_low v
  constructor
  · intro h
    rw [h, UInt64.or_zero] at hsplit
    rw [hsplit] at hlow
    omega
  · intro h
    have hv : v &&& 0x7F = v := by
      rw [← UInt64.toNat_inj, hlow, Nat.mod_eq_of_lt h]
    rw [← hv, UInt64.and_assoc, UInt64.and_not_self, UInt64.and_zero]

theorem toNat_shiftRight_seven (v : UInt64) : (v >>> 7).toNat = v.toNat / 128 :=
  Nat.shiftRight_eq_div_pow v.toNat 7

theorem toNat_low_or_high (v : UInt64) : ((v &&& 0x7F) ||| 0x80).toUInt8.toNat = v.toNat % 128 + 128 := by
  have hlow := uint64_and_low v
  have hlt : (v &&& 0x7F).toNat < 2 ^ 7 := by
    omega
  have hor : (v &&& 0x7F).toNat ||| 1 <<< 7 = 1 <<< 7 + (v &&& 0x7F).toNat := by
    rw [Nat.or_comm, Nat.shiftLeft_add_eq_or_of_lt hlt]
  rw [UInt64.toNat_toUInt8, UInt64.toNat_or]
  change ((v &&& 0x7F).toNat ||| 1 <<< 7) % 2 ^ 8 = _
  rw [hor, hlow]
  omega

/-- A shifted group above what the accumulator holds is added to it. -/
theorem toNat_or_shift {acc x : UInt64} {k : ℕ} (hk : k < 64) (hacc : acc.toNat < 2 ^ k) :
    (acc ||| (x <<< UInt64.ofNat k)).toNat = acc.toNat + x.toNat * 2 ^ k % 2 ^ 64 := by
  have hshift : (UInt64.ofNat k).toNat % 64 = k := by
    rw [UInt64.toNat_ofNat']
    omega
  have hmod : x.toNat * 2 ^ k % 2 ^ 64 = (x.toNat % 2 ^ (64 - k)) <<< k := by
    rw [Nat.shiftLeft_eq, ← Nat.mul_mod_mul_right, ← Nat.pow_add, Nat.sub_add_cancel (Nat.le_of_lt hk)]
  rw [UInt64.toNat_or, UInt64.toNat_shiftLeft, hshift, Nat.shiftLeft_eq, hmod, Nat.or_comm,
    ← Nat.shiftLeft_add_eq_or_of_lt hacc, Nat.add_comm]

end BaleVpn.Lib.Base128
