import Mathlib.Data.Nat.ModEq

/-!
# Serial number arithmetic

Sequence numbers of `w` bits that wrap are compared by the sign of their difference. For two
numbers that are wrapped images of unbounded positions less than half the circle apart, the
comparison is the comparison of the positions.
-/

namespace BaleVpn.Lib

variable {w : ℕ}

/-- `a` precedes `b` on the circle: the difference read as a signed number is negative. -/
def serialLt (a b : BitVec w) : Bool := (a - b).msb

/-- `a` precedes or equals `b`. -/
def serialLe (a b : BitVec w) : Bool := serialLt a b || a == b

theorem ofNat_sub_ofNat_add (j d : ℕ) :
    BitVec.ofNat w (j + d) - BitVec.ofNat w j = BitVec.ofNat w d := by
  rw [BitVec.ofNat_add, BitVec.add_comm, BitVec.add_sub_cancel]

theorem msb_ofNat_of_lt (d : ℕ) (hd : d < 2 ^ (w - 1)) : (BitVec.ofNat w d).msb = false := by
  have hw : 2 ^ (w - 1) ≤ 2 ^ w := Nat.pow_le_pow_right (by omega) (by omega)
  rw [BitVec.msb_eq_decide, BitVec.toNat_ofNat, Nat.mod_eq_of_lt (by omega)]
  simpa using hd

theorem msb_neg_ofNat (d : ℕ) (hw : 0 < w) (h0 : 0 < d) (hd : d ≤ 2 ^ (w - 1)) :
    (-BitVec.ofNat w d).msb = true := by
  have hw2 : 2 ^ w = 2 * 2 ^ (w - 1) := by
    rw [← Nat.pow_succ', Nat.succ_eq_add_one, Nat.sub_add_cancel hw]
  have hpos := Nat.two_pow_pos (w - 1)
  rw [BitVec.msb_eq_decide, BitVec.toNat_neg, BitVec.toNat_ofNat,
    Nat.mod_eq_of_lt (show d < 2 ^ w by omega),
    Nat.mod_eq_of_lt (show 2 ^ w - d < 2 ^ w by omega)]
  simp only [decide_eq_true_eq]
  omega

/-- Positions at most half the circle apart compare as their wrapped images do. -/
theorem serialLt_ofNat {i j : ℕ} (hw : 0 < w) (h₁ : i < j + 2 ^ (w - 1))
    (h₂ : j ≤ i + 2 ^ (w - 1)) :
    serialLt (BitVec.ofNat w i) (BitVec.ofNat w j) = decide (i < j) := by
  unfold serialLt
  rcases Nat.lt_or_ge i j with h | h
  · obtain ⟨d, rfl⟩ := Nat.exists_eq_add_of_lt h
    have hneg : BitVec.ofNat w i - BitVec.ofNat w (i + d + 1) = -BitVec.ofNat w (d + 1) := by
      rw [← ofNat_sub_ofNat_add i (d + 1), Nat.add_assoc]
      grind
    rw [hneg, msb_neg_ofNat _ hw (by omega) (by omega)]
    exact (decide_eq_true h).symm
  · obtain ⟨d, rfl⟩ := Nat.exists_eq_add_of_le h
    rw [ofNat_sub_ofNat_add, msb_ofNat_of_lt _ (by omega)]
    simp

end BaleVpn.Lib
