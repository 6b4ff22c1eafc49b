import Mathlib.Data.Nat.ModEq

/-!
# One's complement sums

Sums of words below `w + 1` with end-around carry: the carries out of a word are added back at its
low end, which keeps the sum modulo `w`. A checksum is the complement of such a sum.
-/

namespace BaleVpn.Lib

/-- One round of end-around carry. -/
def carry (w n : ℕ) : ℕ := n % (w + 1) + n / (w + 1)

theorem carry_of_le {w n : ℕ} (h : n ≤ w) : carry w n = n := by
  unfold carry
  rw [Nat.mod_eq_of_lt (Nat.lt_succ_of_le h), Nat.div_eq_of_lt (Nat.lt_succ_of_le h), Nat.add_zero]

theorem carry_modEq (w n : ℕ) : carry w n ≡ n [MOD w] := by
  have hsplit := Nat.mod_add_div n (w + 1)
  have hn : n = carry w n + w * (n / (w + 1)) := by
    unfold carry
    rw [Nat.add_mul, Nat.one_mul] at hsplit
    omega
  conv_rhs => rw [hn]
  exact (Nat.add_mul_mod_self_left _ _ _).symm

theorem carry_pos {w n : ℕ} (h : 0 < n) : 0 < carry w n := by
  unfold carry
  have hsplit := Nat.mod_add_div n (w + 1)
  rcases Nat.eq_zero_or_pos (n / (w + 1)) with hq | hq
  · rw [hq, Nat.mul_zero] at hsplit
    omega
  · omega

/-- The first round leaves at most one carry to come, the second none. -/
theorem carry_carry_le {w n : ℕ} (h : n < (w + 1) * (w + 1)) : carry w (carry w n) ≤ w := by
  have hdiv : n / (w + 1) < w + 1 := Nat.div_lt_of_lt_mul h
  have hmod : n % (w + 1) < w + 1 := Nat.mod_lt n (Nat.succ_pos w)
  have hone : carry w n ≤ 2 * w := by
    unfold carry
    omega
  generalize carry w n = m at hone
  rcases Nat.lt_or_ge m (w + 1) with hm | hm
  · rw [carry_of_le (Nat.le_of_lt_succ hm)]
    omega
  · have hq : m / (w + 1) = 1 := Nat.div_eq_of_lt_le (by omega) (by omega)
    have hr : m % (w + 1) = m - (w + 1) := by
      rw [Nat.mod_eq_sub_mod hm, Nat.mod_eq_of_lt (by omega)]
    unfold carry
    omega

theorem eq_of_modEq_zero {w r : ℕ} (hpos : 0 < r) (hle : r ≤ w) (h : r ≡ 0 [MOD w]) : r = w := by
  have hdvd : w ∣ r := (Nat.modEq_zero_iff_dvd).mp h
  exact Nat.le_antisymm hle (Nat.le_of_dvd hpos hdvd)

theorem add_complement_modEq {w s f : ℕ} (hle : f ≤ w) (h : f ≡ s [MOD w]) :
    s + (w - f) ≡ 0 [MOD w] := by
  have hadd : f + (w - f) ≡ s + (w - f) [MOD w] := Nat.ModEq.add_right (w - f) h
  rw [Nat.add_sub_cancel' hle] at hadd
  exact hadd.symm.trans (Nat.modEq_zero_iff_dvd.mpr (Nat.dvd_refl w))

end BaleVpn.Lib
