import BaleVpn.Lib.Serial
import BaleVpn.Tcp.Session

/-!
# The comparisons of the source are serial number comparisons
-/

namespace BaleVpn.Tcp

theorem seqLt_eq (a b : UInt32) : seqLt a b = Lib.serialLt a.toBitVec b.toBitVec := by
  unfold seqLt Lib.serialLt
  rw [BitVec.msb_eq_toInt, decide_eq_decide, Int32.lt_iff_toInt_lt]
  rfl

theorem seqLe_eq (a b : UInt32) : seqLe a b = Lib.serialLe a.toBitVec b.toBitVec := by
  have hlt := seqLt_eq a b
  unfold Lib.serialLe
  rw [← hlt]
  unfold seqLt seqLe
  rw [Bool.eq_iff_iff, Bool.or_eq_true, decide_eq_true_eq, decide_eq_true_eq, beq_iff_eq,
    Int32.le_iff_lt_or_eq]
  refine or_congr_right ?_
  rw [UInt32.toBitVec_inj]
  constructor
  · intro h
    have hz : a - b = 0 := congrArg Int32.toUInt32 h
    rw [← UInt32.sub_add_cancel a b, hz, UInt32.zero_add]
  · rintro rfl
    rw [UInt32.sub_self]
    rfl

theorem seqLt_iff (a b : UInt32) : seqLt a b = true ↔ 2 ^ 31 ≤ (a - b).toNat := by
  rw [seqLt_eq]
  unfold Lib.serialLt
  rw [BitVec.msb_eq_decide, decide_eq_true_eq]
  rfl

theorem seqLe_iff (a b : UInt32) : seqLe a b = true ↔ a = b ∨ 2 ^ 31 ≤ (a - b).toNat := by
  rw [seqLe_eq]
  unfold Lib.serialLe
  rw [← seqLt_eq, Bool.or_eq_true, seqLt_iff, beq_iff_eq, UInt32.toBitVec_inj, or_comm]

/-- Positions less than half the circle apart compare as their sequence numbers do. -/
theorem seqLt_ofNat {i j : ℕ} (h₁ : i < j + 2 ^ 31) (h₂ : j ≤ i + 2 ^ 31) :
    seqLt (UInt32.ofNat i) (UInt32.ofNat j) = decide (i < j) := by
  rw [seqLt_eq]
  exact Lib.serialLt_ofNat (w := 32) (by decide) h₁ h₂

/-! ## Stream positions -/

/-- The sequence number of position `p` of a stream whose first byte is at `base`. -/
def seqAt (base : UInt32) (p : ℕ) : UInt32 := base + UInt32.ofNat p

theorem seqAt_add (base : UInt32) (p n : ℕ) : seqAt base (p + n) = seqAt base p + n.toUInt32 := by
  unfold seqAt
  rw [UInt32.ofNat_add, ← UInt32.add_assoc]

theorem seqAt_inj {base : UInt32} {p q : ℕ} (h : seqAt base p = seqAt base q) :
    p % 2 ^ 32 = q % 2 ^ 32 := by
  have hnat := congrArg UInt32.toNat (UInt32.add_right_inj _ |>.mp h)
  simpa using hnat

theorem seqAt_sub (base : UInt32) {p q : ℕ} (h : q ≤ p) :
    seqAt base p - seqAt base q = UInt32.ofNat (p - q) := by
  obtain ⟨n, rfl⟩ := Nat.exists_eq_add_of_le h
  rw [seqAt_add, UInt32.add_comm, UInt32.add_sub_cancel, Nat.add_sub_cancel_left]

theorem seqLt_seqAt (base : UInt32) {i j : ℕ} (h₁ : i < j + 2 ^ 31) (h₂ : j ≤ i + 2 ^ 31) :
    seqLt (seqAt base i) (seqAt base j) = decide (i < j) := by
  have hsub : seqAt base i - seqAt base j = UInt32.ofNat i - UInt32.ofNat j := by
    unfold seqAt
    grind
  unfold seqLt
  rw [hsub]
  exact seqLt_ofNat h₁ h₂

theorem seqLe_seqAt (base : UInt32) {i j : ℕ} (h₁ : i ≤ j) (h₂ : j ≤ i + 2 ^ 31) :
    seqLe (seqAt base i) (seqAt base j) = true := by
  rw [seqLe_iff]
  obtain rfl | hlt := Nat.eq_or_lt_of_le h₁
  · exact .inl rfl
  · right
    rw [← seqLt_iff, seqLt_seqAt base (by omega) h₂]
    exact decide_eq_true hlt

/-! ## Bounds -/

theorem uint32_toNat_min (a b : UInt32) : (min a b).toNat = min a.toNat b.toNat := by
  show (if a ≤ b then a else b).toNat = _
  split
  all_goals
    rename_i h
    rw [UInt32.le_iff_toNat_le] at h
    omega

theorem uint32_toNat_max (a b : UInt32) : (max a b).toNat = max a.toNat b.toNat := by
  show (if a ≤ b then b else a).toNat = _
  split
  all_goals
    rename_i h
    rw [UInt32.le_iff_toNat_le] at h
    omega

end BaleVpn.Tcp
