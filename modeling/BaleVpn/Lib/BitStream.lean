import Mathlib.Algebra.Group.Nat.Defs
import Mathlib.Data.List.Basic

/-!
# Streams of bits

Digits of a fixed width as one stream of bits, the highest bit of each digit first, and the stream read
back in words of another width. `shiftOut` is the register that does this without a stream: it shifts
each digit in at the bottom and takes a word off the top of the bits that are still to be read. The
register is finite, so bits that were read are lost above it; `shiftOut_eq` says that no word misses
them.
-/

namespace BaleVpn.Lib.BitStream

/-- The low `w` bits of `n`, the highest first. -/
def bits : ℕ → ℕ → List Bool
  | 0, _ => []
  | w + 1, n => n.testBit w :: bits w n

/-- The number that the bits make up, the highest first. -/
def ofBits : List Bool → ℕ
  | [] => 0
  | b :: l => b.toNat * 2 ^ l.length + ofBits l

/-- The digits `ds` of `w` bits each as one stream. -/
def stream (w : ℕ) (ds : List ℕ) : List Bool := ds.flatMap (bits w)

/-- The stream in words of `k` bits; what is left of the last word is dropped. -/
def words (k : ℕ) (l : List Bool) : List ℕ :=
  if _h : 0 < k ∧ k ≤ l.length then ofBits (l.take k) :: words k (l.drop k) else []
termination_by l.length
decreasing_by
  rw [List.length_drop]
  omega

/-- The last `k` digits of `n` in base `2 ^ w`, the highest first and each with everything above it. -/
def digits (w : ℕ) : ℕ → ℕ → List ℕ
  | 0, _ => []
  | k + 1, n => n / 2 ^ (w * k) :: digits w k n

/-- A register of `W` bits whose low `n` bits are still to be read, fed with the digits `ds` of `w` bits;
a word of `k` bits is taken as soon as it is complete. -/
def shiftOut (W w k : ℕ) : ℕ → ℕ → List ℕ → List ℕ
  | _, _, [] => []
  | reg, n, d :: ds =>
    let reg := (reg * 2 ^ w + d) % 2 ^ W
    if k ≤ n + w then reg / 2 ^ (n + w - k) % 2 ^ k :: shiftOut W w k reg (n + w - k) ds
    else shiftOut W w k reg (n + w) ds

/-! ### The bits of a number -/

@[simp] theorem length_bits (w n : ℕ) : (bits w n).length = w := by
  induction w with
  | zero => rfl
  | succ w ih => rw [bits, List.length_cons, ih]

theorem bits_congr {w m n : ℕ} (h : ∀ i < w, m.testBit i = n.testBit i) : bits w m = bits w n := by
  induction w with
  | zero => rfl
  | succ w ih =>
    rw [bits, bits, h w (by omega), ih fun i hi => h i (by omega)]

theorem bits_mod {w W : ℕ} (n : ℕ) (h : w ≤ W) : bits w (n % 2 ^ W) = bits w n := by
  apply bits_congr
  intro i hi
  rw [Nat.testBit_mod_two_pow, decide_eq_true (by omega), Bool.true_and]

theorem bits_zero (w : ℕ) : bits w 0 = List.replicate w false := by
  induction w with
  | zero => rfl
  | succ w ih => rw [bits, Nat.zero_testBit, ih, List.replicate_succ]

theorem bits_add (m n x : ℕ) : bits (m + n) x = bits m (x / 2 ^ n) ++ bits n x := by
  induction m with
  | zero => rw [Nat.zero_add, bits, List.nil_append]
  | succ m ih =>
    rw [Nat.succ_add, bits, bits, ih, Nat.testBit_div_two_pow, List.cons_append]

theorem bits_shift {w d : ℕ} (n x : ℕ) (hd : d < 2 ^ w) :
    bits (n + w) (x * 2 ^ w + d) = bits n x ++ bits w d := by
  have hhigh : (x * 2 ^ w + d) / 2 ^ w = x := by
    rw [Nat.mul_comm, Nat.mul_add_div (Nat.two_pow_pos w), Nat.div_eq_of_lt hd, Nat.add_zero]
  have hlow : bits w (x * 2 ^ w + d) = bits w d := by
    rw [← bits_mod (x * 2 ^ w + d) (Nat.le_refl w), Nat.mul_comm, Nat.mul_add_mod, Nat.mod_eq_of_lt hd]
  rw [bits_add, hhigh, hlow]

theorem ofBits_bits (w n : ℕ) : ofBits (bits w n) = n % 2 ^ w := by
  induction w with
  | zero => rw [Nat.pow_zero, Nat.mod_one, bits, ofBits]
  | succ w ih =>
    rw [bits, ofBits, ih, length_bits, Nat.toNat_testBit, Nat.pow_succ, Nat.mod_mul, Nat.add_comm,
      Nat.mul_comm]

theorem ofBits_lt (l : List Bool) : ofBits l < 2 ^ l.length := by
  induction l with
  | nil => exact Nat.one_pos
  | cons b l ih =>
    have hb : b.toNat ≤ 1 := Bool.toNat_le b
    have hhigh := Nat.mul_le_mul_right (2 ^ l.length) hb
    rw [ofBits, List.length_cons, Nat.pow_succ]
    omega

theorem bits_ofBits (l : List Bool) : bits l.length (ofBits l) = l := by
  induction l with
  | nil => rfl
  | cons b l ih =>
    have hlow : bits l.length (b.toNat * 2 ^ l.length + ofBits l) = bits l.length (ofBits l) := by
      rw [← bits_mod _ (Nat.le_refl l.length), Nat.mul_comm, Nat.mul_add_mod, Nat.mod_eq_of_lt (ofBits_lt l)]
    have hhigh : (b.toNat * 2 ^ l.length + ofBits l).testBit l.length = b := by
      rw [Nat.testBit_eq_decide_div_mod_eq, Nat.mul_comm, Nat.mul_add_div (Nat.two_pow_pos _),
        Nat.div_eq_of_lt (ofBits_lt l)]
      cases b <;> rfl
    rw [List.length_cons, ofBits, bits, hhigh, hlow, ih]

/-! ### Streams -/

@[simp] theorem stream_nil (w : ℕ) : stream w [] = [] := rfl

@[simp] theorem stream_cons (w d : ℕ) (ds : List ℕ) : stream w (d :: ds) = bits w d ++ stream w ds :=
  List.flatMap_cons

@[simp] theorem length_stream (w : ℕ) (ds : List ℕ) : (stream w ds).length = w * ds.length := by
  induction ds with
  | nil => rfl
  | cons d ds ih =>
    rw [stream_cons, List.length_append, length_bits, ih, List.length_cons, Nat.mul_succ, Nat.add_comm]

theorem bits_digits (w k n : ℕ) : bits (w * k) n = stream w (digits w k n) := by
  induction k with
  | zero => rfl
  | succ k ih => rw [Nat.mul_succ, Nat.add_comm, bits_add, ih, digits, stream_cons]

theorem words_short {k : ℕ} {l : List Bool} (h : l.length < k) : words k l = [] := by
  rw [words, dif_neg]
  omega

theorem words_append {k : ℕ} {g : List Bool} (l : List Bool) (hk : 0 < k) (hg : g.length = k) :
    words k (g ++ l) = ofBits g :: words k l := by
  have hlen : k ≤ (g ++ l).length := by
    rw [List.length_append]
    omega
  rw [words, dif_pos ⟨hk, hlen⟩, ← hg, List.take_left, List.drop_left]

theorem words_stream_append {k : ℕ} (hk : 0 < k) (ds : List ℕ) (l : List Bool) :
    words k (stream k ds ++ l) = ds.map (· % 2 ^ k) ++ words k l := by
  induction ds with
  | nil => rfl
  | cons d ds ih =>
    rw [stream_cons, List.append_assoc, words_append _ hk (length_bits k d), ofBits_bits, ih, List.map_cons,
      List.cons_append]

/-- A stream read in words of its own width gives the digits back, with no attention to a last word that
is incomplete. -/
theorem words_stream {k : ℕ} (hk : 0 < k) {ds : List ℕ} (hds : ∀ d ∈ ds, d < 2 ^ k) {r : List Bool}
    (hr : r.length < k) : words k (stream k ds ++ r) = ds := by
  have hmap : ds.map (· % 2 ^ k) = ds :=
    (List.map_congr_left fun d hd => Nat.mod_eq_of_lt (hds d hd)).trans (List.map_id ds)
  rw [words_stream_append hk, hmap, words_short hr, List.append_nil]

/-- A stream of whole words is the stream of its words. -/
theorem stream_words {k : ℕ} (hk : 0 < k) {l : List Bool} (hl : k ∣ l.length) : stream k (words k l) = l := by
  induction l using words.induct k with
  | case1 l h ih =>
    have htake : (l.take k).length = k := by
      rw [List.length_take]
      omega
    have hrest : k ∣ (l.drop k).length := by
      rw [List.length_drop]
      exact Nat.dvd_sub hl (Nat.dvd_refl k)
    have hbits := bits_ofBits (l.take k)
    rw [htake] at hbits
    rw [words, dif_pos h, stream_cons, hbits, ih hrest, List.take_append_drop]
  | case2 l h =>
    have hzero : l.length = 0 := Nat.eq_zero_of_dvd_of_lt hl (by omega)
    rw [words, dif_neg h, List.eq_nil_of_length_eq_zero hzero, stream_nil]

theorem words_lt {k : ℕ} {l : List Bool} : ∀ d ∈ words k l, d < 2 ^ k := by
  induction l using words.induct k with
  | case1 l h ih =>
    intro d hd
    rw [words, dif_pos h] at hd
    rcases List.mem_cons.mp hd with rfl | hd
    · have hlt := ofBits_lt (l.take k)
      rw [List.length_take, Nat.min_eq_left h.2] at hlt
      exact hlt
    · exact ih d hd
  | case2 l h =>
    intro d hd
    rw [words, dif_neg h] at hd
    exact absurd hd List.not_mem_nil

/-! ### The register -/

/-- The words that come out of the register are those of the stream that went in, after the bits that it
held. It needs room for what is left of a word and one more digit, and for no more than that. -/
theorem shiftOut_eq {W w k : ℕ} (hwk : w ≤ k) (hW : k - 1 + w ≤ W) {ds : List ℕ} (hds : ∀ d ∈ ds, d < 2 ^ w)
    {reg n : ℕ} (hn : n < k) : shiftOut W w k reg n ds = words k (bits n reg ++ stream w ds) := by
  induction ds generalizing reg n with
  | nil =>
    rw [shiftOut, stream_nil, List.append_nil, words_short]
    rw [length_bits]
    exact hn
  | cons d ds ih =>
    have hd : d < 2 ^ w := hds d (List.mem_cons_self ..)
    have htail : ∀ e ∈ ds, e < 2 ^ w := fun e he => hds e (List.mem_cons_of_mem d he)
    -- only the bits that are still to be read have to fit: the rest of the register may be stale
    have hbits : bits (n + w) ((reg * 2 ^ w + d) % 2 ^ W) = bits n reg ++ bits w d := by
      rw [bits_mod _ (by omega), bits_shift n reg hd]
    rw [shiftOut, stream_cons, ← List.append_assoc, ← hbits]
    by_cases hword : k ≤ n + w
    · have hsplit := bits_add k (n + w - k) ((reg * 2 ^ w + d) % 2 ^ W)
      rw [Nat.add_sub_cancel' hword] at hsplit
      rw [if_pos hword, hsplit, List.append_assoc, words_append _ (by omega) (length_bits k _), ofBits_bits,
        ih htail (by omega)]
    · rw [if_neg hword, ih htail (by omega)]

end BaleVpn.Lib.BitStream
