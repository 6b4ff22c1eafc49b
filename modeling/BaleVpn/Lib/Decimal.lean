/-!
# Decimal integers

The checked parse of a signed integer between two bounds, and that it reads back what an integer is
rendered as.
-/

namespace BaleVpn.Lib

/-- Digits are added to `acc` at its low end, or subtracted; a step out of bounds fails. -/
def readDigits (lo hi : Int) (neg : Bool) : Int → List Char → Option Int
  | acc, [] => some acc
  | acc, c :: cs =>
    if c.isDigit then
      let d : Int := (c.toNat - '0'.toNat : Nat)
      let next := if neg then acc * 10 - d else acc * 10 + d
      if lo ≤ next ∧ next ≤ hi then readDigits lo hi neg next cs else none
    else none

/-- A sign may come first, and a digit must follow. -/
def readInt (lo hi : Int) (s : List Char) : Option Int :=
  match s with
  | [] => none
  | ['+'] => none
  | ['-'] => none
  | '+' :: cs => readDigits lo hi false 0 cs
  | '-' :: cs => readDigits lo hi true 0 cs
  | cs => readDigits lo hi false 0 cs

theorem le_ofDigitChars (cs : List Char) (n : Nat) : n ≤ Nat.ofDigitChars 10 cs n := by
  induction cs generalizing n with
  | nil => exact Nat.le_of_eq Nat.ofDigitChars_nil.symm
  | cons c cs ih =>
    rw [Nat.ofDigitChars_cons]
    have hrest := ih (10 * n + (c.toNat - '0'.toNat))
    omega

theorem readDigits_pos {lo hi : Int} (hlo : lo ≤ 0) {cs : List Char} (hcs : ∀ c ∈ cs, c.isDigit)
    {n : Nat} (h : (Nat.ofDigitChars 10 cs n : Int) ≤ hi) :
    readDigits lo hi false n cs = some (Nat.ofDigitChars 10 cs n : Int) := by
  induction cs generalizing n with
  | nil => rw [readDigits, Nat.ofDigitChars_nil]
  | cons c cs ih =>
    rw [Nat.ofDigitChars_cons] at h ⊢
    have hstep : (n : Int) * 10 + (c.toNat - '0'.toNat : Nat) = (10 * n + (c.toNat - '0'.toNat) : Nat) := by
      omega
    have hle := le_ofDigitChars cs (10 * n + (c.toNat - '0'.toNat))
    rw [readDigits, if_pos (hcs c List.mem_cons_self)]
    simp only [Bool.false_eq_true, if_false]
    rw [hstep, if_pos (by omega)]
    exact ih (fun c hc => hcs c (List.mem_cons_of_mem _ hc)) h

theorem readDigits_neg {lo hi : Int} (hhi : 0 ≤ hi) {cs : List Char} (hcs : ∀ c ∈ cs, c.isDigit)
    {n : Nat} (h : lo ≤ -(Nat.ofDigitChars 10 cs n : Int)) :
    readDigits lo hi true (-(n : Int)) cs = some (-(Nat.ofDigitChars 10 cs n : Int)) := by
  induction cs generalizing n with
  | nil => rw [readDigits, Nat.ofDigitChars_nil]
  | cons c cs ih =>
    rw [Nat.ofDigitChars_cons] at h ⊢
    have hstep : -(n : Int) * 10 - (c.toNat - '0'.toNat : Nat) =
        -((10 * n + (c.toNat - '0'.toNat) : Nat) : Int) := by
      omega
    have hle := le_ofDigitChars cs (10 * n + (c.toNat - '0'.toNat))
    rw [readDigits, if_pos (hcs c List.mem_cons_self)]
    simp only [if_true]
    rw [hstep, if_pos (by omega)]
    exact ih (fun c hc => hcs c (List.mem_cons_of_mem _ hc)) h

theorem isDigit_of_mem_toDigits {n : Nat} {c : Char} (h : c ∈ Nat.toDigits 10 n) : c.isDigit :=
  Nat.isDigit_of_mem_toDigits (by decide) (by decide) h

theorem readInt_of_digit {lo hi : Int} {c : Char} {cs : List Char} (hc : c.isDigit) :
    readInt lo hi (c :: cs) = readDigits lo hi false 0 (c :: cs) := by
  have hplus : c ≠ '+' := by
    rintro rfl
    exact absurd hc (by decide)
  have hminus : c ≠ '-' := by
    rintro rfl
    exact absurd hc (by decide)
  unfold readInt
  split <;> simp_all

theorem readInt_minus {lo hi : Int} {cs : List Char} (hcs : cs ≠ []) :
    readInt lo hi ('-' :: cs) = readDigits lo hi true 0 cs := by
  cases cs with
  | nil => exact absurd rfl hcs
  | cons c cs => rfl

/-- What an integer within the bounds is rendered as is read back. -/
theorem readInt_toString {lo hi v : Int} (hlo : lo ≤ 0) (hhi : 0 ≤ hi) (hv : lo ≤ v ∧ v ≤ hi) :
    readInt lo hi (toString v).toList = some v := by
  cases v with
  | ofNat n =>
    have hread : readDigits lo hi false (0 : Nat) (Nat.toDigits 10 n) =
        some (Nat.ofDigitChars 10 (Nat.toDigits 10 n) 0 : Int) :=
      readDigits_pos hlo (fun c => isDigit_of_mem_toDigits)
        (by rw [Nat.ofDigitChars_ten_toDigits]; exact hv.2)
    have hdigits : (toString (Int.ofNat n)).toList = Nat.toDigits 10 n := Nat.toList_repr
    rw [Nat.ofDigitChars_ten_toDigits] at hread
    rw [hdigits]
    cases hcs : Nat.toDigits 10 n with
    | nil => exact absurd hcs Nat.toDigits_ne_nil
    | cons c cs =>
      have hc : c.isDigit := isDigit_of_mem_toDigits (n := n) (by rw [hcs]; exact List.mem_cons_self)
      rw [readInt_of_digit hc, ← hcs]
      exact hread
  | negSucc n =>
    have hread : readDigits lo hi true (-(0 : Nat)) (Nat.toDigits 10 (n + 1)) =
        some (-(Nat.ofDigitChars 10 (Nat.toDigits 10 (n + 1)) 0 : Int)) :=
      readDigits_neg hhi (fun c => isDigit_of_mem_toDigits)
        (by rw [Nat.ofDigitChars_ten_toDigits]; omega)
    rw [Nat.ofDigitChars_ten_toDigits] at hread
    have hdigits : (toString (Int.negSucc n)).toList = '-' :: Nat.toDigits 10 (n + 1) := by
      simp [Int.toString_eq_repr, Int.repr]
    rw [hdigits, readInt_minus Nat.toDigits_ne_nil]
    exact hread

end BaleVpn.Lib
