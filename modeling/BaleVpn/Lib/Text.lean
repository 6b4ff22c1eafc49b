import Mathlib.Data.List.TakeWhile
import BaleVpn.Lib.Decimal

/-!
# Text on lists of characters

The functions of Rust's `str` that a line-based header parser uses: the lossy decoding of UTF-8, `lines`,
`strip_prefix` and `trim`.
-/

namespace BaleVpn.Lib

/-! ## Lossy UTF-8 -/

/-- U+FFFD. -/
def replacement : Char := Char.ofNat 0xFFFD

/-- A sequence of which some bytes were read. -/
structure Sequence where
  bits : Nat
  /-- How many bytes it still lacks. -/
  left : Nat
  /-- What its next byte may be: neither overlong, nor a surrogate, nor too large. -/
  low : UInt8 := 0x80
  high : UInt8 := 0xBF

/-- A byte that is not within a sequence: it is a character, or begins one, or is out of order. -/
def beginSequence (b : UInt8) : List Char × Option Sequence :=
  if b < 0x80 then ([Char.ofNat b.toNat], none)
  else if b < 0xC2 then ([replacement], none)
  else if b < 0xE0 then ([], some { bits := b.toNat % 32, left := 1 })
  else if b = 0xE0 then ([], some { bits := 0, left := 2, low := 0xA0 })
  else if b = 0xED then ([], some { bits := 13, left := 2, high := 0x9F })
  else if b < 0xF0 then ([], some { bits := b.toNat % 16, left := 2 })
  else if b = 0xF0 then ([], some { bits := 0, left := 3, low := 0x90 })
  else if b < 0xF4 then ([], some { bits := b.toNat % 8, left := 3 })
  else if b = 0xF4 then ([], some { bits := 4, left := 3, high := 0x8F })
  else ([replacement], none)

/-- The next byte, in a sequence or not. A sequence that breaks off becomes one U+FFFD. -/
def nextByte (b : UInt8) : Option Sequence → List Char × Option Sequence
  | none => beginSequence b
  | some q =>
    if q.low ≤ b ∧ b ≤ q.high then
      let bits := q.bits * 64 + b.toNat % 64
      if q.left = 1 then ([Char.ofNat bits], none) else ([], some { bits, left := q.left - 1 })
    else (replacement :: (beginSequence b).1, (beginSequence b).2)

def lossyFrom : Option Sequence → List UInt8 → List Char
  | none, [] => []
  | some _, [] => [replacement]
  | q, b :: bs => (nextByte b q).1 ++ lossyFrom (nextByte b q).2 bs

/-- `String::from_utf8_lossy` -/
def fromUtf8Lossy (bs : List UInt8) : List Char := lossyFrom none bs

theorem beginSequence_speaks (b : UInt8) : (beginSequence b).1 ≠ [] ∨ (beginSequence b).2 ≠ none := by
  have hite : ∀ {p : Prop} [Decidable p] {r r' : List Char × Option Sequence}, r.1 ≠ [] ∨ r.2 ≠ none →
      r'.1 ≠ [] ∨ r'.2 ≠ none → (if p then r else r').1 ≠ [] ∨ (if p then r else r').2 ≠ none := by
    intro p _ r r' hr hr'
    split
    · exact hr
    · exact hr'
  unfold beginSequence
  repeat' apply hite
  all_goals simp

theorem nextByte_silent {b : UInt8} {q : Option Sequence} (h : (nextByte b q).1 = []) :
    (nextByte b q).2 ≠ none := by
  rcases q with - | q
  · exact (beginSequence_speaks b).resolve_left (not_not_intro h)
  · rw [nextByte] at h ⊢
    split at h
    · next htakes =>
      rw [if_pos htakes]
      dsimp only at h ⊢
      split at h
      · cases h
      · next hleft =>
        rw [if_neg hleft]
        nofun
    · cases h

theorem lossyFrom_eq_nil {q : Option Sequence} {bs : List UInt8} (h : lossyFrom q bs = []) :
    q = none ∧ bs = [] := by
  induction bs generalizing q with
  | nil =>
    rcases q with - | q
    · exact ⟨rfl, rfl⟩
    · cases h
  | cons b bs ih =>
    rw [lossyFrom] at h
    obtain ⟨hsilent, hrest⟩ := List.append_eq_nil_iff.mp h
    exact absurd (ih hrest).1 (nextByte_silent hsilent)

theorem fromUtf8Lossy_eq_nil {bs : List UInt8} : fromUtf8Lossy bs = [] ↔ bs = [] := by
  constructor
  · exact fun h => (lossyFrom_eq_nil h).2
  · rintro rfl
    rfl

theorem beginSequence_ofNat {n : ℕ} (hn : n < 256) :
    beginSequence (UInt8.ofNat n) =
      if n < 0x80 then ([Char.ofNat n], none)
      else if n < 0xC2 then ([replacement], none)
      else if n < 0xE0 then ([], some { bits := n % 32, left := 1 })
      else if n = 0xE0 then ([], some { bits := 0, left := 2, low := 0xA0 })
      else if n = 0xED then ([], some { bits := 13, left := 2, high := 0x9F })
      else if n < 0xF0 then ([], some { bits := n % 16, left := 2 })
      else if n = 0xF0 then ([], some { bits := 0, left := 3, low := 0x90 })
      else if n < 0xF4 then ([], some { bits := n % 8, left := 3 })
      else if n = 0xF4 then ([], some { bits := 4, left := 3, high := 0x8F })
      else ([replacement], none) := by
  have hnat : (UInt8.ofNat n).toNat = n := UInt8.toNat_ofNat_of_lt' hn
  unfold beginSequence
  simp only [UInt8.lt_iff_toNat_lt, ← UInt8.toNat_inj, hnat]
  rfl

/-- The byte `n` may come next in the sequence. -/
def Sequence.Takes (q : Sequence) (n : ℕ) : Prop := q.low.toNat ≤ n ∧ n ≤ q.high.toNat

/-- A byte of six bits behind the two that mark it may come next unless the sequence wants less. -/
theorem takes_inner (bits left n : ℕ) : Sequence.Takes { bits, left } (n % 64 + 0x80) := by
  constructor
  · change 0x80 ≤ _
    omega
  · change _ ≤ 0xBF
    omega

theorem nextByte_within {q : Sequence} {n : ℕ} (hn : n < 256) (htakes : q.Takes n) :
    nextByte (UInt8.ofNat n) (some q) =
      if q.left = 1 then ([Char.ofNat (q.bits * 64 + n % 64)], none)
      else ([], some { bits := q.bits * 64 + n % 64, left := q.left - 1 }) := by
  have hnat : (UInt8.ofNat n).toNat = n := UInt8.toNat_ofNat_of_lt' hn
  have hin : q.low ≤ UInt8.ofNat n ∧ UInt8.ofNat n ≤ q.high := by
    rw [UInt8.le_iff_toNat_le, UInt8.le_iff_toNat_le, hnat]
    exact htakes
  rw [nextByte, if_pos hin, hnat]

theorem lossyFrom_first {n : ℕ} {q : Sequence} (hq : beginSequence (UInt8.ofNat n) = ([], some q))
    (bs : List UInt8) : lossyFrom none (UInt8.ofNat n :: bs) = lossyFrom (some q) bs := by
  rw [lossyFrom, nextByte, hq]
  rfl

theorem lossyFrom_inner {q : Sequence} {n : ℕ} (hn : n < 256) (htakes : q.Takes n) (hleft : q.left ≠ 1)
    (bs : List UInt8) : lossyFrom (some q) (UInt8.ofNat n :: bs) =
      lossyFrom (some { bits := q.bits * 64 + n % 64, left := q.left - 1 }) bs := by
  rw [lossyFrom, nextByte_within hn htakes, if_neg hleft]
  rfl

theorem lossyFrom_last {q : Sequence} {n : ℕ} (hn : n < 256) (htakes : q.Takes n) (hleft : q.left = 1)
    (bs : List UInt8) : lossyFrom (some q) (UInt8.ofNat n :: bs) =
      Char.ofNat (q.bits * 64 + n % 64) :: lossyFrom none bs := by
  rw [lossyFrom, nextByte_within hn htakes, if_pos hleft]
  rfl

theorem lossyFrom_two (bits m n : ℕ) (bs : List UInt8) :
    lossyFrom (some { bits, left := 2 }) (UInt8.ofNat (m % 64 + 0x80) :: UInt8.ofNat (n % 64 + 0x80) :: bs) =
      Char.ofNat ((bits * 64 + m % 64) * 64 + n % 64) :: lossyFrom none bs := by
  have hlow : ∀ k, (k % 64 + 0x80) % 64 = k % 64 := by omega
  have hinner := lossyFrom_inner (n := m % 64 + 0x80) (by omega) (takes_inner bits 2 m) (by simp)
    (UInt8.ofNat (n % 64 + 0x80) :: bs)
  have hlast := lossyFrom_last (n := n % 64 + 0x80) (by omega) (takes_inner (bits * 64 + m % 64) 1 n) rfl bs
  rw [hlow] at hinner hlast
  exact hinner.trans hlast

theorem begin_three {v : ℕ} (hlow : 0x7FF < v) (hhigh : v ≤ 0xFFFF) (hvalid : v < 0xD800 ∨ 0xDFFF < v) :
    ∃ q : Sequence, beginSequence (UInt8.ofNat (v / 4096 % 0x10 + 0xE0)) = ([], some q) ∧
      q.bits = v / 4096 ∧ q.left = 2 ∧ q.Takes (v / 64 % 64 + 0x80) := by
  rw [beginSequence_ofNat (by omega), if_neg (by omega), if_neg (by omega), if_neg (by omega)]
  by_cases he0 : v / 4096 = 0
  · rw [if_pos (by omega)]
    refine ⟨_, rfl, he0.symm, rfl, ?_, ?_⟩
    · change 0xA0 ≤ _
      omega
    · change _ ≤ 0xBF
      omega
  rw [if_neg (by omega)]
  by_cases hed : v / 4096 = 13
  · rw [if_pos (by omega)]
    refine ⟨_, rfl, hed.symm, rfl, ?_, ?_⟩
    · change 0x80 ≤ _
      omega
    · change _ ≤ 0x9F
      omega
  rw [if_neg (by omega), if_pos (by omega)]
  refine ⟨_, rfl, ?_, rfl, takes_inner ..⟩
  change (v / 4096 % 16 + 0xE0) % 16 = _
  omega

theorem begin_four {v : ℕ} (hlow : 0xFFFF < v) (hhigh : v < 0x110000) :
    ∃ q : Sequence, beginSequence (UInt8.ofNat (v / 262144 % 0x08 + 0xF0)) = ([], some q) ∧
      q.bits = v / 262144 ∧ q.left = 3 ∧ q.Takes (v / 4096 % 64 + 0x80) := by
  rw [beginSequence_ofNat (by omega), if_neg (by omega), if_neg (by omega), if_neg (by omega),
    if_neg (by omega), if_neg (by omega), if_neg (by omega)]
  by_cases hf0 : v / 262144 = 0
  · rw [if_pos (by omega)]
    refine ⟨_, rfl, hf0.symm, rfl, ?_, ?_⟩
    · change 0x90 ≤ _
      omega
    · change _ ≤ 0xBF
      omega
  rw [if_neg (by omega)]
  by_cases hf4 : v / 262144 = 4
  · rw [if_neg (by omega), if_pos (by omega)]
    refine ⟨_, rfl, hf4.symm, rfl, ?_, ?_⟩
    · change 0x80 ≤ _
      omega
    · change _ ≤ 0x8F
      omega
  rw [if_pos (by omega)]
  refine ⟨_, rfl, ?_, rfl, takes_inner ..⟩
  change (v / 262144 % 8 + 0xF0) % 8 = _
  omega

/-- A character is read from its bytes, whatever comes next. -/
theorem lossyFrom_char (c : Char) (bs : List UInt8) :
    lossyFrom none (String.utf8EncodeChar c ++ bs) = c :: lossyFrom none bs := by
  have hvalid : c.val.toNat < 0xD800 ∨ 0xDFFF < c.val.toNat ∧ c.val.toNat < 0x110000 := c.valid
  have hc : Char.ofNat c.val.toNat = c := Char.ofNat_toNat c
  unfold String.utf8EncodeChar
  generalize c.val.toNat = v at hvalid hc ⊢
  by_cases h1 : v ≤ 0x7F
  · rw [if_pos h1, List.cons_append, List.nil_append, lossyFrom, nextByte, beginSequence_ofNat (by omega),
      if_pos (by omega), hc]
    rfl
  by_cases h2 : v ≤ 0x7FF
  · have hfirst : beginSequence (UInt8.ofNat (v / 64 % 0x20 + 0xC0)) =
        ([], some { bits := (v / 64 % 0x20 + 0xC0) % 32, left := 1 }) := by
      rw [beginSequence_ofNat (by omega), if_neg (by omega), if_neg (by omega), if_pos (by omega)]
    have hall : (v / 64 % 0x20 + 0xC0) % 32 * 64 + (v % 0x40 + 0x80) % 64 = v := by omega
    rw [if_neg h1, if_pos h2, List.cons_append, List.cons_append, List.nil_append, lossyFrom_first hfirst,
      lossyFrom_last (by omega) (takes_inner ..) rfl, hall, hc]
  by_cases h3 : v ≤ 0xFFFF
  · obtain ⟨q, hfirst, hbits, hleft, htakes⟩ := begin_three (by omega) h3 (by omega)
    have hall : (v / 4096 * 64 + (v / 64 % 0x40 + 0x80) % 64) * 64 + (v % 0x40 + 0x80) % 64 = v := by omega
    rw [if_neg h1, if_neg h2, if_pos h3, List.cons_append, List.cons_append, List.cons_append, List.nil_append,
      lossyFrom_first hfirst, lossyFrom_inner (by omega) htakes (by omega), hleft,
      lossyFrom_last (by omega) (takes_inner ..) rfl, hbits, hall, hc]
  · obtain ⟨q, hfirst, hbits, hleft, htakes⟩ := begin_four (v := v) (by omega) (by omega)
    have hall : ((v / 262144 * 64 + (v / 4096 % 0x40 + 0x80) % 64) * 64 + v / 64 % 0x40) * 64 + v % 0x40 = v := by
      omega
    rw [if_neg h1, if_neg h2, if_neg h3, List.cons_append, List.cons_append, List.cons_append, List.cons_append,
      List.nil_append, lossyFrom_first hfirst, lossyFrom_inner (by omega) htakes (by omega), hleft, lossyFrom_two,
      hbits, hall, hc]

/-- The UTF-8 bytes of a text are decoded to it. -/
theorem fromUtf8Lossy_toUTF8 (s : String) : fromUtf8Lossy s.toUTF8.data.toList = s.toList := by
  have hchars : ∀ cs : List Char, lossyFrom none (cs.flatMap String.utf8EncodeChar) = cs := by
    intro cs
    induction cs with
    | nil => rfl
    | cons c cs ih => rw [List.flatMap_cons, lossyFrom_char, ih]
  have hbytes : s.toUTF8.data.toList = s.toList.flatMap String.utf8EncodeChar := by
    rw [String.toUTF8_eq_toByteArray, ← String.utf8Encode_toList, List.utf8Encode]
    simp
  rw [hbytes, fromUtf8Lossy, hchars]

/-! ## Lines -/

/-- The rest of the lines, with the characters of the line so far in reverse. -/
def linesFrom (line : List Char) : List Char → List (List Char)
  | [] => if line = [] then [] else [line.reverse]
  | c :: cs =>
    if c = Char.ofNat 10 then
      (if line.head? = some (Char.ofNat 13) then line.tail else line).reverse :: linesFrom [] cs
    else linesFrom (c :: line) cs

/-- `str::lines`: each ends at a line feed, which a carriage return may come before, or at the end. -/
def lines (cs : List Char) : List (List Char) := linesFrom [] cs

/-- What comes up to a carriage return and a line feed is a line. -/
theorem linesFrom_line {cs : List Char} (hcs : Char.ofNat 10 ∉ cs) (line rest : List Char) :
    linesFrom line (cs ++ Char.ofNat 13 :: Char.ofNat 10 :: rest) = (line.reverse ++ cs) :: linesFrom [] rest := by
  induction cs generalizing line with
  | nil => simp [linesFrom]
  | cons c cs ih =>
    obtain ⟨hc, hcs⟩ := not_or.mp fun h => hcs (List.mem_cons.mpr h)
    rw [List.cons_append, linesFrom, if_neg (Ne.symm hc), ih hcs]
    simp

/-! ## Within a line -/

/-- `str::strip_prefix` -/
def stripPrefix (before cs : List Char) : Option (List Char) :=
  if before.isPrefixOf cs then some (cs.drop before.length) else none

/-- `char::is_whitespace`: the property `White_Space` of Unicode. -/
def isWhiteSpace (c : Char) : Bool :=
  (9 ≤ c.toNat && c.toNat ≤ 13) || (0x2000 ≤ c.toNat && c.toNat ≤ 0x200A) ||
    c.toNat ∈ [0x20, 0x85, 0xA0, 0x1680, 0x2028, 0x2029, 0x202F, 0x205F, 0x3000]

/-- `str::trim` -/
def trim (cs : List Char) : List Char :=
  ((cs.dropWhile isWhiteSpace).reverse.dropWhile isWhiteSpace).reverse

theorem trim_ne_nil {c : Char} {cs : List Char} (hc : isWhiteSpace c = false) : trim (c :: cs) ≠ [] := by
  intro h
  have hnil := List.reverse_eq_nil_iff.mp h
  rw [List.dropWhile_cons_of_neg (by simp [hc]), List.dropWhile_eq_nil_iff] at hnil
  have hwhite := hnil c (by simp)
  rw [hc] at hwhite
  cases hwhite

theorem trim_cons {c : Char} (hc : isWhiteSpace c = true) (cs : List Char) : trim (c :: cs) = trim cs := by
  rw [trim, List.dropWhile_cons_of_pos hc, trim]

theorem trim_eq_self {cs : List Char} (hfirst : ∀ c ∈ cs.head?, isWhiteSpace c = false)
    (hlast : ∀ c ∈ cs.getLast?, isWhiteSpace c = false) : trim cs = cs := by
  have hkeep : ∀ {l : List Char}, (∀ c ∈ l.head?, isWhiteSpace c = false) → l.dropWhile isWhiteSpace = l := by
    intro l hl
    cases l with
    | nil => rfl
    | cons c l => rw [List.dropWhile_cons_of_neg (by simp [hl c rfl])]
  rw [trim, hkeep hfirst, hkeep (by rwa [List.head?_reverse]), List.reverse_reverse]

theorem isWhiteSpace_of_isDigit {c : Char} (h : c.isDigit = true) : isWhiteSpace c = false := by
  have hrange : 48 ≤ c.toNat ∧ c.toNat ≤ 57 := by
    simp only [Char.isDigit, Bool.and_eq_true, decide_eq_true_eq, ge_iff_le, UInt32.le_iff_toNat_le] at h
    exact h
  simp only [isWhiteSpace, List.mem_cons, List.not_mem_nil, Bool.or_eq_false_iff, Bool.and_eq_false_iff,
    decide_eq_false_iff_not, or_false]
  refine ⟨⟨.inr (by omega), .inl (by omega)⟩, by omega⟩

theorem isWhiteSpace_toString {v : ℤ} {c : Char} (hc : c ∈ (toString v).toList) : isWhiteSpace c = false := by
  cases v with
  | ofNat n =>
    rw [show (toString (Int.ofNat n)).toList = Nat.toDigits 10 n from Nat.toList_repr] at hc
    exact isWhiteSpace_of_isDigit (isDigit_of_mem_toDigits hc)
  | negSucc n =>
    have hdigits : (toString (Int.negSucc n)).toList = '-' :: Nat.toDigits 10 (n + 1) := by
      simp [Int.toString_eq_repr, Int.repr]
    rw [hdigits] at hc
    rcases List.mem_cons.mp hc with rfl | hc
    · decide
    · exact isWhiteSpace_of_isDigit (isDigit_of_mem_toDigits hc)

theorem trim_toString (v : ℤ) : trim (toString v).toList = (toString v).toList :=
  trim_eq_self (fun _ hc => isWhiteSpace_toString (List.mem_of_mem_head? hc))
    fun _ hc => isWhiteSpace_toString (List.mem_of_mem_getLast? hc)

theorem stripPrefix_append (before cs : List Char) : stripPrefix before (before ++ cs) = some cs := by
  rw [stripPrefix, if_pos (List.isPrefixOf_iff_prefix.mpr (List.prefix_append _ _)), List.drop_left]

/-- Where a mark ends the prefix and the name of a field alike, the field is the one of that name or another. -/
theorem stripPrefix_field {mark : Char} {before name : List Char} (hbefore : mark ∉ before) (hname : mark ∉ name)
    (value : List Char) :
    stripPrefix (before ++ [mark]) (name ++ mark :: value) = if name = before then some value else none := by
  split_ifs with heq
  · subst heq
    rw [List.append_cons name mark value, stripPrefix_append]
  · refine if_neg fun hprefix => heq ?_
    obtain ⟨rest, hrest⟩ := List.isPrefixOf_iff_prefix.mp hprefix
    rw [List.append_assoc, List.singleton_append] at hrest
    have htake := congrArg (List.takeWhile (· ≠ mark)) hrest
    rwa [List.takeWhile_append_of_pos, List.takeWhile_append_of_pos, List.takeWhile_cons_of_neg,
      List.takeWhile_cons_of_neg, List.append_nil, List.append_nil, eq_comm] at htake
    all_goals simp
    all_goals
      intro c hc
      rintro rfl
      contradiction

/-- `str::parse::<i32>` -/
def readI32 (cs : List Char) : Option Int := readInt (-2147483648) 2147483647 cs

end BaleVpn.Lib
