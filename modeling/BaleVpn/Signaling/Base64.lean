import BaleVpn.Lib.BitStream
import BaleVpn.Net.Packet
import Mathlib.Data.List.TakeWhile

/-!
# base64url (`ws.rs`)

The payload of a token is base64url without padding. `base64urlDecode` reads it through a 32-bit
accumulator, `b64urlEncode` is the encoder of the source's tests. Both are compared with RFC 4648 §5,
where the bytes are one stream of bits that is read in words of six.
-/

namespace BaleVpn.Signaling

open Lib Net
open Lib.BitStream (bits stream words digits shiftOut)

/-! ### The source's decoder and encoder -/

/-- The `match` of `base64url_decode`, which also takes the two letters of the other alphabet. -/
def base64Value (c : Char) : Option UInt32 :=
  if 'A' ≤ c ∧ c ≤ 'Z' then some (c.val - 'A'.val)
  else if 'a' ≤ c ∧ c ≤ 'z' then some (c.val - 'a'.val + 26)
  else if '0' ≤ c ∧ c ≤ '9' then some (c.val - '0'.val + 52)
  else if c = '-' ∨ c = '+' then some 62
  else if c = '_' ∨ c = '/' then some 63
  else none

def base64urlDecodeLoop (buf bits : UInt32) (out : Bytes) : List Char → Option Bytes
  | [] => some out
  | c :: s =>
    if c = '=' then some out
    else
      match base64Value c with
      | none => none
      | some v =>
        let buf := (buf <<< 6) ||| v
        let bits := bits + 6
        if 8 ≤ bits then
          let bits := bits - 8
          base64urlDecodeLoop buf bits (out ++ [((buf >>> bits) &&& 0xFF).toUInt8]) s
        else base64urlDecodeLoop buf bits out s

def base64urlDecode (s : String) : Option Bytes := base64urlDecodeLoop 0 0 [] s.toList

def ALPHABET : List Char := "ABCDEFGHIJKLMNOPQRSTUVWXYZabcdefghijklmnopqrstuvwxyz0123456789-_".toList

theorem toNat_and_sextet (v : UInt32) : (v &&& 0x3F).toNat = v.toNat % 2 ^ 6 :=
  Nat.and_two_pow_sub_one_eq_mod v.toNat 6

theorem and_lt_alphabet (v : UInt32) : (v &&& 0x3F).toNat < ALPHABET.length := by
  have hlow := toNat_and_sextet v
  have hlen : ALPHABET.length = 64 := by decide
  omega

/-- `ALPHABET[(v & 0x3F) as usize]` -/
def letter (v : UInt32) : Char := ALPHABET.get ⟨(v &&& 0x3F).toNat, and_lt_alphabet v⟩

def b64urlEncodeLoop : Bytes → List Char
  | a :: b :: c :: rest =>
    let v := a.toUInt32 <<< 16 ||| b.toUInt32 <<< 8 ||| c.toUInt32
    letter (v >>> 18) :: letter (v >>> 12) :: letter (v >>> 6) :: letter v :: b64urlEncodeLoop rest
  | [a] =>
    let v := a.toUInt32 <<< 16
    [letter (v >>> 18), letter (v >>> 12)]
  | [a, b] =>
    let v := a.toUInt32 <<< 16 ||| b.toUInt32 <<< 8
    [letter (v >>> 18), letter (v >>> 12), letter (v >>> 6)]
  | [] => []

def b64urlEncode (input : Bytes) : String := String.ofList (b64urlEncodeLoop input)

/-! ### RFC 4648 §5 -/

/-- The letters of the bytes: their bits in words of six, with zeros behind the last one. -/
def rfc4648 (input : Bytes) : List Char :=
  (words 6 (stream 8 (input.map UInt8.toNat) ++ List.replicate ((6 - 8 * input.length % 6) % 6) false)).map
    fun d => letter (UInt32.ofNat d)

/-- The padded form: `=` up to a multiple of four letters. -/
def padded (s : String) : String := s ++ String.ofList (List.replicate ((4 - s.length % 4) % 4) '=')

/-! ### The letters -/

theorem alphabet_values (i : Fin ALPHABET.length) :
    base64Value (ALPHABET.get i) = some (UInt32.ofNat i) ∧ ALPHABET.get i ≠ '=' := by
  have hall : ∀ i : Fin ALPHABET.length,
      base64Value (ALPHABET.get i) = some (UInt32.ofNat i) ∧ ALPHABET.get i ≠ '=' := by decide +kernel
  exact hall i

theorem base64Value_letter (v : UInt32) : base64Value (letter v) = some (v &&& 0x3F) := by
  have hvalue := (alphabet_values ⟨(v &&& 0x3F).toNat, and_lt_alphabet v⟩).1
  rw [UInt32.ofNat_toNat] at hvalue
  exact hvalue

theorem letter_ne_stop (v : UInt32) : letter v ≠ '=' := (alphabet_values ⟨_, and_lt_alphabet v⟩).2

theorem base64Value_lt {c : Char} {v : UInt32} (h : base64Value c = some v) : v.toNat < 64 := by
  have hrange : ∀ {lo hi : Char} (first : UInt32), lo ≤ c ∧ c ≤ hi →
      hi.toNat - lo.toNat + first.toNat < 64 → (c.val - lo.val + first).toNat < 64 := by
    intro lo hi first ⟨hlo, hhi⟩ hlt
    have hlo : lo.val.toNat ≤ c.val.toNat := hlo
    have hhi : c.val.toNat ≤ hi.val.toNat := hhi
    change hi.val.toNat - lo.val.toNat + first.toNat < 64 at hlt
    rw [UInt32.toNat_add, UInt32.toNat_sub_of_le _ _ hlo]
    omega
  unfold base64Value at h
  split at h
  · next hc =>
    have hlt := hrange 0 hc (by decide)
    rw [UInt32.add_zero] at hlt
    rw [← Option.some.inj h]
    exact hlt
  · split at h
    · next hc =>
      rw [← Option.some.inj h]
      exact hrange _ hc (by decide)
    · split at h
      · next hc =>
        rw [← Option.some.inj h]
        exact hrange _ hc (by decide)
      · split at h
        · rw [← Option.some.inj h]
          decide
        · split at h
          · rw [← Option.some.inj h]
            decide
          · cases h

theorem base64Values_lt {s : List Char} {vs : List UInt32} (h : s.mapM base64Value = some vs) :
    ∀ d ∈ vs.map UInt32.toNat, d < 2 ^ 6 := by
  induction s generalizing vs with
  | nil =>
    obtain rfl := Option.some.inj h
    simp
  | cons c s ih =>
    rw [List.mapM_cons] at h
    obtain ⟨v, hv, h⟩ := Option.bind_eq_some_iff.mp h
    obtain ⟨us, hus, h⟩ := Option.bind_eq_some_iff.mp h
    obtain rfl := Option.some.inj h
    intro d hd
    rcases List.mem_cons.mp hd with rfl | hd
    · exact base64Value_lt hv
    · exact ih hus d hd

/-! ### The decoder -/

theorem toNat_shift_or (buf : UInt32) {v : UInt32} (hv : v.toNat < 64) :
    ((buf <<< 6) ||| v).toNat = (buf.toNat * 2 ^ 6 + v.toNat) % 2 ^ 32 := by
  have hlow : v.toNat < 2 ^ 6 := hv
  have hsix : (6 : UInt32).toNat % 32 = 6 := by decide
  have hmod : buf.toNat <<< 6 % 2 ^ 32 = (buf.toNat % 2 ^ 26) <<< 6 := by
    rw [Nat.shiftLeft_eq, Nat.shiftLeft_eq]
    omega
  rw [UInt32.toNat_or, UInt32.toNat_shiftLeft, hsix, hmod, ← Nat.shiftLeft_add_eq_or_of_lt hlow,
    Nat.shiftLeft_eq]
  omega

theorem toNat_shift_byte (buf bits : UInt32) (h : bits.toNat < 32) :
    ((buf >>> bits) &&& 0xFF).toUInt8 = UInt8.ofNat (buf.toNat / 2 ^ bits.toNat % 2 ^ 8) := by
  have hlow : ((buf >>> bits) &&& 0xFF).toNat = (buf >>> bits).toNat % 2 ^ 8 :=
    Nat.and_two_pow_sub_one_eq_mod _ 8
  have hshift : (buf >>> bits).toNat = buf.toNat / 2 ^ bits.toNat := by
    rw [UInt32.toNat_shiftRight, Nat.mod_eq_of_lt h, Nat.shiftRight_eq_div_pow]
  rw [← UInt8.toNat_inj, UInt32.toNat_toUInt8, hlow, hshift, UInt8.toNat_ofNat']

/-- What the decoder's loop adds to its output: the words that the register gives for the values of the
letters up to the first `=`. -/
theorem base64urlDecodeLoop_eq {buf bits : UInt32} (hbits : bits.toNat < 8) (out : Bytes) (s : List Char) :
    base64urlDecodeLoop buf bits out s =
      ((s.takeWhile (· ≠ '=')).mapM base64Value).map fun vs =>
        out ++ (shiftOut 32 6 8 buf.toNat bits.toNat (vs.map UInt32.toNat)).map UInt8.ofNat := by
  induction s generalizing buf bits out with
  | nil => simp [base64urlDecodeLoop, shiftOut]
  | cons c s ih =>
    rw [base64urlDecodeLoop]
    by_cases hstop : c = '='
    · rw [if_pos hstop]
      simp [hstop, shiftOut]
    rw [if_neg hstop, List.takeWhile_cons_of_pos (by simpa using hstop), List.mapM_cons]
    cases hc : base64Value c with
    | none => rfl
    | some v =>
      have hbuf := toNat_shift_or buf (base64Value_lt hc)
      have hsix : (bits + 6).toNat = bits.toNat + 6 := by
        rw [UInt32.toNat_add]
        change (bits.toNat + 6) % 2 ^ 32 = _
        omega
      by_cases hbyte : 8 ≤ bits + 6
      · have hle : 8 ≤ bits.toNat + 6 := hsix ▸ hbyte
        have hrest : (bits + 6 - 8).toNat = bits.toNat + 6 - 8 := by
          rw [UInt32.toNat_sub_of_le _ _ hbyte, hsix]
          rfl
        simp only [if_pos hbyte]
        rw [ih (by omega), toNat_shift_byte _ _ (by omega), hrest, hbuf]
        cases (s.takeWhile (· ≠ '=')).mapM base64Value <;> simp [shiftOut, hle]
      · have hlt : ¬ 8 ≤ bits.toNat + 6 := fun h => hbyte (by rw [UInt32.le_iff_toNat_le, hsix]; exact h)
        simp only [if_neg hbyte]
        rw [ih (by omega), hsix, hbuf]
        cases (s.takeWhile (· ≠ '=')).mapM base64Value <;> simp [shiftOut, hlt]

/-- The decoder reads the letters before the first `=` as a stream of six-bit values in bytes, and fails on
any other character there. -/
theorem base64urlDecode_eq (s : String) :
    base64urlDecode s = ((s.toList.takeWhile (· ≠ '=')).mapM base64Value).map fun vs =>
      (words 8 (stream 6 (vs.map UInt32.toNat))).map UInt8.ofNat := by
  rw [base64urlDecode, base64urlDecodeLoop_eq (by decide)]
  cases hvs : (s.toList.takeWhile (· ≠ '=')).mapM base64Value with
  | none => rfl
  | some vs =>
    have hwords : shiftOut 32 6 8 0 0 (vs.map UInt32.toNat) = words 8 (stream 6 (vs.map UInt32.toNat)) :=
      BitStream.shiftOut_eq (by decide) (by decide) (base64Values_lt hvs) (by decide)
    rw [Option.map_some, Option.map_some, List.nil_append, UInt32.toNat_zero, hwords]

theorem base64urlDecode_padded (s : String) : base64urlDecode (padded s) = base64urlDecode s := by
  have htake : ∀ (cs : List Char) (n : ℕ),
      (cs ++ List.replicate n '=').takeWhile (· ≠ '=') = cs.takeWhile (· ≠ '=') := by
    intro cs n
    induction cs with
    | nil => cases n <;> rfl
    | cons c cs ih => rw [List.cons_append, List.takeWhile_cons, List.takeWhile_cons, ih]
  rw [base64urlDecode_eq, base64urlDecode_eq, padded, String.toList_append, String.toList_ofList, htake]

/-! ### The encoder -/

theorem letter_shift (v : UInt32) {n : UInt32} {k : ℕ} (hn : n.toNat = k) (hk : k < 32) :
    letter (v >>> n) = letter (UInt32.ofNat (v.toNat / 2 ^ k % 2 ^ 6)) := by
  have hshift : (v >>> n).toNat = v.toNat / 2 ^ k := by
    rw [UInt32.toNat_shiftRight, hn, Nat.mod_eq_of_lt hk, Nat.shiftRight_eq_div_pow]
  have hindex : ((v >>> n) &&& 0x3F).toNat = (UInt32.ofNat (v.toNat / 2 ^ k % 2 ^ 6) &&& 0x3F).toNat := by
    rw [toNat_and_sextet, toNat_and_sextet, hshift, UInt32.toNat_ofNat']
    omega
  unfold letter
  congr 2

theorem toNat_first (a : UInt8) : (a.toUInt32 <<< 16).toNat = a.toNat * 2 ^ 16 := by
  have ha := a.toNat_lt
  have hsixteen : (16 : UInt32).toNat % 32 = 16 := by decide
  rw [UInt32.toNat_shiftLeft, UInt8.toNat_toUInt32, hsixteen, Nat.shiftLeft_eq]
  omega

theorem toNat_second (a b : UInt8) :
    (a.toUInt32 <<< 16 ||| b.toUInt32 <<< 8).toNat = (a.toNat * 2 ^ 8 + b.toNat) * 2 ^ 8 := by
  have hb := b.toNat_lt
  have height : (8 : UInt32).toNat % 32 = 8 := by decide
  have hshift : (b.toUInt32 <<< 8).toNat = b.toNat * 2 ^ 8 := by
    rw [UInt32.toNat_shiftLeft, UInt8.toNat_toUInt32, height, Nat.shiftLeft_eq]
    omega
  rw [UInt32.toNat_or, toNat_first, hshift, ← Nat.shiftLeft_eq a.toNat 16,
    ← Nat.shiftLeft_add_eq_or_of_lt (by omega), Nat.shiftLeft_eq]
  omega

theorem toNat_third (a b c : UInt8) :
    (a.toUInt32 <<< 16 ||| b.toUInt32 <<< 8 ||| c.toUInt32).toNat =
      (a.toNat * 2 ^ 8 + b.toNat) * 2 ^ 8 + c.toNat := by
  rw [UInt32.toNat_or, toNat_second, UInt8.toNat_toUInt32, ← Nat.shiftLeft_eq _ 8,
    ← Nat.shiftLeft_add_eq_or_of_lt c.toNat_lt]

theorem rfc4648_append {input : Bytes} {k v : ℕ} {l : List Bool}
    (h : stream 8 (input.map UInt8.toNat) ++ List.replicate ((6 - 8 * input.length % 6) % 6) false =
      bits (6 * k) v ++ l) :
    rfc4648 input = (digits 6 k v).map (fun d => letter (UInt32.ofNat (d % 2 ^ 6))) ++
      (words 6 l).map fun d => letter (UInt32.ofNat d) := by
  rw [rfc4648, h, BitStream.bits_digits, BitStream.words_stream_append (by decide), List.map_append,
    List.map_map]
  rfl

/-- The source takes three bytes at a time, which are four letters, and fills the last group up with zeros
of which it writes those that the bytes reach into. -/
theorem b64urlEncodeLoop_eq (input : Bytes) : b64urlEncodeLoop input = rfc4648 input := by
  fun_induction b64urlEncodeLoop input with
  | case1 a b c rest v ih =>
    have hpad : (6 - 8 * (a :: b :: c :: rest).length % 6) % 6 = (6 - 8 * rest.length % 6) % 6 := by
      simp only [List.length_cons]
      omega
    have hgroup : bits 8 a.toNat ++ (bits 8 b.toNat ++ bits 8 c.toNat) = bits (6 * 4) v.toNat := by
      rw [← List.append_assoc, ← BitStream.bits_shift 8 a.toNat b.toNat_lt,
        ← BitStream.bits_shift (8 + 8) _ c.toNat_lt, ← toNat_third]
    have hlast : letter v = letter (v >>> 0) := by rw [UInt32.shiftRight_zero]
    rw [rfc4648_append (k := 4) (v := v.toNat) (l := stream 8 (rest.map UInt8.toNat) ++
        List.replicate ((6 - 8 * rest.length % 6) % 6) false), ih, hlast,
      letter_shift v (k := 18) rfl (by decide), letter_shift v (k := 12) rfl (by decide),
      letter_shift v (k := 6) rfl (by decide), letter_shift v (k := 0) rfl (by decide)]
    · rfl
    · rw [hpad, ← hgroup]
      simp only [List.map_cons, BitStream.stream_cons, List.append_assoc]
  | case2 a v =>
    have hgroup : bits 8 a.toNat ++ List.replicate 4 false = bits (6 * 2) (a.toNat * 2 ^ 4) := by
      rw [← BitStream.bits_zero]
      exact (BitStream.bits_shift 8 a.toNat (by decide)).symm
    have hfirst : v.toNat / 2 ^ 18 = a.toNat * 2 ^ 4 / 2 ^ 6 := by
      rw [toNat_first]
      omega
    have hsecond : v.toNat / 2 ^ 12 = a.toNat * 2 ^ 4 / 2 ^ 0 := by
      rw [toNat_first]
      omega
    rw [rfc4648_append (k := 2) (v := a.toNat * 2 ^ 4) (l := []), letter_shift v (k := 18) rfl (by decide),
      letter_shift v (k := 12) rfl (by decide), hfirst, hsecond, BitStream.words_short (by decide)]
    · rfl
    · rw [← hgroup]
      simp
  | case3 a b v =>
    have hgroup : bits 8 a.toNat ++ (bits 8 b.toNat ++ List.replicate 2 false) =
        bits (6 * 3) ((a.toNat * 2 ^ 8 + b.toNat) * 2 ^ 2) := by
      rw [← List.append_assoc, ← BitStream.bits_zero, ← BitStream.bits_shift 8 a.toNat b.toNat_lt]
      exact (BitStream.bits_shift (8 + 8) _ (by decide)).symm
    have hfirst : v.toNat / 2 ^ 18 = (a.toNat * 2 ^ 8 + b.toNat) * 2 ^ 2 / 2 ^ 12 := by
      rw [toNat_second]
      omega
    have hsecond : v.toNat / 2 ^ 12 = (a.toNat * 2 ^ 8 + b.toNat) * 2 ^ 2 / 2 ^ 6 := by
      rw [toNat_second]
      omega
    have hthird : v.toNat / 2 ^ 6 = (a.toNat * 2 ^ 8 + b.toNat) * 2 ^ 2 / 2 ^ 0 := by
      rw [toNat_second]
      omega
    rw [rfc4648_append (k := 3) (v := (a.toNat * 2 ^ 8 + b.toNat) * 2 ^ 2) (l := []),
      letter_shift v (k := 18) rfl (by decide), letter_shift v (k := 12) rfl (by decide),
      letter_shift v (k := 6) rfl (by decide), hfirst, hsecond, hthird, BitStream.words_short (by decide)]
    · rfl
    · rw [← hgroup]
      simp
  | case4 => simp [rfc4648, BitStream.words_short]

theorem rfc4648_values (input : Bytes) :
    ∃ vs, (rfc4648 input).mapM base64Value = some vs ∧
      (words 8 (stream 6 (vs.map UInt32.toNat))).map UInt8.ofNat = input := by
  have hletters : ∀ ds : List ℕ, (∀ d ∈ ds, d < 2 ^ 6) → ∃ vs,
      (ds.map fun d => letter (UInt32.ofNat d)).mapM base64Value = some vs ∧ vs.map UInt32.toNat = ds := by
    intro ds hds
    induction ds with
    | nil => exact ⟨[], rfl, rfl⟩
    | cons d ds ih =>
      obtain ⟨vs, hvs, hmap⟩ := ih fun e he => hds e (List.mem_cons_of_mem d he)
      have hd := hds d (List.mem_cons_self ..)
      have hvalue : (UInt32.ofNat d &&& 0x3F).toNat = d := by
        rw [toNat_and_sextet, UInt32.toNat_ofNat']
        omega
      refine ⟨(UInt32.ofNat d &&& 0x3F) :: vs, ?_, ?_⟩
      · rw [List.map_cons, List.mapM_cons, base64Value_letter, hvs]
        rfl
      · rw [List.map_cons, hvalue, hmap]
  obtain ⟨vs, hvs, hmap⟩ := hletters _ BitStream.words_lt
  refine ⟨vs, hvs, ?_⟩
  have hwhole : 6 ∣ (stream 8 (input.map UInt8.toNat) ++
      List.replicate ((6 - 8 * input.length % 6) % 6) false).length := by
    rw [List.length_append, BitStream.length_stream, List.length_map, List.length_replicate]
    omega
  have hbytes : ∀ d ∈ input.map UInt8.toNat, d < 2 ^ 8 := by
    intro d hd
    obtain ⟨b, -, rfl⟩ := List.mem_map.mp hd
    exact b.toNat_lt
  -- the zeros that fill the last letter are fewer than a byte
  have hzeros : (List.replicate ((6 - 8 * input.length % 6) % 6) false).length < 8 := by
    rw [List.length_replicate]
    omega
  rw [hmap, BitStream.stream_words (by decide) hwhole, BitStream.words_stream (by decide) hbytes hzeros,
    List.map_map]
  calc
    input.map (UInt8.ofNat ∘ UInt8.toNat) = input.map id := by
      apply List.map_congr_left
      intro b _
      exact UInt8.ofNat_toNat
    _ = input := List.map_id input

theorem toList_b64urlEncode (b : Bytes) : (b64urlEncode b).toList = rfc4648 b := by
  rw [b64urlEncode, String.toList_ofList, b64urlEncodeLoop_eq]

theorem base64urlDecode_b64urlEncode (b : Bytes) : base64urlDecode (b64urlEncode b) = some b := by
  obtain ⟨vs, hvs, hbytes⟩ := rfc4648_values b
  have hletters : (rfc4648 b).takeWhile (· ≠ '=') = rfc4648 b := by
    rw [List.takeWhile_eq_self_iff]
    intro c hc
    obtain ⟨d, -, rfl⟩ := List.mem_map.mp hc
    exact decide_eq_true (letter_ne_stop _)
  rw [base64urlDecode_eq, toList_b64urlEncode, hletters, hvs, Option.map_some, hbytes]

/-- The source's encoder is the RFC's, and decoding inverts it, of bytes of any length, padded or not. -/
theorem base64url_roundTrip (b : Bytes) :
    (b64urlEncode b).toList = rfc4648 b ∧
      base64urlDecode (b64urlEncode b) = some b ∧ base64urlDecode (padded (b64urlEncode b)) = some b := by
  have hdecode := base64urlDecode_b64urlEncode b
  exact ⟨toList_b64urlEncode b, hdecode, by rw [base64urlDecode_padded, hdecode]⟩

-- ten letters: the accumulator has lost the bits of the first ones
example : base64urlDecodeLoop 0 0 [] ['_', '_', '7', '9', '_', 'P', 'v', '6', '-', 'Q'] =
    some [0xFF, 0xFE, 0xFD, 0xFC, 0xFB, 0xFA, 0xF9] := by decide

end BaleVpn.Signaling
