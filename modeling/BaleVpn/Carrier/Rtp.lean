import BaleVpn.Lib.Items
import BaleVpn.Net.Checksum

/-!
# Carrier framing (`rtp.rs`)

Many packets share one carrier frame, each behind its length in two bytes. `pushPacked` appends a
packet to the frame that is being filled, `unpack` walks a frame that was received. A length of zero
or one that reaches past the end of the frame stops the walk.
-/

namespace BaleVpn.Carrier

open Net Lib

def MAX_FRAME_BYTES : ℕ := 1275

/-- `(packet.len() as u16).to_be_bytes()`, then the packet. -/
def entry (packet : Bytes) : Bytes := putBe16 (UInt16.ofNat packet.length) ++ packet

/-- The answer, and the batch afterwards. -/
def pushPacked (batch packet : Bytes) (max : ℕ) : Bool × Bytes :=
  if packet.length > 65535 then (true, batch)
  else
    let needed := batch.length + 2 + packet.length
    if needed > max && !batch.isEmpty then (false, batch)
    else (true, batch ++ entry packet)

/-- The loop of `unpack` from position `i`: the packets it hands on. -/
def unpackFrom (frame : Bytes) (i : ℕ) : List Bytes :=
  if _h : i + 2 ≤ frame.length then
    let len := (frame[i].toNat <<< 8) ||| frame[i + 1].toNat
    if len = 0 || i + 2 + len > frame.length then []
    else (frame.drop (i + 2)).take len :: unpackFrom frame (i + 2 + len)
  else []
termination_by frame.length - i

def unpack (frame : Bytes) : List Bytes := unpackFrom frame 0

/-! ## As a reader -/

/-- One turn of the loop on what is left of the frame. -/
def readEntry : Bytes → Option (Bytes × Bytes)
  | hi :: lo :: rest =>
    let len := (hi.toNat <<< 8) ||| lo.toNat
    if len = 0 || len > rest.length then none else some (rest.take len, rest.drop len)
  | _ => none

theorem readEntry_shorter {s b rest : Bytes} (h : readEntry s = some (b, rest)) :
    rest.length < s.length := by
  match s with
  | hi :: lo :: tail =>
    simp only [readEntry, Option.ite_none_left_eq_some] at h
    obtain ⟨-, h⟩ := h
    cases h
    simp only [List.length_drop, List.length_cons]
    omega

def entries : Reader UInt8 Bytes := ⟨readEntry, readEntry_shorter⟩

theorem readEntry_drop {frame : Bytes} {i : ℕ} (h : i + 2 ≤ frame.length) :
    frame.drop i = frame[i] :: frame[i + 1] :: frame.drop (i + 2) := by
  rw [List.drop_eq_getElem_cons (by omega), List.drop_eq_getElem_cons (by omega)]

theorem unpackFrom_eq (frame : Bytes) (i : ℕ) : unpackFrom frame i = entries.items (frame.drop i) := by
  fun_induction unpackFrom frame i with
  | case1 i h len hstop =>
    refine (Reader.items_none ?_).symm
    show readEntry (frame.drop i) = none
    rw [readEntry_drop h]
    simp only [readEntry, List.length_drop]
    apply if_pos
    simp only [Bool.or_eq_true, decide_eq_true_eq] at hstop ⊢
    show len = 0 ∨ len > frame.length - (i + 2)
    omega
  | case2 i h len hstop ih =>
    have hnext : entries.next (frame.drop i) =
        some ((frame.drop (i + 2)).take len, frame.drop (i + 2 + len)) := by
      show readEntry (frame.drop i) = _
      rw [readEntry_drop h]
      simp only [readEntry, List.length_drop, List.drop_drop]
      apply if_neg
      simp only [Bool.or_eq_true, decide_eq_true_eq] at hstop ⊢
      show ¬ (len = 0 ∨ len > frame.length - (i + 2))
      omega
    rw [Reader.items_some hnext, ih]
  | case3 i h =>
    refine (Reader.items_none ?_).symm
    have hshort : (frame.drop i).length < 2 := by
      rw [List.length_drop]
      omega
    match hrest : frame.drop i with
    | [] => rfl
    | [_] => rfl
    | _ :: _ :: _ =>
      simp only [hrest, List.length_cons] at hshort
      omega

theorem unpack_eq (frame : Bytes) : unpack frame = entries.items frame := unpackFrom_eq frame 0

theorem unpack_nil : unpack [] = [] := by
  rw [unpack_eq]
  exact Reader.items_none rfl

/-! ## Length prefixes -/

theorem prefixed_len (hi lo : UInt8) :
    (hi.toNat <<< 8) ||| lo.toNat = (be16 [hi, lo]).toNat := by
  have hor := Nat.two_pow_add_eq_or_of_lt (i := 8) lo.toNat_lt hi.toNat
  rw [be16_toNat, Nat.shiftLeft_eq, Nat.mul_comm, ← hor]

/-- What `unpack` can hand on, and `pushPacked` does not lose. -/
def Fits (packet : Bytes) : Prop := packet ≠ [] ∧ packet.length ≤ 65535

instance (packet : Bytes) : Decidable (Fits packet) := inferInstanceAs (Decidable (_ ∧ _))

theorem readEntry_entry {packet : Bytes} (h : Fits packet) (rest : Bytes) :
    readEntry (entry packet ++ rest) = some (packet, rest) := by
  have hpos : packet.length ≠ 0 := by simpa using h.1
  have hle := h.2
  have hlen : (UInt16.ofNat packet.length).toNat = packet.length := by
    rw [UInt16.toNat_ofNat']
    omega
  have hbytes := be16_putBe16 (UInt16.ofNat packet.length)
  unfold putBe16 at hbytes
  simp only [entry, putBe16, List.cons_append, List.nil_append, readEntry, prefixed_len, hbytes, hlen]
  rw [if_neg (by simp [hpos]), List.take_left, List.drop_left]

theorem putBe16_be16 (hi lo : UInt8) : putBe16 (be16 [hi, lo]) = [hi, lo] := by
  have hlen := be16_toNat hi lo
  have hhi := hi.toNat_lt
  have hlo := lo.toNat_lt
  have hfst : ((be16 [hi, lo]) >>> 8).toUInt8 = hi := by
    apply UInt8.toNat_inj.mp
    simp only [UInt16.toNat_toUInt8, UInt16.toNat_shiftRight, Nat.shiftRight_eq_div_pow,
      UInt16.toNat_ofNat, Nat.reduceMod, Nat.reducePow]
    omega
  have hsnd : (be16 [hi, lo]).toUInt8 = lo := by
    apply UInt8.toNat_inj.mp
    rw [UInt16.toNat_toUInt8]
    omega
  rw [putBe16, hfst, hsnd]

theorem readEntry_write {s packet rest : Bytes} (h : readEntry s = some (packet, rest)) :
    s = entry packet ++ rest ∧ Fits packet := by
  match s with
  | hi :: lo :: tail =>
    simp only [readEntry, Option.ite_none_left_eq_some, prefixed_len, Bool.or_eq_true,
      decide_eq_true_eq, not_or, not_lt] at h
    obtain ⟨⟨hpos, hle⟩, h⟩ := h
    cases h
    have hlt := (be16 [hi, lo]).toNat_lt
    have hlen : (tail.take (be16 [hi, lo]).toNat).length = (be16 [hi, lo]).toNat := by
      rw [List.length_take]
      omega
    refine ⟨?_, ?_, ?_⟩
    · rw [entry, hlen, UInt16.ofNat_toNat, putBe16_be16]
      simp
    · rw [← List.length_pos_iff, hlen]
      omega
    · omega

/-! ## Round trips -/

theorem unpack_flatMap {packets : List Bytes} (h : ∀ p ∈ packets, Fits p) :
    unpack (packets.flatMap entry) = packets := by
  have hitems := Reader.items_flatMap (R := entries) (e := entry)
    (fun p hp rest => readEntry_entry (h p hp) rest) []
  rw [List.append_nil, ← unpack_eq, ← unpack_eq, unpack_nil, List.append_nil] at hitems
  exact hitems

theorem fits_of_mem_unpack (frame : Bytes) : ∀ p ∈ unpack frame, Fits p := by
  rw [unpack_eq]
  exact Reader.forall_items (fun h => (readEntry_write h).2) frame

theorem flatMap_unpack (frame : Bytes) : (unpack frame).flatMap entry <+: frame := by
  obtain ⟨tail, hframe, -⟩ := Reader.eq_flatMap_items (R := entries) (e := entry)
    (fun h => (readEntry_write h).1) frame
  rw [← unpack_eq] at hframe
  exact ⟨tail, hframe.symm⟩

end BaleVpn.Carrier
