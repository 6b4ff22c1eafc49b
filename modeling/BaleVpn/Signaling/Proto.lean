import BaleVpn.Lib.Base128
import BaleVpn.Lib.Utf8
import BaleVpn.Net.Packet

/-!
# The protobuf codec (`proto.rs`)

`ProtoWriter` appends tagged fields to a buffer; `ProtoReader` walks one, and keeps what it has consumed
also when a read fails. A length is a `usize` of 64 bits.
-/

namespace BaleVpn.Signaling

open Lib Base128 Net

/-- `isize::MAX`: no `Vec` and no slice is longer. -/
def ISIZE_MAX : ℕ := 2 ^ 63 - 1

/-! ## The writer -/

/-- The bytes that `varint` pushes. -/
def varintBytes (v : UInt64) : Bytes :=
  if h : v &&& ~~~0x7F ≠ 0 then ((v &&& 0x7F) ||| 0x80).toUInt8 :: varintBytes (v >>> 7)
  else [(v &&& 0x7F).toUInt8]
termination_by v.toNat
decreasing_by
  rw [ne_eq, and_not_low_eq_zero] at h
  rw [toNat_shiftRight_seven]
  omega

structure ProtoWriter where
  buf : Bytes

namespace ProtoWriter

def new : ProtoWriter := ⟨[]⟩

def varint (w : ProtoWriter) (v : UInt64) : ProtoWriter := ⟨w.buf ++ varintBytes v⟩

def tag (w : ProtoWriter) (field wire : UInt32) : ProtoWriter :=
  w.varint ((field.toUInt64 <<< 3) ||| wire.toUInt64)

def int32 (w : ProtoWriter) (field : UInt32) (v : Int32) : ProtoWriter :=
  (w.tag field 0).varint v.toUInt32.toUInt64

def int64 (w : ProtoWriter) (field : UInt32) (v : Int64) : ProtoWriter :=
  (w.tag field 0).varint v.toUInt64

def bool (w : ProtoWriter) (field : UInt32) (v : Bool) : ProtoWriter :=
  (w.tag field 0).varint (if v then 1 else 0)

def bytes (w : ProtoWriter) (field : UInt32) (v : Bytes) : ProtoWriter :=
  ⟨((w.tag field 2).varint (UInt64.ofNat v.length)).buf ++ v⟩

def string (w : ProtoWriter) (field : UInt32) (v : String) : ProtoWriter :=
  w.bytes field v.toUTF8.data.toList

def build (w : ProtoWriter) : Bytes := w.buf

end ProtoWriter

/-! ## The reader -/

inductive ProtoError
  | eof
  | unsupportedWireType (wire : UInt32)
  | invalidUtf8
  | truncatedLength (need left : ℕ)
  deriving DecidableEq, Repr

/-- The loop of `varint` over the bytes ahead, and how many it consumes. -/
def varintLoop : Bytes → UInt64 → ℕ → Except ProtoError UInt64 × ℕ
  | [], _, _ => (.error .eof, 0)
  | b :: bs, result, shift =>
    let result := result ||| ((b &&& 0x7F).toUInt64 <<< UInt64.ofNat shift)
    if b &&& 0x80 = 0 then (.ok result, 1)
    else if shift + 7 ≥ 64 then (.error .eof, 1)
    else
      let (res, n) := varintLoop bs result (shift + 7)
      (res, n + 1)

structure ProtoReader where
  buf : Bytes
  pos : ℕ := 0
  deriving DecidableEq, Repr

namespace ProtoReader

def new (buf : Bytes) : ProtoReader := { buf }

def hasMore (r : ProtoReader) : Bool := r.pos < r.buf.length

def remaining (r : ProtoReader) : Bytes := r.buf.drop r.pos

def varint (r : ProtoReader) : Except ProtoError UInt64 × ProtoReader :=
  let (res, n) := varintLoop r.remaining 0 0
  (res, { r with pos := r.pos + n })

/-- The field number and the wire type. -/
def tag (r : ProtoReader) : Except ProtoError (UInt32 × UInt32) × ProtoReader :=
  match r.varint with
  | (.ok v, r) => (.ok ((v >>> 3).toUInt32, (v &&& 7).toUInt32), r)
  | (.error e, r) => (.error e, r)

/-- The check that `bytes` and `advance` begin with: where the next `n` bytes end. -/
def endOf (r : ProtoReader) (n : ℕ) : Except ProtoError ℕ :=
  if r.pos + n ≥ 2 ^ 64 then .error .eof
  else if r.pos + n > r.buf.length then .error (.truncatedLength n (r.buf.length - r.pos))
  else .ok (r.pos + n)

def bytes (r : ProtoReader) : Except ProtoError Bytes × ProtoReader :=
  match r.varint with
  | (.ok len, r) =>
    match r.endOf len.toNat with
    | .ok stop => (.ok ((r.buf.take stop).drop r.pos), { r with pos := stop })
    | .error e => (.error e, r)
  | (.error e, r) => (.error e, r)

def string (r : ProtoReader) : Except ProtoError String × ProtoReader :=
  match r.bytes with
  | (.ok b, r) =>
    match String.fromUTF8? ⟨b.toArray⟩ with
    | some s => (.ok s, r)
    | none => (.error .invalidUtf8, r)
  | (.error e, r) => (.error e, r)

def advance (r : ProtoReader) (n : ℕ) : Except ProtoError Unit × ProtoReader :=
  match r.endOf n with
  | .ok stop => (.ok (), { r with pos := stop })
  | .error e => (.error e, r)

def skip (r : ProtoReader) (wire : UInt32) : Except ProtoError Unit × ProtoReader :=
  if wire = 0 then
    match r.varint with
    | (.ok _, r) => (.ok (), r)
    | (.error e, r) => (.error e, r)
  else if wire = 1 then r.advance 8
  else if wire = 2 then
    match r.varint with
    | (.ok n, r) => r.advance n.toNat
    | (.error e, r) => (.error e, r)
  else if wire = 5 then r.advance 4
  else (.error (.unsupportedWireType wire), r)

end ProtoReader

/-! ## Varints -/

theorem varintBytes_length_le (v : UInt64) (k : ℕ) (h : v.toNat < 2 ^ (7 * (k + 1))) :
    (varintBytes v).length ≤ k + 1 := by
  induction k generalizing v with
  | zero =>
    have hv : ¬ (v &&& ~~~0x7F ≠ 0) := not_not.mpr ((and_not_low_eq_zero v).mpr h)
    rw [varintBytes, dif_neg hv]
    exact Nat.le_refl 1
  | succ k ih =>
    rw [varintBytes]
    split
    · have hrest : (v >>> 7).toNat < 2 ^ (7 * (k + 1)) := by
        rw [toNat_shiftRight_seven, Nat.div_lt_iff_lt_mul (by decide)]
        rw [show 7 * (k + 1 + 1) = 7 * (k + 1) + 7 by omega, Nat.pow_add] at h
        exact h
      exact Nat.succ_le_succ (ih _ hrest)
    · exact Nat.le_add_left 1 _

theorem varintBytes_spec (v : UInt64) :
    Terminated (varintBytes v) ∧ value (varintBytes v) = v.toNat := by
  fun_induction varintBytes v with
  | case1 v h ih =>
    have hbyte := toNat_low_or_high v
    obtain ⟨hterminated, hvalue⟩ := ih
    rw [toNat_shiftRight_seven] at hvalue
    refine ⟨(terminated_cons (by omega)).mpr hterminated, ?_⟩
    rw [value, hbyte, hvalue]
    omega
  | case2 v h =>
    have hlt : v.toNat < 128 := (and_not_low_eq_zero v).mp (not_not.mp h)
    have hbyte : (v &&& 0x7F).toUInt8.toNat = v.toNat := by
      rw [UInt64.toNat_toUInt8, uint64_and_low]
      omega
    refine ⟨terminated_singleton (by omega), ?_⟩
    rw [value, value, hbyte]
    omega

/-- A varint of the format: ten bytes at most. -/
structure Varint where
  bytes : Bytes
  terminated : Terminated bytes
  short : bytes.length ≤ 10

namespace Varint

/-- Ten groups can hold more than 64 bits; the rest is not part of the number. -/
def value (v : Varint) : UInt64 := UInt64.ofNat (Base128.value v.bytes)

/-- The shortest varint of a number, which is what the writer makes. -/
def ofUInt64 (v : UInt64) : Varint where
  bytes := varintBytes v
  terminated := (varintBytes_spec v).1
  short := varintBytes_length_le v 9 (Nat.lt_trans v.toNat_lt (by decide))

@[simp] theorem value_ofUInt64 (v : UInt64) : (ofUInt64 v).value = v := by
  rw [value, ofUInt64, (varintBytes_spec v).2, UInt64.ofNat_toNat]

end Varint

theorem varintLoop_append {bs : Bytes} (h : Terminated bs) (tail : Bytes) (acc : UInt64) (k : ℕ)
    (hk : bs.length + k ≤ 10) (hacc : acc.toNat < 2 ^ (7 * k)) :
    varintLoop (bs ++ tail) acc (7 * k) =
      (.ok (UInt64.ofNat (acc.toNat + value bs * 2 ^ (7 * k))), bs.length) := by
  induction bs generalizing acc k with
  | nil => exact h.elim
  | cons b bs ih =>
    rw [List.length_cons] at hk
    have hor := toNat_or_shift (x := (b &&& 0x7F).toUInt64) (k := 7 * k) (by omega) hacc
    rw [UInt8.toNat_toUInt64, toNat_and_low] at hor
    rw [List.cons_append, varintLoop]
    by_cases hb : b.toNat < 128
    · rw [if_pos ((and_high_eq_zero b).mpr hb)]
      rw [Terminated, if_pos hb] at h
      subst h
      have hresult : acc ||| ((b &&& 0x7F).toUInt64 <<< UInt64.ofNat (7 * k)) =
          UInt64.ofNat (acc.toNat + value [b] * 2 ^ (7 * k)) := by
        rw [← UInt64.toNat_inj, UInt64.toNat_ofNat', value, value, Nat.mul_zero, Nat.add_zero]
        have hlt := UInt64.toNat_lt (acc ||| ((b &&& 0x7F).toUInt64 <<< UInt64.ofNat (7 * k)))
        rw [hor] at hlt ⊢
        omega
      rw [hresult]
      rfl
    · have hbs := (terminated_cons hb).mp h
      have hpos := List.length_pos_of_ne_nil hbs.ne_nil
      have hgroup : b.toNat % 128 * 2 ^ (7 * k) < 2 ^ (7 * (k + 1)) := by
        rw [show 7 * (k + 1) = 7 + 7 * k by omega, Nat.pow_add]
        exact Nat.mul_lt_mul_of_pos_right (Nat.mod_lt _ (by decide)) (Nat.two_pow_pos _)
      have hroom : 2 ^ (7 * (k + 1)) ≤ 2 ^ 63 := Nat.pow_le_pow_right (by decide) (by omega)
      rw [Nat.mod_eq_of_lt (by omega)] at hor
      have hacc' : (acc ||| ((b &&& 0x7F).toUInt64 <<< UInt64.ofNat (7 * k))).toNat < 2 ^ (7 * (k + 1)) := by
        rw [hor, show 7 * (k + 1) = 7 + 7 * k by omega, Nat.pow_add]
        have hle : b.toNat % 128 * 2 ^ (7 * k) ≤ 127 * 2 ^ (7 * k) :=
          Nat.mul_le_mul_right _ (Nat.le_of_lt_succ (Nat.mod_lt _ (by decide)))
        omega
      rw [if_neg (mt (and_high_eq_zero b).mp hb), if_neg (by omega : ¬ 7 * k + 7 ≥ 64),
        show 7 * k + 7 = 7 * (k + 1) by omega, ih hbs _ (k + 1) (by omega) hacc', hor]
      have hsum : acc.toNat + b.toNat % 128 * 2 ^ (7 * k) + value bs * 2 ^ (7 * (k + 1)) =
          acc.toNat + value (b :: bs) * 2 ^ (7 * k) := by
        have hhigh : value bs * 2 ^ (7 * (k + 1)) = 128 * value bs * 2 ^ (7 * k) := by
          rw [show 7 * (k + 1) = 7 + 7 * k by omega, Nat.pow_add, ← Nat.mul_assoc, Nat.mul_comm (value bs)]
        rw [value, Nat.add_mul, hhigh, Nat.add_assoc]
      rw [hsum, List.length_cons]

theorem split_of_varintLoop {bs : Bytes} {acc v : UInt64} {k n : ℕ} (hk : k ≤ 9)
    (h : varintLoop bs acc (7 * k) = (.ok v, n)) :
    ∃ front tail, bs = front ++ tail ∧ Terminated front ∧ front.length + k ≤ 10 ∧ front.length = n := by
  induction bs generalizing acc k n with
  | nil => cases h
  | cons b bs ih =>
    rw [varintLoop] at h
    by_cases hb : b.toNat < 128
    · rw [if_pos ((and_high_eq_zero b).mpr hb)] at h
      obtain rfl := (Prod.mk.inj h).2
      exact ⟨[b], bs, rfl, terminated_singleton hb, by rw [List.length_singleton]; omega, rfl⟩
    · rw [if_neg (mt (and_high_eq_zero b).mp hb)] at h
      split at h
      · cases h
      · rw [show 7 * k + 7 = 7 * (k + 1) by omega] at h
        obtain ⟨hres, hn⟩ := Prod.mk.inj h
        obtain ⟨front, tail, rfl, hterminated, hlen, hfront⟩ := ih (by omega) (Prod.ext hres rfl)
        refine ⟨b :: front, tail, rfl, (terminated_cons hb).mpr hterminated, ?_, ?_⟩
        · rw [List.length_cons]
          omega
        · rw [List.length_cons, hfront]
          exact hn

/-! ## What the reader takes off -/

namespace ProtoReader

/-- The reader `n` bytes on. -/
def moved (r : ProtoReader) (n : ℕ) : ProtoReader := { r with pos := r.pos + n }

@[simp] theorem buf_moved (r : ProtoReader) (n : ℕ) : (r.moved n).buf = r.buf := rfl

@[simp] theorem pos_moved (r : ProtoReader) (n : ℕ) : (r.moved n).pos = r.pos + n := rfl

theorem remaining_moved (r : ProtoReader) (n : ℕ) : (r.moved n).remaining = r.remaining.drop n := by
  simp [remaining, List.drop_drop]

theorem moved_moved (r : ProtoReader) (m n : ℕ) : (r.moved m).moved n = r.moved (m + n) := by
  simp [moved, Nat.add_assoc]

theorem remaining_of_append {r : ProtoReader} {bs tail : Bytes} (h : r.remaining = bs ++ tail) :
    (r.moved bs.length).remaining = tail := by
  rw [remaining_moved, h, List.drop_left]

theorem pos_add_le {r : ProtoReader} {bs tail : Bytes} (h : r.remaining = bs ++ tail) (hbs : bs ≠ []) :
    r.pos + bs.length ≤ r.buf.length := by
  have hlen := congrArg List.length h
  rw [remaining, List.length_drop, List.length_append] at hlen
  have hpos := List.length_pos_of_ne_nil hbs
  omega

theorem varint_of_remaining {r : ProtoReader} (v : Varint) {tail : Bytes}
    (h : r.remaining = v.bytes ++ tail) : r.varint = (.ok v.value, r.moved v.bytes.length) := by
  have hloop := varintLoop_append v.terminated tail 0 0 v.short (by decide)
  rw [UInt64.toNat_zero, Nat.zero_add, Nat.mul_zero, Nat.pow_zero, Nat.mul_one] at hloop
  rw [varint, h, hloop]
  rfl

theorem tag_of_remaining {r : ProtoReader} (v : Varint) {tail : Bytes}
    (h : r.remaining = v.bytes ++ tail) :
    r.tag = (.ok ((v.value >>> 3).toUInt32, (v.value &&& 7).toUInt32), r.moved v.bytes.length) := by
  rw [tag, varint_of_remaining v h]

theorem endOf_eq {r : ProtoReader} {n : ℕ} (hbuf : r.buf.length ≤ ISIZE_MAX)
    (h : r.pos + n ≤ r.buf.length) : r.endOf n = .ok (r.pos + n) := by
  have hsize : ISIZE_MAX < 2 ^ 64 := by
    decide
  rw [endOf, if_neg (by omega), if_neg (by omega)]

theorem bytes_of_remaining {r : ProtoReader} (hbuf : r.buf.length ≤ ISIZE_MAX) (len : Varint)
    {bs tail : Bytes} (hlen : len.value.toNat = bs.length) (h : r.remaining = len.bytes ++ bs ++ tail) :
    r.bytes = (.ok bs, r.moved (len.bytes.length + bs.length)) := by
  have hle := pos_add_le h (List.append_ne_nil_of_left_ne_nil len.terminated.ne_nil bs)
  rw [List.length_append] at hle
  rw [List.append_assoc] at h
  have hrest := remaining_of_append h
  have hend : (r.moved len.bytes.length).endOf len.value.toNat =
      .ok (r.pos + len.bytes.length + bs.length) := by
    rw [hlen]
    exact endOf_eq hbuf (by rw [pos_moved, buf_moved]; omega)
  have hout : (r.buf.take (r.pos + len.bytes.length + bs.length)).drop (r.pos + len.bytes.length) = bs := by
    rw [remaining, buf_moved, pos_moved] at hrest
    rw [List.drop_take, hrest, Nat.add_sub_cancel_left, List.take_left]
  rw [bytes, varint_of_remaining len h]
  simp only [hend, buf_moved, pos_moved, hout]
  rw [Nat.add_assoc]
  rfl

theorem advance_of_le {r : ProtoReader} {n : ℕ} (hbuf : r.buf.length ≤ ISIZE_MAX)
    (h : r.pos + n ≤ r.buf.length) : r.advance n = (.ok (), r.moved n) := by
  rw [advance, endOf_eq hbuf h]
  rfl

end ProtoReader

/-! ## Fields -/

/-- What follows a tag: the wire types that `skip` knows. -/
inductive Payload
  | varint (v : Varint)
  | fixed64 (bs : Bytes) (h : bs.length = 8)
  | lengthDelimited (len : Varint) (bs : Bytes) (h : len.value.toNat = bs.length)
  | fixed32 (bs : Bytes) (h : bs.length = 4)

namespace Payload

def wire : Payload → UInt32
  | .varint _ => 0
  | .fixed64 _ _ => 1
  | .lengthDelimited _ _ _ => 2
  | .fixed32 _ _ => 5

def encoded : Payload → Bytes
  | .varint v => v.bytes
  | .fixed64 bs _ => bs
  | .lengthDelimited len bs _ => len.bytes ++ bs
  | .fixed32 bs _ => bs

theorem encoded_ne_nil (p : Payload) : p.encoded ≠ [] := by
  cases p with
  | varint v => exact v.terminated.ne_nil
  | fixed64 bs h =>
    rintro rfl
    cases h
  | lengthDelimited len bs h => exact List.append_ne_nil_of_left_ne_nil len.terminated.ne_nil bs
  | fixed32 bs h =>
    rintro rfl
    cases h

end Payload

theorem ProtoReader.skip_of_remaining {r : ProtoReader} (hbuf : r.buf.length ≤ ISIZE_MAX) (p : Payload)
    {tail : Bytes} (h : r.remaining = p.encoded ++ tail) :
    r.skip p.wire = (.ok (), r.moved p.encoded.length) := by
  have hle := pos_add_le h p.encoded_ne_nil
  cases p with
  | varint v => simp [skip, Payload.wire, Payload.encoded, varint_of_remaining v h]
  | fixed64 bs hbs =>
    rw [Payload.encoded, hbs] at hle
    simp [skip, Payload.wire, Payload.encoded, hbs, advance_of_le hbuf hle]
  | lengthDelimited len bs hlen =>
    rw [Payload.encoded, List.length_append, ← Nat.add_assoc] at hle
    rw [Payload.encoded, List.append_assoc] at h
    have hadvance := advance_of_le (r := r.moved len.bytes.length) hbuf hle
    simp [skip, Payload.wire, Payload.encoded, varint_of_remaining len h, hlen, hadvance, moved_moved]
  | fixed32 bs hbs =>
    rw [Payload.encoded, hbs] at hle
    simp [skip, Payload.wire, Payload.encoded, hbs, advance_of_le hbuf hle]

/-! ## The round trip -/

inductive FieldValue
  | int32 (v : Int32)
  | int64 (v : Int64)
  | bool (v : Bool)
  | string (v : String)
  | bytes (v : Bytes)
  deriving DecidableEq

def ProtoWriter.field (w : ProtoWriter) (f : UInt32) : FieldValue → ProtoWriter
  | .int32 v => w.int32 f v
  | .int64 v => w.int64 f v
  | .bool v => w.bool f v
  | .string v => w.string f v
  | .bytes v => w.bytes f v

def written (fields : List (UInt32 × FieldValue)) : Bytes :=
  (fields.foldl (fun w x => w.field x.1 x.2) ProtoWriter.new).build

/-- The read that a caller makes after the tag. -/
inductive ReadKind
  | varint | string | bytes
  deriving DecidableEq, Repr

inductive ReadValue
  | varint (v : UInt64)
  | string (s : String)
  | bytes (b : Bytes)
  deriving DecidableEq

def ProtoReader.read (r : ProtoReader) : ReadKind → Except ProtoError ReadValue × ProtoReader
  | .varint => (r.varint.1.map .varint, r.varint.2)
  | .string => (r.string.1.map .string, r.string.2)
  | .bytes => (r.bytes.1.map .bytes, r.bytes.2)

/-- The tags and the values of the fields ahead, each read as the list says. -/
def ProtoReader.readFields (r : ProtoReader) :
    List ReadKind → Except ProtoError (List (UInt32 × UInt32 × ReadValue)) × ProtoReader
  | [] => (.ok [], r)
  | kind :: kinds =>
    match r.tag with
    | (.error e, r) => (.error e, r)
    | (.ok (f, w), r) =>
      match r.read kind with
      | (.error e, r) => (.error e, r)
      | (.ok v, r) =>
        let (rest, r) := readFields r kinds
        (rest.map ((f, w, v) :: ·), r)

namespace FieldValue

def kind : FieldValue → ReadKind
  | .int32 _ | .int64 _ | .bool _ => .varint
  | .string _ => .string
  | .bytes _ => .bytes

def wire : FieldValue → UInt32
  | .int32 _ | .int64 _ | .bool _ => 0
  | .string _ | .bytes _ => 2

/-- What reading gives: an integer as the pattern of its bits. -/
def image : FieldValue → ReadValue
  | .int32 v => .varint v.toUInt32.toUInt64
  | .int64 v => .varint v.toUInt64
  | .bool v => .varint (if v then 1 else 0)
  | .string v => .string v
  | .bytes v => .bytes v

end FieldValue

/-! ### A field at a time -/

/-- What the writer appends for a field. -/
def fieldBytes (f : UInt32) (v : FieldValue) : Bytes := (ProtoWriter.new.field f v).buf

theorem ProtoWriter.buf_field (w : ProtoWriter) (f : UInt32) (v : FieldValue) :
    (w.field f v).buf = w.buf ++ fieldBytes f v := by
  cases v <;> simp [fieldBytes, field, int32, int64, bool, string, bytes, tag, varint, new]

theorem written_eq (fields : List (UInt32 × FieldValue)) :
    written fields = fields.flatMap fun x => fieldBytes x.1 x.2 := by
  have hfold (w : ProtoWriter) : (fields.foldl (fun w x => w.field x.1 x.2) w).buf =
      w.buf ++ fields.flatMap fun x => fieldBytes x.1 x.2 := by
    induction fields generalizing w with
    | nil => exact (List.append_nil _).symm
    | cons x xs ih => rw [List.foldl_cons, ih, ProtoWriter.buf_field, List.append_assoc, List.flatMap_cons]
  exact hfold ProtoWriter.new

def tagOf (f w : UInt32) : UInt64 := (f.toUInt64 <<< 3) ||| w.toUInt64

theorem tagOf_split (f : UInt32) {w : UInt32} (hw : w.toNat < 8) :
    (tagOf f w >>> 3).toUInt32 = f ∧ (tagOf f w &&& 7).toUInt32 = w := by
  have hnat : (tagOf f w).toNat = f.toNat * 8 + w.toNat := by
    have hor := Nat.shiftLeft_add_eq_or_of_lt (i := 3) hw f.toNat
    have hf := f.toNat_lt
    rw [tagOf, UInt64.toNat_or, UInt64.toNat_shiftLeft, UInt32.toNat_toUInt64, UInt32.toNat_toUInt64]
    change f.toNat <<< 3 % 2 ^ 64 ||| w.toNat = _
    rw [Nat.mod_eq_of_lt (by rw [Nat.shiftLeft_eq]; omega), ← hor, Nat.shiftLeft_eq]
  have hf := f.toNat_lt
  constructor
  · rw [← UInt32.toNat_inj, UInt64.toNat_toUInt32, UInt64.toNat_shiftRight, hnat]
    change (f.toNat * 8 + w.toNat) >>> 3 % 2 ^ 32 = _
    rw [Nat.shiftRight_eq_div_pow]
    omega
  · have hand : (f.toNat * 8 + w.toNat) &&& 7 = (f.toNat * 8 + w.toNat) % 2 ^ 3 :=
      Nat.and_two_pow_sub_one_eq_mod _ 3
    rw [← UInt32.toNat_inj, UInt64.toNat_toUInt32, UInt64.toNat_and, hnat]
    change ((f.toNat * 8 + w.toNat) &&& 7) % 2 ^ 32 = _
    rw [hand]
    omega

theorem string_of_bytes {r r' : ProtoReader} {s : String}
    (h : r.bytes = (.ok s.toUTF8.data.toList, r')) : r.string = (.ok s, r') := by
  rw [ProtoReader.string, h]
  simp only [fromUTF8?_toUTF8]

theorem read_of_varint {r : ProtoReader} {tail : Bytes} (v : UInt64)
    (h : r.remaining = (Payload.varint (.ofUInt64 v)).encoded ++ tail) :
    r.read .varint = (.ok (.varint v), r.moved (Payload.varint (.ofUInt64 v)).encoded.length) := by
  simp [ProtoReader.read, ProtoReader.varint_of_remaining _ h, Except.map, Payload.encoded]

/-- A field is a tag and a payload, and the matching read gives the value back. -/
theorem exists_payload (f : UInt32) (v : FieldValue) (h : (fieldBytes f v).length ≤ ISIZE_MAX) :
    ∃ p : Payload, fieldBytes f v = varintBytes (tagOf f v.wire) ++ p.encoded ∧ p.wire = v.wire ∧
      ∀ (r : ProtoReader) (tail : Bytes), r.buf.length ≤ ISIZE_MAX → r.remaining = p.encoded ++ tail →
        r.read v.kind = (.ok v.image, r.moved p.encoded.length) := by
  have hlength {bs : Bytes} (hbs : bs.length ≤ (fieldBytes f v).length) :
      (Varint.ofUInt64 (UInt64.ofNat bs.length)).value.toNat = bs.length := by
    have hsize : ISIZE_MAX < 2 ^ 64 := by
      decide
    rw [Varint.value_ofUInt64, UInt64.toNat_ofNat', Nat.mod_eq_of_lt (by omega)]
  cases v with
  | int32 v => exact ⟨.varint (.ofUInt64 v.toUInt32.toUInt64), rfl, rfl, fun r tail _ => read_of_varint _⟩
  | int64 v => exact ⟨.varint (.ofUInt64 v.toUInt64), rfl, rfl, fun r tail _ => read_of_varint _⟩
  | bool v => exact ⟨.varint (.ofUInt64 (if v then 1 else 0)), rfl, rfl, fun r tail _ => read_of_varint _⟩
  | string v =>
    have hlen := @hlength v.toUTF8.data.toList (by simp [fieldBytes, ProtoWriter.field,
      ProtoWriter.string, ProtoWriter.bytes])
    refine ⟨.lengthDelimited _ v.toUTF8.data.toList hlen, ?_, rfl, fun r tail hbuf hr => ?_⟩
    · exact List.append_assoc _ _ _
    · have hbytes := ProtoReader.bytes_of_remaining hbuf _ hlen hr
      simp [ProtoReader.read, FieldValue.kind, string_of_bytes hbytes, Except.map, FieldValue.image,
        Payload.encoded]
  | bytes v =>
    have hlen := @hlength v (by simp [fieldBytes, ProtoWriter.field, ProtoWriter.bytes])
    refine ⟨.lengthDelimited _ v hlen, ?_, rfl, fun r tail hbuf hr => ?_⟩
    · exact List.append_assoc _ _ _
    · have hbytes := ProtoReader.bytes_of_remaining hbuf _ hlen hr
      simp [ProtoReader.read, FieldValue.kind, hbytes, Except.map, FieldValue.image, Payload.encoded]

/-- Where the reader stands after the fields `front` of a buffer that `front`, `x` and more were written to:
the tag of `x` is ahead, then its value, and to skip is to read. -/
theorem read_field {front after : List (UInt32 × FieldValue)} {f : UInt32} {v : FieldValue}
    (hfits : (written (front ++ (f, v) :: after)).length ≤ ISIZE_MAX) :
    ∃ tagged next : ProtoReader,
      (ProtoReader.mk (written (front ++ (f, v) :: after)) (written front).length).tag =
          (.ok (f, v.wire), tagged) ∧
        tagged.read v.kind = (.ok v.image, next) ∧ tagged.skip v.wire = (.ok (), next) ∧
        next = ⟨written (front ++ (f, v) :: after), (written (front ++ [(f, v)])).length⟩ := by
  have hsplit : written (front ++ (f, v) :: after) = written front ++ (fieldBytes f v ++ written after) := by
    simp [written_eq]
  have hlen := congrArg List.length hsplit
  rw [List.length_append, List.length_append] at hlen
  obtain ⟨p, hp, hwire, hread⟩ := exists_payload f v (by omega)
  set buf := written (front ++ (f, v) :: after) with hbuf
  have hahead : (ProtoReader.mk buf (written front).length).remaining =
      (Varint.ofUInt64 (tagOf f v.wire)).bytes ++ (p.encoded ++ written after) := by
    rw [ProtoReader.remaining, hsplit, List.drop_left, hp, List.append_assoc]
    rfl
  have htag := ProtoReader.tag_of_remaining _ hahead
  obtain ⟨hfield, hlow⟩ := tagOf_split f (w := v.wire) (by cases v <;> simp [FieldValue.wire])
  rw [Varint.value_ofUInt64, hfield, hlow] at htag
  have hpayload := ProtoReader.remaining_of_append hahead
  have hskip := ProtoReader.skip_of_remaining hfits p hpayload
  rw [hwire] at hskip
  refine ⟨_, _, htag, hread _ _ hfits hpayload, hskip, ?_⟩
  have hnext : (written (front ++ [(f, v)])).length =
      (written front).length + ((varintBytes (tagOf f v.wire)).length + p.encoded.length) := by
    simp [written_eq, hp]
  rw [ProtoReader.moved_moved, hnext]
  rfl

theorem readFields_written (front fields : List (UInt32 × FieldValue))
    (hfits : (written (front ++ fields)).length ≤ ISIZE_MAX) :
    (ProtoReader.mk (written (front ++ fields)) (written front).length).readFields (fields.map (·.2.kind)) =
      (.ok (fields.map fun x => (x.1, x.2.wire, x.2.image)),
        ⟨written (front ++ fields), (written (front ++ fields)).length⟩) := by
  induction fields generalizing front with
  | nil => rw [List.append_nil]; rfl
  | cons x fields ih =>
    obtain ⟨f, v⟩ := x
    obtain ⟨tagged, next, htag, hread, -, rfl⟩ := read_field hfits
    have hrest := ih (front ++ [(f, v)])
    rw [List.append_assoc, List.singleton_append] at hrest
    simp only [List.map_cons, ProtoReader.readFields, htag, hread, hrest hfits, Except.map]

/-- The codec's round trip. A reader over what was written gives back the field numbers, the wire types and
the values, and stops at the end; at each field skipping leads where reading does. -/
theorem proto_round_trip (fields : List (UInt32 × FieldValue)) (hfits : (written fields).length ≤ ISIZE_MAX) :
    (ProtoReader.new (written fields)).readFields (fields.map (·.2.kind)) =
        (.ok (fields.map fun x => (x.1, x.2.wire, x.2.image)), ⟨written fields, (written fields).length⟩) ∧
      ∀ front f v after, fields = front ++ (f, v) :: after → ∃ tagged next : ProtoReader,
        (ProtoReader.mk (written fields) (written front).length).tag = (.ok (f, v.wire), tagged) ∧
          tagged.read v.kind = (.ok v.image, next) ∧ tagged.skip v.wire = (.ok (), next) ∧
          next = ⟨written fields, (written (front ++ [(f, v)])).length⟩ := by
  refine ⟨readFields_written [] fields hfits, ?_⟩
  rintro front f v after rfl
  exact read_field hfits

theorem proto_round_trip_mixed :
    (ProtoReader.new (written [(1, .int32 (-1)), (536870911, .string "né"), (2, .bool true)])).readFields
        [.varint, .string, .varint] =
      (.ok [(1, 0, .varint 0xFFFFFFFF), (536870911, 2, .string "né"), (2, 0, .varint 1)],
        ⟨written [(1, .int32 (-1)), (536870911, .string "né"), (2, .bool true)],
          (written [(1, .int32 (-1)), (536870911, .string "né"), (2, .bool true)]).length⟩) :=
  (proto_round_trip [(1, .int32 (-1)), (536870911, .string "né"), (2, .bool true)] (by decide +kernel)).1

end BaleVpn.Signaling
