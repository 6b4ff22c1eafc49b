import Mathlib.Data.List.Flatten
import BaleVpn.Signaling.Proto

/-!
# The message decoders (`ws.rs`, `contacts.rs`)

Each decoder walks a message and dispatches on the field number alone: a known number is read as the type
that the decoder expects, whatever the wire type in the tag, and a read that fails leaves a default and the
reader where it stopped. Three of the five also go on after a failed skip.
-/

namespace BaleVpn.Signaling

open Lib Base128 Net

/-! ## The loop -/

/-- What a decoder does with a known field. -/
inductive FieldRead (α : Type)
  /-- `r.varint().unwrap_or(0)` -/
  | varint (set : UInt64 → α → α)
  /-- `r.string().unwrap_or("")` -/
  | string (set : String → α → α)
  /-- `r.bytes().unwrap_or(&[])` -/
  | bytes (set : Bytes → α → α)
  /-- `if let Ok(b) = r.bytes()` -/
  | message (push : Bytes → α → α)

variable {α : Type}

def FieldRead.run (read : FieldRead α) (a : α) (r : ProtoReader) : α × ProtoReader :=
  match read with
  | .varint set => (set (r.varint.1.toOption.getD 0) a, r.varint.2)
  | .string set => (set (r.string.1.toOption.getD "") a, r.string.2)
  | .bytes set => (set (r.bytes.1.toOption.getD []) a, r.bytes.2)
  | .message push =>
    match r.bytes with
    | (.ok b, r) => (push b a, r)
    | (.error _, r) => (a, r)

structure Decoder (α : Type) where
  init : α
  /-- The arm of the `match` on the field number, if it is not the last one. -/
  field : UInt32 → Option (FieldRead α)
  /-- A failed skip ends the loop. -/
  breaks : Bool

/-- The loop, for at most so many rounds. -/
def Decoder.scan (d : Decoder α) : ℕ → α → ProtoReader → α
  | 0, a, _ => a
  | n + 1, a, r =>
    if r.hasMore then
      match r.tag with
      | (.error _, _) => a
      | (.ok (f, w), r) =>
        match d.field f with
        | some read =>
          let (a, r) := read.run a r
          scan d n a r
        | none =>
          match r.skip w with
          | (.ok _, r) => scan d n a r
          | (.error _, r) => if d.breaks then a else scan d n a r
    else a

def Decoder.run (d : Decoder α) (buf : Bytes) : α := d.scan buf.length d.init (ProtoReader.new buf)

/-! ## The decoders -/

def wrappedLoop : ℕ → ProtoReader → String
  | 0, _ => ""
  | n + 1, r =>
    if r.hasMore then
      match r.tag with
      | (.error _, _) => ""
      | (.ok (f, w), r) =>
        if f = 1 then r.string.1.toOption.getD ""
        else
          match r.skip w with
          | (.ok _, r) => wrappedLoop n r
          | (.error _, _) => ""
    else ""

/-- `parse_wrapped_string`, and `decode_wrapped` alike. -/
def parseWrappedString (buf : Bytes) : String := wrappedLoop buf.length (ProtoReader.new buf)

/-- `CallEntity` with all its fields. -/
structure Wire.CallEntity where
  callId : Int64 := 0
  token : String := ""
  room : String := ""
  url : String := ""
  isLivekit : Bool := false
  callerId : Int64 := 0
  video : Bool := false
  createDate : Int64 := 0
  startDate : Int64 := 0
  duration : Int32 := 0
  discardReason : Int32 := 0
  deriving DecidableEq, Repr

def callEntity : Decoder Wire.CallEntity where
  init := {}
  breaks := true
  field
    | 1 => some (.varint fun v c => { c with callId := v.toInt64 })
    | 2 => some (.string fun s c => { c with token := s })
    | 3 => some (.string fun s c => { c with room := s })
    | 4 => some (.bytes fun b c => { c with url := parseWrappedString b })
    | 5 => some (.varint fun v c => { c with video := v != 0 })
    | 6 => some (.varint fun v c => { c with createDate := v.toInt64 })
    | 7 => some (.varint fun v c => { c with startDate := v.toInt64 })
    | 8 => some (.varint fun v c => { c with callerId := v.toInt64 })
    | 10 => some (.varint fun v c => { c with duration := v.toUInt32.toInt32 })
    | 11 => some (.varint fun v c => { c with discardReason := v.toUInt32.toInt32 })
    | 12 => some (.varint fun v c => { c with isLivekit := v != 0 })
    | _ => none

def parseCallEntity (buf : Bytes) : Wire.CallEntity := callEntity.run buf

structure UserEntity where
  id : Int32 := 0
  name : String := ""
  nick : String := ""
  phone : String := ""
  accessHash : Int64 := 0
  deriving DecidableEq, Repr

def userEntity : Decoder UserEntity where
  init := {}
  breaks := false
  field
    | 1 => some (.varint fun v e => { e with id := v.toUInt32.toInt32 })
    | 2 => some (.varint fun v e => { e with accessHash := v.toInt64 })
    | 3 => some (.string fun s e => { e with name := s })
    | 9 => some (.bytes fun b e => { e with nick := parseWrappedString b })
    | _ => none

def decodeUserEntity (buf : Bytes) : UserEntity := userEntity.run buf

structure UserPeerRef where
  uid : Int32
  accessHash : Int64
  deriving DecidableEq, Repr

def userPeerRef : Decoder UserPeerRef where
  init := { uid := 0, accessHash := 0 }
  breaks := false
  field
    | 1 => some (.varint fun v e => { e with uid := v.toUInt32.toInt32 })
    | 2 => some (.varint fun v e => { e with accessHash := v.toInt64 })
    | _ => none

def decodeUserPeerRef (buf : Bytes) : UserPeerRef := userPeerRef.run buf

structure ContactPeers where
  peers : List UserPeerRef := []
  inlineUsers : List UserEntity := []
  deriving DecidableEq, Repr

def contactPeers : Decoder ContactPeers where
  init := {}
  breaks := false
  field
    | 1 => some (.message fun b c => { c with inlineUsers := c.inlineUsers ++ [decodeUserEntity b] })
    | 3 => some (.message fun b c => { c with peers := c.peers ++ [decodeUserPeerRef b] })
    | _ => none

def decodeGetContactsResponse (buf : Bytes) : ContactPeers := contactPeers.run buf

def usersResponse : Decoder (List UserEntity) where
  init := []
  breaks := true
  field
    | 1 => some (.message fun b out => out ++ [decodeUserEntity b])
    | _ => none

def decodeUsersResponse (buf : Bytes) : List UserEntity := usersResponse.run buf

/-! ## The format -/

/-- A well-formed field: a tag with a number of 1 to 2^29 - 1, and the payload of its wire type. -/
structure WireField where
  tag : Varint
  payload : Payload
  wire : (tag.value &&& 7).toUInt32 = payload.wire
  number_pos : 0 < (tag.value >>> 3).toNat
  number_lt : (tag.value >>> 3).toNat < 2 ^ 29

namespace WireField

def number (x : WireField) : UInt32 := (x.tag.value >>> 3).toUInt32

def encoded (x : WireField) : Bytes := x.tag.bytes ++ x.payload.encoded

end WireField

def message (xs : List WireField) : Bytes := xs.flatMap WireField.encoded

/-- `xs` are the fields of the longest prefix of `buf` that is a sequence of well-formed fields. -/
def LongestPrefix (buf : Bytes) (xs : List WireField) : Prop :=
  message xs <+: buf ∧ ∀ ys, message ys <+: buf → (message ys).length ≤ (message xs).length

/-- The wire type that the read is for. -/
def FieldRead.wire : FieldRead α → UInt32
  | .varint _ => 0
  | .string _ | .bytes _ | .message _ => 2

/-- The field has a known number and the wire type expected of it. -/
def Decoder.knows (d : Decoder α) (x : WireField) : Bool :=
  match d.field x.number with
  | some read => read.wire = x.payload.wire
  | none => false

/-- The decoder takes just what it knows from the well-formed part of `buf`, which ends after `xs`. -/
def IgnoresJunk (d : Decoder α) (decode : Bytes → α) (buf : Bytes) (xs : List WireField) : Prop :=
  decode buf = decode (message xs) ∧ decode (message xs) = decode (message (xs.filter d.knows))

/-! ## Where it does -/

/-- What the reader comes upon contributes nothing: numbers that the decoder does not know, in range or not,
and messages that are cut off, until nothing is left, no tag can be read or a failed skip ends the loop. -/
inductive Decoder.PassesOver (d : Decoder α) : ProtoReader → Prop
  | done {r : ProtoReader} (hend : r.hasMore = false) : PassesOver d r
  | noTag {r r₁ : ProtoReader} {e : ProtoError} (htag : r.tag = (.error e, r₁)) : PassesOver d r
  | skipped {r r₁ r₂ : ProtoReader} {f w : UInt32} (htag : r.tag = (.ok (f, w), r₁))
      (hunknown : d.field f = none) (hskip : r₁.skip w = (.ok (), r₂)) (hrest : PassesOver d r₂) : PassesOver d r
  | broken {r r₁ r₂ : ProtoReader} {f w : UInt32} {e : ProtoError} (htag : r.tag = (.ok (f, w), r₁))
      (hunknown : d.field f = none) (hskip : r₁.skip w = (.error e, r₂)) (hbreaks : d.breaks = true) :
      PassesOver d r
  | goneOn {r r₁ r₂ : ProtoReader} {f w : UInt32} {e : ProtoError} (htag : r.tag = (.ok (f, w), r₁))
      (hunknown : d.field f = none) (hskip : r₁.skip w = (.error e, r₂)) (hrest : PassesOver d r₂) :
      PassesOver d r
  | cutOff {r r₁ r₂ : ProtoReader} {f w : UInt32} {e : ProtoError} {push : Bytes → α → α}
      (htag : r.tag = (.ok (f, w), r₁)) (hknown : d.field f = some (.message push))
      (hbytes : r₁.bytes = (.error e, r₂)) (hrest : PassesOver d r₂) : PassesOver d r

structure Decoder.Tolerates (d : Decoder α) (buf : Bytes) (xs : List WireField) : Prop where
  typed : ∀ x ∈ xs, ∀ read, d.field x.number = some read → read.wire = x.payload.wire
  rest : d.PassesOver ⟨buf, (message xs).length⟩

/-- What a read of the expected wire type makes of a payload. -/
def FieldRead.apply (read : FieldRead α) (p : Payload) (a : α) : α :=
  match read, p with
  | .varint set, .varint v => set v.value a
  | .string set, .lengthDelimited _ bs _ => set ((String.fromUTF8? ⟨bs.toArray⟩).getD "") a
  | .bytes set, .lengthDelimited _ bs _ => set bs a
  | .message push, .lengthDelimited _ bs _ => push bs a
  | _, _ => a

theorem FieldRead.run_of_remaining {read : FieldRead α} {p : Payload} (hwire : read.wire = p.wire)
    {r : ProtoReader} (hbuf : r.buf.length ≤ ISIZE_MAX) {tail : Bytes}
    (h : r.remaining = p.encoded ++ tail) (a : α) :
    read.run a r = (read.apply p a, r.moved p.encoded.length) := by
  cases p with
  | varint v =>
    cases read with
    | varint set => simp [run, apply, r.varint_of_remaining v h, Payload.encoded, Except.toOption]
    | string set => exact absurd hwire (by simp [wire, Payload.wire])
    | bytes set => exact absurd hwire (by simp [wire, Payload.wire])
    | message push => exact absurd hwire (by simp [wire, Payload.wire])
  | fixed64 bs hbs => cases read <;> exact absurd hwire (by simp [wire, Payload.wire])
  | lengthDelimited len bs hlen =>
    have hbytes := ProtoReader.bytes_of_remaining hbuf len hlen h
    cases read with
    | varint set => exact absurd hwire (by simp [wire, Payload.wire])
    | string set =>
      have hstring : (r.string).1.toOption.getD "" = (String.fromUTF8? ⟨bs.toArray⟩).getD "" ∧
          (r.string).2 = r.moved (len.bytes.length + bs.length) := by
        rw [ProtoReader.string, hbytes]
        cases hs : String.fromUTF8? ⟨bs.toArray⟩ with
        | none => simp [hs, Except.toOption]
        | some text => simp [hs, Except.toOption]
      simp [run, apply, hstring, Payload.encoded]
    | bytes set => simp [run, apply, hbytes, Payload.encoded, Except.toOption]
    | message push => simp [run, apply, hbytes, Payload.encoded]
  | fixed32 bs hbs => cases read <;> exact absurd hwire (by simp [wire, Payload.wire])

namespace Decoder

variable (d : Decoder α)

/-- What a field of the expected type makes of the result. -/
def apply (a : α) (x : WireField) : α :=
  match d.field x.number with
  | some read => read.apply x.payload a
  | none => a

theorem scan_of_not_hasMore {r : ProtoReader} (h : r.hasMore = false) (n : ℕ) (a : α) : d.scan n a r = a := by
  cases n with
  | zero => rfl
  | succ n => simp [scan, h]

theorem hasMore_of_remaining {r : ProtoReader} {bs tail : Bytes} (h : r.remaining = bs ++ tail)
    (hbs : bs ≠ []) : r.hasMore = true := by
  have hle := ProtoReader.pos_add_le h hbs
  have hpos := List.length_pos_of_ne_nil hbs
  simp only [ProtoReader.hasMore, decide_eq_true_eq]
  omega

theorem scan_field {x : WireField}
    (htyped : ∀ read, d.field x.number = some read → read.wire = x.payload.wire) {r : ProtoReader}
    (hbuf : r.buf.length ≤ ISIZE_MAX) {tail : Bytes} (h : r.remaining = x.encoded ++ tail) (n : ℕ) (a : α) :
    d.scan (n + 1) a r = d.scan n (d.apply a x) (r.moved x.encoded.length) := by
  rw [WireField.encoded, List.append_assoc] at h
  have hmore := hasMore_of_remaining h x.tag.terminated.ne_nil
  have htag := ProtoReader.tag_of_remaining x.tag h
  have hpayload := ProtoReader.remaining_of_append h
  have hmoved : (r.moved x.tag.bytes.length).moved x.payload.encoded.length = r.moved x.encoded.length := by
    rw [ProtoReader.moved_moved, WireField.encoded, List.length_append]
  rw [scan, if_pos hmore, htag]
  simp only
  change (match d.field x.number with | some read => _ | none => _) = _
  cases hfield : d.field x.number with
  | none =>
    have hskip := ProtoReader.skip_of_remaining (r := r.moved x.tag.bytes.length) hbuf x.payload hpayload
    simp only [x.wire, hskip, hmoved, apply, hfield]
  | some read =>
    have hrun := FieldRead.run_of_remaining (htyped read hfield) (r := r.moved x.tag.bytes.length) hbuf
      hpayload a
    simp only [hrun, hmoved, apply, hfield]

end Decoder

/-! ### What was read is well formed -/

theorem exists_varint {r r' : ProtoReader} {v : UInt64} (h : r.varint = (.ok v, r')) :
    ∃ (x : Varint) (tail : Bytes), r.remaining = x.bytes ++ tail ∧ x.value = v ∧ r' = r.moved x.bytes.length := by
  have hloop := (Prod.mk.inj h).1
  obtain ⟨front, tail, hsplit, hterminated, hshort, -⟩ := split_of_varintLoop (k := 0) (by decide)
    (Prod.ext hloop rfl)
  let x : Varint := ⟨front, hterminated, hshort⟩
  have hx := ProtoReader.varint_of_remaining x hsplit
  rw [h] at hx
  obtain ⟨hv, hr⟩ := Prod.mk.inj hx
  exact ⟨x, tail, hsplit, (Except.ok.inj hv).symm, hr⟩

theorem split_of_advance {r r' : ProtoReader} {n : ℕ} (h : r.advance n = (.ok (), r')) :
    ∃ bs tail, bs.length = n ∧ r.remaining = bs ++ tail := by
  have hle : r.pos + n ≤ r.buf.length := by
    unfold ProtoReader.advance ProtoReader.endOf at h
    split at h
    · rename_i stop hstop
      split at hstop
      · cases hstop
      · split at hstop
        · cases hstop
        · omega
    · cases h
  refine ⟨r.remaining.take n, r.remaining.drop n, ?_, (List.take_append_drop n _).symm⟩
  rw [List.length_take, ProtoReader.remaining, List.length_drop]
  omega

theorem exists_payload_of_skip {r r' : ProtoReader} {w : UInt32} (h : r.skip w = (.ok (), r')) :
    ∃ (p : Payload) (tail : Bytes), p.wire = w ∧ r.remaining = p.encoded ++ tail := by
  unfold ProtoReader.skip at h
  split at h
  · rename_i hw
    split at h
    · rename_i v r₁ hv
      obtain ⟨x, tail, hsplit, -, -⟩ := exists_varint hv
      exact ⟨.varint x, tail, hw.symm, hsplit⟩
    · cases h
  · split at h
    · rename_i hw
      obtain ⟨bs, tail, hbs, hsplit⟩ := split_of_advance h
      exact ⟨.fixed64 bs hbs, tail, hw.symm, hsplit⟩
    · split at h
      · rename_i hw
        split at h
        · rename_i n r₁ hn
          obtain ⟨len, tail, hsplit, hlen, rfl⟩ := exists_varint hn
          obtain ⟨bs, tail', hbs, hrest⟩ := split_of_advance h
          rw [ProtoReader.remaining_of_append hsplit] at hrest
          refine ⟨.lengthDelimited len bs (by rw [hlen, hbs]), tail', hw.symm, ?_⟩
          rw [hsplit, hrest, Payload.encoded, List.append_assoc]
        · cases h
      · split at h
        · rename_i hw
          obtain ⟨bs, tail, hbs, hsplit⟩ := split_of_advance h
          exact ⟨.fixed32 bs hbs, tail, hw.symm, hsplit⟩
        · cases h

/-! ### The loop over a message -/

theorem WireField.encoded_ne_nil (x : WireField) : x.encoded ≠ [] :=
  List.append_ne_nil_of_left_ne_nil x.tag.terminated.ne_nil _

theorem length_le_message (xs : List WireField) : xs.length ≤ (message xs).length := by
  induction xs with
  | nil => exact Nat.le_refl 0
  | cons x xs ih =>
    have hx := List.length_pos_of_ne_nil x.encoded_ne_nil
    simp only [message, List.flatMap_cons, List.length_append, List.length_cons] at ih ⊢
    omega

namespace Decoder

variable {d : Decoder α}

theorem scan_message {xs : List WireField}
    (htyped : ∀ x ∈ xs, ∀ read, d.field x.number = some read → read.wire = x.payload.wire)
    {r : ProtoReader} (hbuf : r.buf.length ≤ ISIZE_MAX) {tail : Bytes} (h : r.remaining = message xs ++ tail)
    (n : ℕ) (a : α) :
    d.scan (n + xs.length) a r = d.scan n (xs.foldl d.apply a) (r.moved (message xs).length) := by
  induction xs generalizing r a with
  | nil => rfl
  | cons x xs ih =>
    rw [message, List.flatMap_cons, List.append_assoc] at h
    have hfield := d.scan_field (htyped x List.mem_cons_self) hbuf h (n + xs.length) a
    have hrest := ih (fun y hy => htyped y (List.mem_cons_of_mem x hy)) (r := r.moved x.encoded.length) hbuf
      (ProtoReader.remaining_of_append h) (d.apply a x)
    rw [List.length_cons, ← Nat.add_assoc, hfield, hrest, ProtoReader.moved_moved, List.foldl_cons, message,
      message, List.flatMap_cons, List.length_append]

theorem run_message {xs : List WireField}
    (htyped : ∀ x ∈ xs, ∀ read, d.field x.number = some read → read.wire = x.payload.wire)
    (hfits : (message xs).length ≤ ISIZE_MAX) : d.run (message xs) = xs.foldl d.apply d.init := by
  have hlen := length_le_message xs
  have hahead : (ProtoReader.new (message xs)).remaining = message xs ++ [] := (List.append_nil _).symm
  have hscan := scan_message htyped (r := ProtoReader.new (message xs)) hfits hahead
    ((message xs).length - xs.length) d.init
  rw [Nat.sub_add_cancel hlen] at hscan
  rw [run, hscan]
  exact d.scan_of_not_hasMore (by simp [ProtoReader.hasMore, ProtoReader.new]) _ _

theorem foldl_filter_knows {xs : List WireField}
    (htyped : ∀ x ∈ xs, ∀ read, d.field x.number = some read → read.wire = x.payload.wire) (a : α) :
    (xs.filter d.knows).foldl d.apply a = xs.foldl d.apply a := by
  induction xs generalizing a with
  | nil => rfl
  | cons x xs ih =>
    have hrest := ih fun y hy => htyped y (List.mem_cons_of_mem x hy)
    rw [List.filter_cons]
    cases hfield : d.field x.number with
    | none =>
      have hid : d.apply a x = a := by
        simp only [apply, hfield]
      have hunknown : ¬ d.knows x = true := by
        simp [knows, hfield]
      rw [if_neg hunknown, hrest, List.foldl_cons, hid]
    | some read =>
      have hknown : d.knows x = true := by
        simp [knows, hfield, htyped x List.mem_cons_self read hfield]
      rw [if_pos hknown, List.foldl_cons, List.foldl_cons, hrest]

theorem scan_of_passesOver {r : ProtoReader} (h : d.PassesOver r) (n : ℕ) (a : α) : d.scan n a r = a := by
  induction h generalizing n with
  | done hend => exact d.scan_of_not_hasMore hend n a
  | noTag htag =>
    cases n with
    | zero => rfl
    | succ n => simp [scan, htag]
  | skipped htag hunknown hskip _ ih =>
    cases n with
    | zero => rfl
    | succ n => simp [scan, htag, hunknown, hskip, ih n]
  | broken htag hunknown hskip hbreaks =>
    cases n with
    | zero => rfl
    | succ n => simp [scan, htag, hunknown, hskip, hbreaks]
  | goneOn htag hunknown hskip _ ih =>
    cases n with
    | zero => rfl
    | succ n => simp [scan, htag, hunknown, hskip, ih n]
  | cutOff htag hknown hbytes _ ih =>
    cases n with
    | zero => rfl
    | succ n => simp [scan, htag, hknown, FieldRead.run, hbytes, ih n]

end Decoder

/-! ### The rounds do not run out -/

/-- The same buffer, further on or where it was. -/
def ProtoReader.Forward (r r' : ProtoReader) : Prop := r'.buf = r.buf ∧ r.pos ≤ r'.pos

theorem ProtoReader.Forward.trans {r r' r'' : ProtoReader} (h : r.Forward r') (h' : r'.Forward r'') :
    r.Forward r'' :=
  ⟨h'.1.trans h.1, Nat.le_trans h.2 h'.2⟩

namespace ProtoReader

theorem forward_varint (r : ProtoReader) : r.Forward r.varint.2 := ⟨rfl, Nat.le_add_right _ _⟩

theorem pos_lt_of_tag {r r' : ProtoReader} {fw : UInt32 × UInt32} (hmore : r.hasMore = true)
    (h : r.tag = (.ok fw, r')) : r'.buf = r.buf ∧ r.pos < r'.pos := by
  have hlt : r.pos < r.buf.length := of_decide_eq_true hmore
  have hvarint : r.pos < r.varint.2.pos := by
    change r.pos < r.pos + (varintLoop (r.buf.drop r.pos) 0 0).2
    rw [List.drop_eq_getElem_cons hlt, varintLoop]
    simp only
    split
    · exact Nat.lt_add_one _
    · split <;> simp only <;> omega
  have hforward := r.forward_varint
  rw [tag] at h
  split at h
  · rename_i v r₁ hv
    rw [hv] at hvarint hforward
    obtain rfl := (Prod.mk.inj h).2
    exact ⟨hforward.1, hvarint⟩
  · cases h

theorem forward_advance (r : ProtoReader) (n : ℕ) : r.Forward (r.advance n).2 := by
  unfold advance endOf
  split
  · rename_i stop hstop
    split at hstop
    · cases hstop
    · split at hstop
      · cases hstop
      · obtain rfl := Except.ok.inj hstop
        exact ⟨rfl, Nat.le_add_right _ _⟩
  · exact ⟨rfl, Nat.le_refl _⟩

/-- What `varint` and `advance` keep is kept by all reads. -/
structure Kept (P : ProtoReader → Prop) : Prop where
  varint : ∀ r, P r → P r.varint.2
  advance : ∀ r n, P r → P (r.advance n).2

namespace Kept

variable {P : ProtoReader → Prop} {r : ProtoReader}

theorem bytes (hP : Kept P) (h : P r) : P r.bytes.2 := by
  have hvarint := hP.varint r h
  unfold ProtoReader.bytes
  split
  · rename_i len r₁ hlen
    rw [hlen] at hvarint
    have hadvance := hP.advance r₁ len.toNat hvarint
    rw [ProtoReader.advance] at hadvance
    split <;> (rename_i hstop; rw [hstop] at hadvance; exact hadvance)
  · rename_i e r₁ hlen
    rw [hlen] at hvarint
    exact hvarint

theorem string (hP : Kept P) (h : P r) : P r.string.2 := by
  have hbytes := hP.bytes h
  unfold ProtoReader.string
  split
  · rename_i b r₁ hb
    rw [hb] at hbytes
    split <;> exact hbytes
  · rename_i e r₁ hb
    rw [hb] at hbytes
    exact hbytes

theorem skip (hP : Kept P) (h : P r) (w : UInt32) : P (r.skip w).2 := by
  have hvarint := hP.varint r h
  unfold ProtoReader.skip
  split
  · split <;> simp only [*] at hvarint <;> exact hvarint
  · split
    · exact hP.advance r 8 h
    · split
      · split
        · rename_i n r₁ hn
          rw [hn] at hvarint
          exact hP.advance r₁ n.toNat hvarint
        · rename_i e r₁ hn
          rw [hn] at hvarint
          exact hvarint
      · split
        · exact hP.advance r 4 h
        · exact h

theorem run (hP : Kept P) (h : P r) (read : FieldRead α) (a : α) : P (read.run a r).2 := by
  cases read with
  | varint set => exact hP.varint r h
  | string set => exact hP.string h
  | bytes set => exact hP.bytes h
  | message push =>
    have hbytes := hP.bytes h
    unfold FieldRead.run
    simp only
    split <;> simp only [*] at hbytes <;> exact hbytes

end Kept

theorem forward_kept (r : ProtoReader) : Kept r.Forward :=
  ⟨fun r₁ h => h.trans r₁.forward_varint, fun r₁ n h => h.trans (r₁.forward_advance n)⟩

theorem Forward.rfl {r : ProtoReader} : r.Forward r := ⟨Eq.refl _, Nat.le_refl _⟩

theorem forward_skip (r : ProtoReader) (w : UInt32) : r.Forward (r.skip w).2 := r.forward_kept.skip .rfl w

end ProtoReader

theorem FieldRead.forward_run (read : FieldRead α) (a : α) (r : ProtoReader) :
    r.Forward (read.run a r).2 := r.forward_kept.run .rfl read a

/-- Once there are as many rounds as bytes ahead, more of them change nothing. -/
theorem Decoder.scan_succ (d : Decoder α) (n : ℕ) (a : α) (r : ProtoReader)
    (h : r.buf.length ≤ r.pos + n) : d.scan (n + 1) a r = d.scan n a r := by
  induction n generalizing a r with
  | zero => exact d.scan_of_not_hasMore (decide_eq_false (by omega)) 1 a
  | succ n ih =>
    rw [scan, scan]
    split
    · rename_i hmore
      split
      · rfl
      · rename_i f w r₁ htag
        obtain ⟨hbuf, hpos⟩ := ProtoReader.pos_lt_of_tag hmore htag
        have hahead {r₂ : ProtoReader} (hforward : r₁.Forward r₂) : r₂.buf.length ≤ r₂.pos + n := by
          have hle := hforward.2
          rw [hforward.1, hbuf]
          omega
        split
        · rename_i read _
          exact ih (read.run a r₁).1 (read.run a r₁).2 (hahead (read.forward_run a r₁))
        · have hskip := r₁.forward_skip w
          split
          · rename_i r₂ hr₂
            rw [hr₂] at hskip
            exact ih a r₂ (hahead hskip)
          · rename_i r₂ hr₂
            rw [hr₂] at hskip
            split
            · rfl
            · exact ih a r₂ (hahead hskip)
    · rfl

theorem wrappedLoop_succ (n : ℕ) (r : ProtoReader) (h : r.buf.length ≤ r.pos + n) :
    wrappedLoop (n + 1) r = wrappedLoop n r := by
  induction n generalizing r with
  | zero =>
    have hend : r.hasMore = false := decide_eq_false (by omega)
    simp [wrappedLoop, hend]
  | succ n ih =>
    rw [wrappedLoop, wrappedLoop]
    split
    · rename_i hmore
      split
      · rfl
      · rename_i f w r₁ htag
        obtain ⟨hbuf, hpos⟩ := ProtoReader.pos_lt_of_tag hmore htag
        have hskip := r₁.forward_skip w
        split
        · rfl
        · split
          · rename_i r₂ hr₂
            rw [hr₂] at hskip
            have hle := hskip.2
            exact ih r₂ (by rw [hskip.1, hbuf]; simp only at hle; omega)
          · rfl
    · rfl

theorem Decoder.scan_eq_run (d : Decoder α) (buf : Bytes) (k : ℕ) :
    d.scan (buf.length + k) d.init (ProtoReader.new buf) = d.run buf := by
  induction k with
  | zero => rfl
  | succ k ih =>
    rw [← Nat.add_assoc, d.scan_succ _ _ _ (by simp [ProtoReader.new]), ih]

/-! ## The five decoders -/

theorem Decoder.run_ignores (d : Decoder α) {buf : Bytes} {xs : List WireField}
    (hbuf : buf.length ≤ ISIZE_MAX) (hlongest : LongestPrefix buf xs) (h : d.Tolerates buf xs) :
    IgnoresJunk d d.run buf xs := by
  have hle := hlongest.1.length_le
  have hfilter : (message (xs.filter d.knows)).length ≤ (message xs).length :=
    (List.filter_sublist.flatMap WireField.encoded).length_le
  have hmessage := run_message h.typed (by omega)
  constructor
  · obtain ⟨rest, hsplit⟩ := hlongest.1
    have hcount := length_le_message xs
    have hscan := scan_message h.typed (r := ProtoReader.new buf) hbuf hsplit.symm (buf.length - xs.length)
      d.init
    rw [Nat.sub_add_cancel (by omega)] at hscan
    have hat : (ProtoReader.new buf).moved (message xs).length = ⟨buf, (message xs).length⟩ := by
      simp [ProtoReader.new, ProtoReader.moved]
    rw [run, hscan, hat, scan_of_passesOver h.rest, hmessage]
  · have hknown : ∀ x ∈ xs.filter d.knows, ∀ read, d.field x.number = some read →
        read.wire = x.payload.wire := fun x hx => h.typed x (List.mem_of_mem_filter hx)
    rw [hmessage, run_message hknown (by omega), foldl_filter_knows h.typed]

/-- A decoder takes just the fields it knows, and nothing from behind the well-formed part, when no known
number comes with an unexpected wire type and the remainder is one that it passes over. -/
theorem decoders_ignore_junk {buf : Bytes} {xs : List WireField} (hbuf : buf.length ≤ ISIZE_MAX)
    (hlongest : LongestPrefix buf xs) :
    (callEntity.Tolerates buf xs → IgnoresJunk callEntity parseCallEntity buf xs) ∧
      (contactPeers.Tolerates buf xs → IgnoresJunk contactPeers decodeGetContactsResponse buf xs) ∧
      (usersResponse.Tolerates buf xs → IgnoresJunk usersResponse decodeUsersResponse buf xs) ∧
      (userEntity.Tolerates buf xs → IgnoresJunk userEntity decodeUserEntity buf xs) ∧
      (userPeerRef.Tolerates buf xs → IgnoresJunk userPeerRef decodeUserPeerRef buf xs) := by
  refine ⟨?_, ?_, ?_, ?_, ?_⟩
  · exact callEntity.run_ignores hbuf hlongest
  · exact contactPeers.run_ignores hbuf hlongest
  · exact usersResponse.run_ignores hbuf hlongest
  · exact userEntity.run_ignores hbuf hlongest
  · exact userPeerRef.run_ignores hbuf hlongest

theorem longestPrefix_message (xs : List WireField) : LongestPrefix (message xs) xs :=
  ⟨List.prefix_rfl, fun _ h => h.length_le⟩

def oneByte (b : UInt8) (h : b.toNat < 128) : Varint := ⟨[b], terminated_singleton h, by simp⟩

/-- Field 3, which a peer reference does not have, and field 1. -/
def unknownThenUid : List WireField :=
  [⟨oneByte 0x1D (by decide), .fixed32 [1, 2, 3, 4] rfl, by decide, by decide, by decide⟩,
    ⟨oneByte 0x08 (by decide), .varint (oneByte 7 (by decide)), by decide, by decide, by decide⟩]

theorem longestPrefix_nil {buf : Bytes} (hbuf : buf.length ≤ ISIZE_MAX) {v : UInt64} {r r' : ProtoReader}
    {e : ProtoError} (htag : (ProtoReader.new buf).varint = (.ok v, r))
    (hskip : r.skip (v &&& 7).toUInt32 = (.error e, r')) : LongestPrefix buf [] := by
  refine ⟨List.nil_prefix, fun ys hys => ?_⟩
  cases ys with
  | nil => exact Nat.le_refl _
  | cons y ys =>
    obtain ⟨tail, rfl⟩ := hys
    have hahead : (ProtoReader.new (message (y :: ys) ++ tail)).remaining =
        y.tag.bytes ++ (y.payload.encoded ++ (message ys ++ tail)) := by
      simp [ProtoReader.new, ProtoReader.remaining, message, WireField.encoded]
    rw [ProtoReader.varint_of_remaining y.tag hahead] at htag
    obtain ⟨hv, rfl⟩ := Prod.mk.inj htag
    obtain rfl := Except.ok.inj hv
    rw [y.wire, ProtoReader.skip_of_remaining hbuf y.payload (ProtoReader.remaining_of_append hahead)] at hskip
    exact absurd (Prod.mk.inj hskip).1 (by simp)

theorem decoders_ignore_junk_unknown :
    decodeUserPeerRef (message unknownThenUid) = decodeUserPeerRef [0x08, 7] ∧
      decodeUsersResponse [0x0A, 0x05] = decodeUsersResponse [] :=
  ⟨((decoders_ignore_junk (by decide) (longestPrefix_message unknownThenUid)).2.2.2.2
      ⟨by decide, .done (by decide)⟩).2,
    ((decoders_ignore_junk (by decide) (longestPrefix_nil (by decide) rfl rfl)).2.2.1
      ⟨by simp, .cutOff rfl rfl rfl (.done rfl)⟩).1⟩

/-- Field 1 of a peer reference as a message of one byte. -/
def uidAsMessage : List WireField :=
  [⟨oneByte 0x0A (by decide), .lengthDelimited (oneByte 1 (by decide)) [5] rfl, by decide, by decide,
    by decide⟩]

/-- The length of the message is taken for the uid. -/
theorem not_decoders_ignore_junk : ¬ ∀ (buf : Bytes) (xs : List WireField), buf.length ≤ ISIZE_MAX →
    LongestPrefix buf xs → IgnoresJunk callEntity parseCallEntity buf xs ∧
      IgnoresJunk contactPeers decodeGetContactsResponse buf xs ∧
      IgnoresJunk usersResponse decodeUsersResponse buf xs ∧
      IgnoresJunk userEntity decodeUserEntity buf xs ∧
      IgnoresJunk userPeerRef decodeUserPeerRef buf xs := by
  intro h
  have hjunk := (h _ uidAsMessage (by decide) (longestPrefix_message uidAsMessage)).2.2.2.2.2
  exact absurd hjunk (by decide)

end BaleVpn.Signaling
