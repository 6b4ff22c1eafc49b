import Mathlib.Data.List.Induction
import BaleVpn.Signaling.Decoders

/-!
# What the decoders make of what the writer wrote

A decoder that is given the fields it knows in the type it expects makes of them what its table says, in
the order they were written, and passes over the others. The decoders of frames and of sign-in replies put a
`?` behind each read, the others a default; on what was written there is no difference.
-/

namespace BaleVpn.Signaling

open Lib Base128 Net

variable {α : Type}

/-! ## Decoders that give up -/

/-- The read with a `?` behind it. -/
def FieldRead.strict (read : FieldRead α) (a : α) (r : ProtoReader) : Except ProtoError α × ProtoReader :=
  match read with
  | .varint set => (r.varint.1.map (set · a), r.varint.2)
  | .string set => (r.string.1.map (set · a), r.string.2)
  | .bytes set | .message set => (r.bytes.1.map (set · a), r.bytes.2)

structure StrictDecoder (α : Type) where
  init : α
  /-- The arm of the `match` on the field number, if it is not the last one. -/
  field : UInt32 → Option (FieldRead α)

/-- The loop, for at most so many rounds. -/
def StrictDecoder.scan (d : StrictDecoder α) : ℕ → α → ProtoReader → Except ProtoError α
  | 0, a, _ => .ok a
  | n + 1, a, r =>
    if r.hasMore then
      match r.tag with
      | (.error e, _) => .error e
      | (.ok (f, w), r) =>
        match d.field f with
        | some read =>
          match read.strict a r with
          | (.ok a, r) => scan d n a r
          | (.error e, _) => .error e
        | none =>
          match r.skip w with
          | (.ok _, r) => scan d n a r
          | (.error e, _) => .error e
    else .ok a

def StrictDecoder.run (d : StrictDecoder α) (buf : Bytes) : Except ProtoError α :=
  d.scan buf.length d.init (ProtoReader.new buf)

/-! ## What a table makes of fields -/

namespace FieldRead

def kind : FieldRead α → ReadKind
  | .varint _ => .varint
  | .string _ => .string
  | .bytes _ | .message _ => .bytes

def take (read : FieldRead α) (v : ReadValue) (a : α) : α :=
  match read, v with
  | .varint set, .varint v => set v a
  | .string set, .string s => set s a
  | .bytes set, .bytes b => set b a
  | .message push, .bytes b => push b a
  | _, _ => a

theorem image_kind (v : FieldValue) {read : FieldRead α} (h : read.kind = v.kind) {r r' : ProtoReader}
    (hread : r.read v.kind = (.ok v.image, r')) (a : α) :
    read.run a r = (read.take v.image a, r') ∧ read.strict a r = (.ok (read.take v.image a), r') := by
  rw [← h] at hread
  obtain ⟨hvalue, hnext⟩ := Prod.mk.inj (show (_, _) = _ from hread)
  cases read with
  | varint set =>
    rcases hv : r.varint with ⟨e | x, next⟩
    · simp [kind, ProtoReader.read, hv, Except.map] at hread
    · simp only [kind, ProtoReader.read, hv, Except.map, Prod.mk.injEq, Except.ok.injEq] at hread
      obtain ⟨hx, rfl⟩ := hread
      simp [run, strict, hv, ← hx, take, Except.map, Except.toOption]
  | string set =>
    rcases hv : r.string with ⟨e | x, next⟩
    · simp [kind, ProtoReader.read, hv, Except.map] at hread
    · simp only [kind, ProtoReader.read, hv, Except.map, Prod.mk.injEq, Except.ok.injEq] at hread
      obtain ⟨hx, rfl⟩ := hread
      simp [run, strict, hv, ← hx, take, Except.map, Except.toOption]
  | bytes set =>
    rcases hv : r.bytes with ⟨e | x, next⟩
    · simp [kind, ProtoReader.read, hv, Except.map] at hread
    · simp only [kind, ProtoReader.read, hv, Except.map, Prod.mk.injEq, Except.ok.injEq] at hread
      obtain ⟨hx, rfl⟩ := hread
      simp [run, strict, hv, ← hx, take, Except.map, Except.toOption]
  | message push =>
    rcases hv : r.bytes with ⟨e | x, next⟩
    · simp [kind, ProtoReader.read, hv, Except.map] at hread
    · simp only [kind, ProtoReader.read, hv, Except.map, Prod.mk.injEq, Except.ok.injEq] at hread
      obtain ⟨hx, rfl⟩ := hread
      simp [run, strict, hv, ← hx, take, Except.map]

end FieldRead

/-- The fields a table knows have the type it expects. -/
def Typed (field : UInt32 → Option (FieldRead α)) (fields : List (UInt32 × FieldValue)) : Prop :=
  ∀ x ∈ fields, ∀ read, field x.1 = some read → read.kind = x.2.kind

/-- What a table makes of one field. -/
def takeField (field : UInt32 → Option (FieldRead α)) (a : α) (x : UInt32 × FieldValue) : α :=
  match field x.1 with
  | some read => read.take x.2.image a
  | none => a

theorem length_written_lt (front after : List (UInt32 × FieldValue)) (x : UInt32 × FieldValue) :
    (written front).length < (written (front ++ x :: after)).length := by
  have hpos : 0 < (fieldBytes x.1 x.2).length := by
    have hvarint := List.length_pos_of_ne_nil (varintBytes_spec (tagOf x.1 x.2.wire)).1.ne_nil
    rcases x with ⟨f, v | v | v | v | v⟩ <;>
    · simp only [fieldBytes, ProtoWriter.field, ProtoWriter.int32, ProtoWriter.int64, ProtoWriter.bool,
        ProtoWriter.string, ProtoWriter.bytes, ProtoWriter.tag, ProtoWriter.varint, List.length_append]
      simp only [tagOf, FieldValue.wire] at hvarint
      omega
  simp only [written_eq, List.flatMap_append, List.flatMap_cons, List.length_append]
  omega

theorem hasMore_written (front after : List (UInt32 × FieldValue)) (x : UInt32 × FieldValue) :
    (ProtoReader.mk (written (front ++ x :: after)) (written front).length).hasMore = true := by
  simpa [ProtoReader.hasMore] using length_written_lt front after x

theorem length_le_written (fields : List (UInt32 × FieldValue)) : fields.length ≤ (written fields).length := by
  induction fields using List.reverseRecOn with
  | nil => exact Nat.zero_le _
  | append_singleton fields x ih =>
    have hlt := length_written_lt fields [] x
    rw [List.length_append, List.length_singleton]
    omega

theorem length_le_bytes_field (front after : List (UInt32 × FieldValue)) (f : UInt32) (b : Bytes) :
    b.length ≤ (written (front ++ (f, .bytes b) :: after)).length := by
  simp only [written_eq, List.flatMap_append, List.flatMap_cons, List.length_append, fieldBytes,
    ProtoWriter.field, ProtoWriter.bytes]
  omega

theorem Decoder.scan_written (d : Decoder α) {fields : List (UInt32 × FieldValue)} :
    ∀ {front : List (UInt32 × FieldValue)}, Typed d.field fields →
      (written (front ++ fields)).length ≤ ISIZE_MAX → ∀ {n : ℕ}, fields.length ≤ n → ∀ a,
        d.scan n a ⟨written (front ++ fields), (written front).length⟩ =
          fields.foldl (takeField d.field) a := by
  induction fields with
  | nil =>
    intro front _ _ n _ a
    rw [List.append_nil]
    exact d.scan_of_not_hasMore (by simp [ProtoReader.hasMore]) n a
  | cons x fields ih =>
    intro front htyped hfits n hn a
    obtain ⟨f, v⟩ := x
    obtain ⟨n, rfl⟩ : ∃ k, n = k + 1 := ⟨n - 1, by simp only [List.length_cons] at hn; omega⟩
    obtain ⟨tagged, next, htag, hread, hskip, rfl⟩ := read_field hfits
    have hrest := @ih (front ++ [(f, v)]) (fun y hy => htyped y (List.mem_cons_of_mem _ hy))
      (by rwa [List.append_assoc]) n (by simpa using hn)
    rw [List.append_assoc, List.singleton_append] at hrest
    rw [Decoder.scan, if_pos (hasMore_written front fields (f, v)), htag, List.foldl_cons, takeField]
    simp only
    cases hfield : d.field f with
    | none => simp only [hskip, hrest]
    | some read =>
      have hkind := htyped (f, v) List.mem_cons_self read hfield
      simp only [(FieldRead.image_kind v hkind hread a).1, hrest]

theorem StrictDecoder.scan_written (d : StrictDecoder α) {fields : List (UInt32 × FieldValue)} :
    ∀ {front : List (UInt32 × FieldValue)}, Typed d.field fields →
      (written (front ++ fields)).length ≤ ISIZE_MAX → ∀ {n : ℕ}, fields.length ≤ n → ∀ a,
        d.scan n a ⟨written (front ++ fields), (written front).length⟩ =
          .ok (fields.foldl (takeField d.field) a) := by
  induction fields with
  | nil =>
    intro front _ _ n _ a
    rw [List.append_nil]
    cases n <;> simp [StrictDecoder.scan, ProtoReader.hasMore]
  | cons x fields ih =>
    intro front htyped hfits n hn a
    obtain ⟨f, v⟩ := x
    obtain ⟨n, rfl⟩ : ∃ k, n = k + 1 := ⟨n - 1, by simp only [List.length_cons] at hn; omega⟩
    obtain ⟨tagged, next, htag, hread, hskip, rfl⟩ := read_field hfits
    have hrest := @ih (front ++ [(f, v)]) (fun y hy => htyped y (List.mem_cons_of_mem _ hy))
      (by rwa [List.append_assoc]) n (by simpa using hn)
    rw [List.append_assoc, List.singleton_append] at hrest
    rw [StrictDecoder.scan, if_pos (hasMore_written front fields (f, v)), htag, List.foldl_cons, takeField]
    simp only
    cases hfield : d.field f with
    | none => simp only [hskip, hrest]
    | some read =>
      have hkind := htyped (f, v) List.mem_cons_self read hfield
      simp only [(FieldRead.image_kind v hkind hread a).2, hrest]

theorem Decoder.run_written (d : Decoder α) {fields : List (UInt32 × FieldValue)}
    (htyped : Typed d.field fields) (hfits : (written fields).length ≤ ISIZE_MAX) :
    d.run (written fields) = fields.foldl (takeField d.field) d.init :=
  @scan_written _ d fields [] htyped hfits _ (length_le_written fields) d.init

theorem StrictDecoder.run_written (d : StrictDecoder α) {fields : List (UInt32 × FieldValue)}
    (htyped : Typed d.field fields) (hfits : (written fields).length ≤ ISIZE_MAX) :
    d.run (written fields) = .ok (fields.foldl (takeField d.field) d.init) :=
  @scan_written _ d fields [] htyped hfits _ (length_le_written fields) d.init

theorem bytes_of_read {r r' : ProtoReader} {b : Bytes} (h : r.read .bytes = (.ok (.bytes b), r')) :
    r.bytes = (.ok b, r') := by
  obtain ⟨hvalue, hnext⟩ := Prod.mk.inj (show (r.bytes.1.map ReadValue.bytes, r.bytes.2) = _ from h)
  rcases hb : r.bytes with ⟨e | x, next⟩
  · simp [hb, Except.map] at hvalue
  · rw [hb] at hvalue hnext
    simp only [Except.map, Except.ok.injEq, ReadValue.bytes.injEq] at hvalue
    rw [hvalue, ← hnext]

theorem string_of_read {r r' : ProtoReader} {s : String} (h : r.read .string = (.ok (.string s), r')) :
    r.string = (.ok s, r') := by
  obtain ⟨hvalue, hnext⟩ := Prod.mk.inj (show (r.string.1.map ReadValue.string, r.string.2) = _ from h)
  rcases hs : r.string with ⟨e | x, next⟩
  · simp [hs, Except.map] at hvalue
  · rw [hs] at hvalue hnext
    simp only [Except.map, Except.ok.injEq, ReadValue.string.injEq] at hvalue
    rw [hvalue, ← hnext]

theorem parseWrappedString_written (s : String) (hfits : (written [(1, .string s)]).length ≤ ISIZE_MAX) :
    parseWrappedString (written [(1, .string s)]) = s := by
  obtain ⟨tagged, next, htag, hread, -, -⟩ := @read_field [] [] 1 (.string s) hfits
  have hmore := hasMore_written [] [] (1, .string s)
  have hpos := length_written_lt [] [] (1, .string s)
  rw [List.nil_append] at htag hmore hpos
  obtain ⟨n, hn⟩ : ∃ n, (written [(1, .string s)]).length = n + 1 :=
    ⟨_, (Nat.succ_pred_eq_of_pos (Nat.lt_of_le_of_lt (Nat.zero_le _) hpos)).symm⟩
  have hstring : tagged.string.1 = .ok s := by
    have hvalue : tagged.string.1.map ReadValue.string = .ok (.string s) := congrArg Prod.fst hread
    rcases hv : tagged.string.1 with e | x
    · simp [hv, Except.map] at hvalue
    · simpa [hv, Except.map] using hvalue
  change (ProtoReader.new (written [(1, .string s)])).tag = _ at htag
  change (ProtoReader.new (written [(1, .string s)])).hasMore = true at hmore
  rw [parseWrappedString, hn, wrappedLoop, if_pos hmore, htag]
  simp [hstring, Except.toOption]

end BaleVpn.Signaling
