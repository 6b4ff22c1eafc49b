import BaleVpn.Lib.Text
import BaleVpn.Net.Checksum
import BaleVpn.Signaling.Proto

/-!
# gRPC-web responses (`grpc_web.rs`)

`decode_response` walks the frames of a body, keeps the last data frame and looks into each trailer for a
`grpc-status`. The walk ends where fewer than five bytes are left, whether or not there are any.
-/

namespace BaleVpn.Signaling

open Lib Net

/-- `GrpcError`, as far as `decode_response` makes it. -/
inductive GrpcError
  | status (code : ℤ) (message : Option String)
  | malformed (text : String)
  deriving DecidableEq, Repr

/-- What the lines of a trailer said so far. -/
structure Trailer where
  status : ℤ := 0
  message : Option String := none

def GRPC_STATUS : List Char := "grpc-status:".toList

def GRPC_MESSAGE : List Char := "grpc-message:".toList

namespace Trailer

def readLine (t : Trailer) (line : List Char) : Trailer :=
  match stripPrefix GRPC_STATUS line with
  | some rest => { t with status := (readI32 (trim rest)).getD 0 }
  | none =>
    match stripPrefix GRPC_MESSAGE line with
    | some rest => { t with message := some (String.ofList (trim rest)) }
    | none => t

def read (frame : Bytes) : Trailer := (lines (fromUtf8Lossy frame)).foldl readLine {}

end Trailer

/-- The frames from `pos` on, with the last data frame before it. -/
def decodeFrames (body : Bytes) (pos : ℕ) (data : Option Bytes) : Except GrpcError (Option Bytes) :=
  if pos + 5 ≤ body.length then
    let flag := body.getD pos 0
    let len := (be32 (body.drop (pos + 1))).toNat
    let start := pos + 5
    if start + len ≥ 2 ^ 64 then .error (.malformed s!"frame length {len} overflows position {start}")
    else if start + len > body.length then
      .error (.malformed s!"frame length {len} > remaining {body.length - start}")
    else
      let frame := (body.take (start + len)).drop start
      if flag &&& 0x80 = 0 then decodeFrames body (start + len) (some frame)
      else
        let t := Trailer.read frame
        if t.status ≠ 0 then .error (.status t.status t.message) else decodeFrames body (start + len) data
  else .ok data
termination_by body.length - pos

def decodeResponse (body : Bytes) : Except GrpcError Bytes :=
  match decodeFrames body 0 none with
  | .ok data => .ok (data.getD [])
  | .error e => .error e

/-! ## The format -/

structure Frame where
  flag : UInt8
  payload : Bytes
  fits : payload.length < 2 ^ 32

namespace Frame

def encoded (f : Frame) : Bytes := f.flag :: (putBe32 (UInt32.ofNat f.payload.length) ++ f.payload)

def IsTrailer (f : Frame) : Prop := f.flag &&& 0x80 ≠ 0

instance (f : Frame) : Decidable f.IsTrailer := inferInstanceAs (Decidable (_ ≠ _))

/-- What each `grpc-status` line of a trailer says: a number, or nothing that can be parsed. -/
def statuses (f : Frame) : List (Option ℤ) :=
  (lines (fromUtf8Lossy f.payload)).filterMap fun line =>
    (stripPrefix GRPC_STATUS line).map fun rest => readI32 (trim rest)

end Frame

def encodeFrames (fs : List Frame) : Bytes := fs.flatMap Frame.encoded

/-- The payload of the last data frame, or `data` where there is none. -/
def lastData (data : Option Bytes) (fs : List Frame) : Option Bytes :=
  fs.foldl (fun data f => if f.IsTrailer then data else some f.payload) data

/-- Complete frames, without a trailer that reports a failure, and `d` is in the last data frame. -/
def WellFormed (body d : Bytes) : Prop :=
  ∃ fs, body = encodeFrames fs ∧ (∀ f ∈ fs, f.IsTrailer → ∀ s ∈ f.statuses, s = some 0) ∧
    d = (lastData none fs).getD []

/-- The first `n` bytes of the frames end within one of them, in its header or its payload. -/
def EndsInside (fs : List Frame) (n : ℕ) : Prop :=
  ∃ before f behind, fs = before ++ f :: behind ∧ (encodeFrames before).length < n ∧
    n < (encodeFrames before).length + f.encoded.length

/-- A response is accepted just when it is well formed, and one that was cut within a frame is an error. -/
def DecodesExactly (body : Bytes) : Prop :=
  (∀ d, decodeResponse body = .ok d ↔ WellFormed body d) ∧
    ∀ fs n, body = (encodeFrames fs).take n → EndsInside fs n → ∃ e, decodeResponse body = .error e

/-- Complete frames and at most four bytes behind them, where in each trailer the last `grpc-status` is 0 or
cannot be parsed; and there is a byte behind them, or a `grpc-status` that is not 0. -/
def Lenient (body : Bytes) : Prop :=
  ∃ fs rest, body = encodeFrames fs ++ rest ∧ rest.length < 5 ∧
    (∀ f ∈ fs, f.IsTrailer → ∀ s ∈ f.statuses.getLast?, s = some 0 ∨ s = none) ∧
    (rest ≠ [] ∨ ∃ f ∈ fs, f.IsTrailer ∧ ∃ s ∈ f.statuses, s ≠ some 0)

/-! ## One frame -/

theorem be32_append (v : UInt32) (l : Bytes) : be32 (putBe32 v ++ l) = v := be32_putBe32 v

theorem putBe32_be32 (a b c d : UInt8) : putBe32 (be32 [a, b, c, d]) = [a, b, c, d] := by
  have hnum := be32_toNat a b c d
  have ha := a.toNat_lt
  have hb := b.toNat_lt
  have hc := c.toNat_lt
  have hd := d.toNat_lt
  unfold putBe32
  simp only [List.cons.injEq, ← UInt8.toNat_inj, UInt32.toNat_toUInt8, UInt32.toNat_shiftRight,
    Nat.shiftRight_eq_div_pow, UInt32.toNat_ofNat, Nat.reduceMod, Nat.reducePow, hnum, and_true]
  refine ⟨?_, ?_, ?_, ?_⟩ <;> omega

namespace Frame

theorem encoded_length (f : Frame) : f.encoded.length = 5 + f.payload.length := by
  rw [encoded, List.length_cons, List.length_append]
  show 4 + f.payload.length + 1 = _
  omega

theorem encoded_append_inj {f g : Frame} {x y : Bytes} (h : f.encoded ++ x = g.encoded ++ y) :
    f = g ∧ x = y := by
  obtain ⟨flag, payload, fits⟩ := f
  obtain ⟨flag', payload', fits'⟩ := g
  simp only [encoded, List.cons_append, List.append_assoc, List.cons.injEq] at h
  obtain ⟨rfl, hrest⟩ := h
  obtain ⟨hlen, hrest⟩ := List.append_inj hrest rfl
  have hlen : payload.length = payload'.length := by
    have hbe := congrArg (fun b => (be32 b).toNat) hlen
    simp only [be32_putBe32, UInt32.toNat_ofNat'] at hbe
    omega
  obtain ⟨rfl, rfl⟩ := List.append_inj hrest hlen
  exact ⟨rfl, rfl⟩

end Frame

theorem encodeFrames_cons (f : Frame) (fs : List Frame) : encodeFrames (f :: fs) = f.encoded ++ encodeFrames fs :=
  List.flatMap_cons

theorem encodeFrames_append (fs gs : List Frame) : encodeFrames (fs ++ gs) = encodeFrames fs ++ encodeFrames gs :=
  List.flatMap_append

theorem encodeFrames_inj {fs gs : List Frame} {x y : Bytes} (h : encodeFrames fs ++ x = encodeFrames gs ++ y)
    (hx : x.length < 5) (hy : y.length < 5) : fs = gs ∧ x = y := by
  have hlong {f : Frame} {hs : List Frame} {y z : Bytes} (h : z = encodeFrames (f :: hs) ++ y) :
      5 ≤ z.length := by
    rw [h, encodeFrames_cons, List.length_append, List.length_append, f.encoded_length]
    omega
  induction fs generalizing gs with
  | nil =>
    cases gs with
    | nil => exact ⟨rfl, h⟩
    | cons g gs =>
      have hle : 5 ≤ x.length := hlong h
      omega
  | cons f fs ih =>
    cases gs with
    | nil =>
      have hle : 5 ≤ y.length := hlong h.symm
      omega
    | cons g gs =>
      rw [encodeFrames_cons, encodeFrames_cons, List.append_assoc, List.append_assoc] at h
      obtain ⟨rfl, hrest⟩ := Frame.encoded_append_inj h
      obtain ⟨rfl, rfl⟩ := ih hrest
      exact ⟨rfl, rfl⟩

theorem EndsInside.not_frames {fs gs : List Frame} {n : ℕ} (h : EndsInside fs n) :
    (encodeFrames fs).take n ≠ encodeFrames gs := by
  obtain ⟨before, f, behind, rfl, hlo, hhi⟩ := h
  intro hgs
  have hcut : (encodeFrames (before ++ f :: behind)).take n =
      encodeFrames before ++ f.encoded.take (n - (encodeFrames before).length) := by
    rw [encodeFrames_append, encodeFrames_cons, List.take_append, List.take_of_length_le (Nat.le_of_lt hlo),
      List.take_append_of_le_length (by omega)]
  have hpos : 0 < n - (encodeFrames before).length := by omega
  have hlt : n - (encodeFrames before).length < f.encoded.length := by omega
  rw [hcut] at hgs
  clear hcut hlo hhi
  generalize n - (encodeFrames before).length = k at hgs hpos hlt
  induction before generalizing gs with
  | nil =>
    cases gs with
    | nil =>
      have hlen : (f.encoded.take k).length = 0 := congrArg List.length hgs
      rw [List.length_take] at hlen
      omega
    | cons g gs =>
      -- a frame within the beginning of a frame would be all of it
      rw [encodeFrames_cons] at hgs
      have hwhole : f.encoded ++ [] = g.encoded ++ (encodeFrames gs ++ f.encoded.drop k) := by
        rw [List.append_nil, ← List.append_assoc, ← hgs]
        exact (List.take_append_drop k f.encoded).symm
      have hnil := (List.append_eq_nil_iff.mp (Frame.encoded_append_inj hwhole).2.symm).2
      have := List.drop_eq_nil_iff.mp hnil
      omega
  | cons b before ih =>
    cases gs with
    | nil =>
      have hlen := congrArg List.length hgs
      rw [encodeFrames_cons, List.length_append, List.length_append, b.encoded_length] at hlen
      change _ = 0 at hlen
      omega
    | cons g gs =>
      rw [encodeFrames_cons, encodeFrames_cons, List.append_assoc] at hgs
      exact ih (Frame.encoded_append_inj hgs).2

/-! ## The trailer -/

theorem Trailer.foldl_status (ls : List (List Char)) (t : Trailer) :
    (ls.foldl readLine t).status =
      ((ls.filterMap fun line => (stripPrefix GRPC_STATUS line).map fun rest => readI32 (trim rest)).getLast?.map
        (·.getD 0)).getD t.status := by
  induction ls generalizing t with
  | nil => rfl
  | cons line ls ih =>
    rw [List.foldl_cons, ih]
    rcases hline : stripPrefix GRPC_STATUS line with - | rest
    · have hkeep : (t.readLine line).status = t.status := by
        rw [readLine, hline]
        cases stripPrefix GRPC_MESSAGE line <;> rfl
      simp [hline, hkeep]
    · have hset : (t.readLine line).status = (readI32 (trim rest)).getD 0 := by
        rw [readLine, hline]
      rw [List.filterMap_cons_some (b := readI32 (trim rest)) (by rw [hline]; rfl), List.getLast?_cons, hset]
      cases (ls.filterMap _).getLast? <;> rfl

/-- The status that counts is the last one, and one that cannot be parsed counts as 0. -/
theorem Frame.status_eq_zero_iff (f : Frame) :
    (Trailer.read f.payload).status = 0 ↔ ∀ s ∈ f.statuses.getLast?, s = some 0 ∨ s = none := by
  rw [Trailer.read, Trailer.foldl_status]
  change ((f.statuses.getLast?.map (·.getD 0)).getD 0) = 0 ↔ _
  rcases f.statuses.getLast? with - | - | s <;> simp

/-! ## The walk -/

theorem decodeFrames_frame {body rest : Bytes} {pos : ℕ} {f : Frame} (hbody : body.length ≤ ISIZE_MAX)
    (h : body.drop pos = f.encoded ++ rest) (data : Option Bytes) :
    decodeFrames body pos data =
      if f.IsTrailer then
        if (Trailer.read f.payload).status ≠ 0 then
          .error (.status (Trailer.read f.payload).status (Trailer.read f.payload).message)
        else decodeFrames body (pos + f.encoded.length) data
      else decodeFrames body (pos + f.encoded.length) (some f.payload) := by
  have hsize : ISIZE_MAX < 2 ^ 64 := by decide
  have hlen := congrArg List.length h
  rw [List.length_drop, List.length_append, f.encoded_length] at hlen
  have hflag : body.getD pos 0 = f.flag := by
    have hhead := congrArg (fun l => l.getD 0 0) h
    simpa [List.getD_eq_getElem?_getD, Frame.encoded] using hhead
  have hbehind : body.drop (pos + 1) = putBe32 (UInt32.ofNat f.payload.length) ++ (f.payload ++ rest) := by
    rw [← List.drop_drop, h]
    simp [Frame.encoded]
  have hnum : (be32 (body.drop (pos + 1))).toNat = f.payload.length := by
    rw [hbehind, be32_append, UInt32.toNat_ofNat', Nat.mod_eq_of_lt f.fits]
  have hpayload : (body.take (pos + 5 + f.payload.length)).drop (pos + 5) = f.payload := by
    have hdrop : body.drop (pos + 5) = f.payload ++ rest := by
      rw [show pos + 5 = pos + 1 + 4 by omega, ← List.drop_drop, hbehind]
      rfl
    rw [List.drop_take, hdrop, Nat.add_sub_cancel_left, List.take_left]
  rw [decodeFrames, if_pos (by omega)]
  simp only [hflag, hnum, hpayload, f.encoded_length]
  rw [if_neg (by omega), if_neg (by omega), Nat.add_assoc]
  by_cases htrailer : f.IsTrailer
  · rw [if_neg htrailer, if_pos htrailer]
  · rw [if_pos (not_not.mp htrailer), if_neg htrailer]

theorem decodeFrames_end {body : Bytes} {pos : ℕ} (h : (body.drop pos).length < 5) (data : Option Bytes) :
    decodeFrames body pos data = .ok data := by
  rw [List.length_drop] at h
  rw [decodeFrames]
  split
  · omega
  · rfl

theorem exists_frame {body : Bytes} {pos : ℕ} {data out : Option Bytes} (h : 5 ≤ (body.drop pos).length)
    (hok : decodeFrames body pos data = .ok out) :
    ∃ (f : Frame) (rest : Bytes), body.drop pos = f.encoded ++ rest := by
  rw [List.length_drop] at h
  rw [decodeFrames, if_pos (by omega)] at hok
  simp only at hok
  split at hok
  · cases hok
  split at hok
  · cases hok
  rename_i hfit
  clear hok
  match hahead : body.drop pos with
  | a :: b :: c :: d :: e :: tail =>
    have hbehind : body.drop (pos + 1) = [b, c, d, e] ++ tail := by
      rw [← List.drop_drop, hahead]
      rfl
    have hnum : be32 (body.drop (pos + 1)) = be32 [b, c, d, e] := by
      rw [hbehind]
      rfl
    have hlen := congrArg List.length hahead
    have hlt := (be32 [b, c, d, e]).toNat_lt
    rw [List.length_drop] at hlen
    simp only [List.length_cons] at hlen
    rw [hnum] at hfit
    have hcut : (tail.take (be32 [b, c, d, e]).toNat).length = (be32 [b, c, d, e]).toNat := by
      rw [List.length_take]
      omega
    refine ⟨⟨a, tail.take (be32 [b, c, d, e]).toNat, by omega⟩, tail.drop (be32 [b, c, d, e]).toNat, ?_⟩
    rw [Frame.encoded]
    simp only [hcut, UInt32.ofNat_toNat, putBe32_be32]
    simp
  | [] | [_] | [_, _] | [_, _, _] | [_, _, _, _] =>
    have hlen := congrArg List.length hahead
    simp at hlen
    omega

/-- The walk succeeds just on complete frames with at most four bytes behind them, when the last status of
each trailer counts as 0. -/
theorem decodeFrames_ok_iff {body : Bytes} (hbody : body.length ≤ ISIZE_MAX) {pos : ℕ} {data out : Option Bytes} :
    decodeFrames body pos data = .ok out ↔
      ∃ fs rest, body.drop pos = encodeFrames fs ++ rest ∧ rest.length < 5 ∧
        (∀ f ∈ fs, f.IsTrailer → (Trailer.read f.payload).status = 0) ∧ out = lastData data fs := by
  constructor
  · intro hok
    induction hn : body.length - pos using Nat.strong_induction_on generalizing pos data with
    | _ n ih =>
      by_cases hend : (body.drop pos).length < 5
      · rw [decodeFrames_end hend] at hok
        exact ⟨[], body.drop pos, rfl, hend, nofun, (Except.ok.inj hok).symm⟩
      · obtain ⟨f, rest, hahead⟩ := exists_frame (Nat.le_of_not_lt hend) hok
        have hlen := congrArg List.length hahead
        have hdrop : body.drop (pos + f.encoded.length) = rest := by
          rw [← List.drop_drop, hahead, List.drop_left]
        rw [List.length_drop, List.length_append] at hlen
        have hfive := f.encoded_length
        rw [decodeFrames_frame hbody hahead] at hok
        have hcons {next : Option Bytes} (hgo : decodeFrames body (pos + f.encoded.length) next = .ok out)
            (hstatus : f.IsTrailer → (Trailer.read f.payload).status = 0)
            (hdata : ∀ fs, lastData next fs = lastData data (f :: fs)) :
            ∃ fs rest, body.drop pos = encodeFrames fs ++ rest ∧ rest.length < 5 ∧
              (∀ f ∈ fs, f.IsTrailer → (Trailer.read f.payload).status = 0) ∧ out = lastData data fs := by
          obtain ⟨fs, tail, hfs, htail, hall, hout⟩ := ih _ (by omega) hgo rfl
          refine ⟨f :: fs, tail, ?_, htail, List.forall_mem_cons.mpr ⟨hstatus, hall⟩, ?_⟩
          · rw [hahead, encodeFrames_cons, List.append_assoc, ← hfs, hdrop]
          · rw [hout, hdata]
        split at hok
        · rename_i htrailer
          split at hok
          · cases hok
          · rename_i hstatus
            apply hcons hok fun _ => not_not.mp hstatus
            intro fs
            rw [lastData, lastData, List.foldl_cons, if_pos htrailer]
        · rename_i hframe
          apply hcons hok fun h => absurd h hframe
          intro fs
          rw [lastData, lastData, List.foldl_cons, if_neg hframe]
  · rintro ⟨fs, rest, hahead, hrest, hall, rfl⟩
    induction fs generalizing pos data with
    | nil =>
      change body.drop pos = rest at hahead
      exact decodeFrames_end (hahead ▸ hrest) data
    | cons f fs ih =>
      rw [encodeFrames_cons, List.append_assoc] at hahead
      have hdrop : body.drop (pos + f.encoded.length) = encodeFrames fs ++ rest := by
        rw [← List.drop_drop, hahead, List.drop_left]
      obtain ⟨hf, hfs⟩ := List.forall_mem_cons.mp hall
      rw [decodeFrames_frame hbody hahead, lastData, List.foldl_cons]
      split
      · rename_i htrailer
        rw [if_neg (not_not.mpr (hf htrailer))]
        exact ih hdrop hfs
      · exact ih hdrop hfs

theorem decodeResponse_ok_iff {body d : Bytes} (hbody : body.length ≤ ISIZE_MAX) :
    decodeResponse body = .ok d ↔
      ∃ fs rest, body = encodeFrames fs ++ rest ∧ rest.length < 5 ∧
        (∀ f ∈ fs, f.IsTrailer → (Trailer.read f.payload).status = 0) ∧ d = (lastData none fs).getD [] := by
  have hwalk (out : Option Bytes) := @decodeFrames_ok_iff body hbody 0 none out
  unfold decodeResponse
  constructor
  · intro hok
    split at hok
    · rename_i data hdata
      obtain ⟨fs, rest, hfs, hrest, hall, rfl⟩ := (hwalk data).mp hdata
      exact ⟨fs, rest, hfs, hrest, hall, (Except.ok.inj hok).symm⟩
    · cases hok
  · rintro ⟨fs, rest, hfs, hrest, hall, rfl⟩
    rw [(hwalk _).mpr ⟨fs, rest, hfs, hrest, hall, rfl⟩]

/-! ## Where it decodes exactly -/

theorem Lenient.not_exact {body : Bytes} (hbody : body.length ≤ ISIZE_MAX) (h : Lenient body) :
    ¬ DecodesExactly body := by
  obtain ⟨fs, rest, hfs, hrest, hlast, hbad⟩ := h
  intro hexact
  have hok := (decodeResponse_ok_iff hbody).mpr
    ⟨fs, rest, hfs, hrest, fun f hf htrailer => f.status_eq_zero_iff.mpr (hlast f hf htrailer), rfl⟩
  obtain ⟨gs, hgs, hall, -⟩ := (hexact.1 _).mp hok
  have hsame : encodeFrames fs ++ rest = encodeFrames gs ++ [] := by
    rw [← hfs, hgs, List.append_nil]
  obtain ⟨rfl, rfl⟩ := encodeFrames_inj hsame hrest (by decide)
  rcases hbad with hne | ⟨f, hf, htrailer, s, hs, hne⟩
  · exact hne rfl
  · exact hne (hall f hf htrailer s hs)

theorem wellFormed_of_ok {body d : Bytes} (hbody : body.length ≤ ISIZE_MAX) (h : ¬ Lenient body)
    (hok : decodeResponse body = .ok d) : WellFormed body d := by
  obtain ⟨fs, rest, hfs, hrest, hstatus, hd⟩ := (decodeResponse_ok_iff hbody).mp hok
  have hgood : rest = [] ∧ ∀ f ∈ fs, f.IsTrailer → ∀ s ∈ f.statuses, s = some 0 := by
    by_contra hbad
    apply h
    refine ⟨fs, rest, hfs, hrest, fun f hf htrailer => f.status_eq_zero_iff.mp (hstatus f hf htrailer), ?_⟩
    by_contra hnone
    apply hbad
    refine ⟨by_contra fun hne => hnone (.inl hne), fun f hf htrailer s hs => by_contra fun hne => ?_⟩
    exact hnone (.inr ⟨f, hf, htrailer, s, hs, hne⟩)
  refine ⟨fs, ?_, hgood.2, hd⟩
  rw [hfs, hgood.1, List.append_nil]

theorem ok_of_wellFormed {body d : Bytes} (hbody : body.length ≤ ISIZE_MAX) (h : WellFormed body d) :
    decodeResponse body = .ok d := by
  obtain ⟨fs, hfs, hall, hd⟩ := h
  refine (decodeResponse_ok_iff hbody).mpr ⟨fs, [], ?_, by decide, fun f hf htrailer => ?_, hd⟩
  · rw [hfs, List.append_nil]
  · exact f.status_eq_zero_iff.mpr fun s hs => .inl (hall f hf htrailer s (List.mem_of_getLast? hs))

/-- A response is accepted just when it is well formed, and a cut within a frame is an error, for a body that
is not taken leniently. -/
theorem decodeResponse_exact {body : Bytes} (hbody : body.length ≤ ISIZE_MAX) :
    DecodesExactly body ↔ ¬ Lenient body := by
  constructor
  · intro hexact h
    exact h.not_exact hbody hexact
  · intro h
    have hiff (d : Bytes) : decodeResponse body = .ok d ↔ WellFormed body d :=
      ⟨wellFormed_of_ok hbody h, ok_of_wellFormed hbody⟩
    refine ⟨hiff, fun fs n hcut hinside => ?_⟩
    rcases hres : decodeResponse body with e | d
    · exact ⟨e, rfl⟩
    · obtain ⟨gs, hgs, -⟩ := (hiff d).mp hres
      exact absurd (hcut.symm.trans hgs) hinside.not_frames

theorem decodeResponse_exact_empty : decodeResponse [] = .ok [] ∧ DecodesExactly [] := by
  have hend : decodeFrames [] 0 none = .ok none := decodeFrames_end (by decide) none
  refine ⟨by simp [decodeResponse, hend], ?_⟩
  apply (decodeResponse_exact (by decide)).mpr
  rintro ⟨fs, rest, hempty, -, -, hbad⟩
  obtain ⟨hfs, rfl⟩ := List.append_eq_nil_iff.mp hempty.symm
  cases fs with
  | nil =>
    rcases hbad with hne | ⟨f, hf, -⟩
    · exact hne rfl
    · cases hf
  | cons f fs =>
    rw [encodeFrames_cons] at hfs
    cases hfs

/-- The payload 7, and a trailer that says `grpc-status:5`. -/
def failedCall : List Frame := [⟨0, [7], by decide⟩, ⟨0x80, "grpc-status:5".toUTF8.data.toList, by decide⟩]

/-- It is cut three bytes into the header of the trailer. -/
def cutCall : Bytes := (encodeFrames failedCall).take 9

theorem decodeResponse_loses_trailer : decodeResponse cutCall = .ok [7] ∧ EndsInside failedCall 9 ∧
    ¬ ∀ body : Bytes, body.length ≤ ISIZE_MAX → DecodesExactly body := by
  have hframe : cutCall.drop 0 = (Frame.mk 0 [7] (by decide)).encoded ++ [0x80, 0, 0] := by decide
  refine ⟨?_, ⟨[⟨0, [7], by decide⟩], ⟨0x80, "grpc-status:5".toUTF8.data.toList, by decide⟩, [], rfl, by decide,
    by decide⟩, fun h => ?_⟩
  · rw [decodeResponse, decodeFrames_frame (by decide) hframe, if_neg (by decide), decodeFrames_end (by decide)]
    rfl
  · have hlenient : Lenient cutCall := by
      refine ⟨[⟨0, [7], by decide⟩], [0x80, 0, 0], by decide, by decide, ?_, .inl (by decide)⟩
      intro f hf htrailer
      rw [List.mem_singleton.mp hf] at htrailer
      exact absurd htrailer (by decide)
    exact hlenient.not_exact (by decide) (h cutCall (by decide))

end BaleVpn.Signaling
