import BaleVpn.Carrier.Rtp

/-!
# Packing in the send loop (`lib.rs`, `run_connect_task`)

The sender task waits for a packet, takes along what else has arrived and packs it all into frames.
It flushes a batch when the next packet does not fit, and at the end of the pass. There is one
carrier track (`TRACK_COUNT`), so frames leave in the order they are flushed.
-/

namespace BaleVpn.Carrier

open Net Lib

/-- The batch that is being filled, and the frames the track has taken. -/
structure Packer where
  batch : Bytes := []
  frames : List Bytes := []
  deriving DecidableEq, Repr

namespace Packer

def push (s : Packer) (packet : Bytes) : Bool × Packer :=
  let (pushed, batch) := pushPacked s.batch packet MAX_FRAME_BYTES
  (pushed, { s with batch })

/-- `flush_with_backpressure`, once the track takes the frame. -/
def flush (s : Packer) : Packer :=
  if s.batch.isEmpty then s else { batch := [], frames := s.frames ++ [s.batch] }

/-- What the loop does with a packet that has already arrived. -/
def offer (s : Packer) (next : Bytes) : Packer :=
  match s.push next with
  | (true, s) => s
  | (false, s) => (s.flush.push next).2

/-- One pass: the packet waited for, those that `try_recv` finds, the flush. -/
def pass (s : Packer) (group : Bytes × List Bytes) : Packer :=
  (group.2.foldl offer (s.push group.1).2).flush

/-- The send loop over groups of arrivals, with the flush after the channel has closed. -/
def sendLoop (groups : List (Bytes × List Bytes)) : Packer := (groups.foldl pass {}).flush

end Packer

/-! ## What is in the batch and the frames -/

/-- What a single frame may hold: as much as fits, or one packet of any size. -/
def Sized (packets : List Bytes) : Prop :=
  (packets.flatMap entry).length ≤ MAX_FRAME_BYTES ∨ packets.length = 1

/-- The frames and the batch hold the packets `kept`, in order. -/
structure Packed (s : Packer) (kept : List Bytes) (filled : List (List Bytes)) (last : List Bytes) :
    Prop where
  frames : s.frames = filled.map (·.flatMap entry)
  batch : s.batch = last.flatMap entry
  all : filled.flatten ++ last = kept
  fits : ∀ p ∈ kept, Fits p
  sized : ∀ packets ∈ filled, Sized packets
  open_sized : Sized last

def Holds (s : Packer) (kept : List Bytes) : Prop := ∃ filled last, Packed s kept filled last

theorem entry_length (packet : Bytes) : (entry packet).length = 2 + packet.length := by
  rw [entry, putBe16, List.length_append]
  simp

theorem pushPacked_fits {packet : Bytes} (h : Fits packet) (batch : Bytes) (max : ℕ) :
    pushPacked batch packet max =
      if batch.length + 2 + packet.length > max && !batch.isEmpty then (false, batch)
      else (true, batch ++ entry packet) := by
  unfold pushPacked
  rw [if_neg (by have := h.2; omega)]

theorem pushPacked_long {packet : Bytes} (h : 65535 < packet.length) (batch : Bytes) (max : ℕ) :
    pushPacked batch packet max = (true, batch) := if_pos h

theorem flatMap_entry_eq_nil {packets : List Bytes} (h : packets.flatMap entry = []) : packets = [] := by
  cases packets with
  | nil => rfl
  | cons p ps =>
    have hlen := congrArg List.length h
    rw [List.flatMap_cons, List.length_append, entry_length] at hlen
    simp at hlen

theorem Holds.empty : Holds {} [] :=
  ⟨[], [], rfl, rfl, rfl, by simp, by simp, .inl (by decide)⟩

theorem Holds.push {s : Packer} {kept : List Bytes} (h : Holds s kept) {packet : Bytes}
    (hp : Fits packet) :
    ((s.push packet).1 = true ∧ Holds (s.push packet).2 (kept ++ [packet])) ∨
      s.batch ≠ [] ∧ s.push packet = (false, s) := by
  obtain ⟨filled, last, h⟩ := h
  simp only [Packer.push, pushPacked_fits hp]
  by_cases hfull : (s.batch.length + 2 + packet.length > MAX_FRAME_BYTES && !s.batch.isEmpty) = true
  · rw [if_pos hfull]
    simp only [Bool.and_eq_true, Bool.not_eq_true', List.isEmpty_eq_false_iff] at hfull
    exact .inr ⟨hfull.2, rfl⟩
  · rw [if_neg hfull]
    refine .inl ⟨rfl, filled, last ++ [packet], h.frames, ?_, ?_, ?_, h.sized, ?_⟩
    · simp [h.batch]
    · rw [← h.all, List.append_assoc]
    · intro p hmem
      rcases List.mem_append.mp hmem with hmem | hmem
      · exact h.fits p hmem
      · rw [List.mem_singleton.mp hmem]
        exact hp
    · -- Either it fitted, or the batch was empty and the packet is alone.
      by_cases hempty : s.batch = []
      · rw [h.batch] at hempty
        rw [flatMap_entry_eq_nil hempty]
        exact .inr rfl
      · refine .inl ?_
        have hne : s.batch.isEmpty = false := by simpa using hempty
        rw [hne] at hfull
        simp only [Bool.not_false, Bool.and_true, decide_eq_true_eq, not_lt] at hfull
        rw [List.flatMap_append, ← h.batch, List.length_append]
        simp only [List.flatMap_cons, List.flatMap_nil, List.append_nil, entry_length]
        omega

theorem flush_batch (s : Packer) : s.flush.batch = [] := by
  unfold Packer.flush
  split
  · rename_i hempty
    simpa using hempty
  · rfl

theorem Holds.flush {s : Packer} {kept : List Bytes} (h : Holds s kept) : Holds s.flush kept := by
  obtain ⟨filled, last, h⟩ := h
  unfold Packer.flush
  split
  · exact ⟨filled, last, h⟩
  · refine ⟨filled ++ [last], [], ?_, rfl, ?_, h.fits, ?_, .inl (by decide)⟩
    · simp [h.frames, h.batch]
    · simp [← h.all]
    · intro packets hmem
      rcases List.mem_append.mp hmem with hmem | hmem
      · exact h.sized packets hmem
      · rw [List.mem_singleton.mp hmem]
        exact h.open_sized

theorem Holds.push_flushed {s : Packer} {kept : List Bytes} (h : Holds s kept) {packet : Bytes}
    (hp : Fits packet) (hempty : s.batch = []) : Holds (s.push packet).2 (kept ++ [packet]) := by
  rcases h.push hp with h | h
  · exact h.2
  · exact absurd hempty h.1

theorem Holds.offer {s : Packer} {kept : List Bytes} (h : Holds s kept) {packet : Bytes}
    (hp : Fits packet) : Holds (s.offer packet) (kept ++ [packet]) := by
  unfold Packer.offer
  rcases h.push hp with ⟨hpushed, hholds⟩ | ⟨-, hfull⟩
  · rcases hs : s.push packet with ⟨pushed, s'⟩
    rw [hs] at hpushed hholds
    obtain rfl : pushed = true := hpushed
    exact hholds
  · rw [hfull]
    exact h.flush.push_flushed hp (flush_batch s)

theorem Holds.offers {packets : List Bytes} : ∀ {s : Packer} {kept : List Bytes}, Holds s kept →
    (∀ p ∈ packets, Fits p) → Holds (packets.foldl Packer.offer s) (kept ++ packets) := by
  induction packets with
  | nil => exact fun h _ => by simpa using h
  | cons p ps ih =>
    intro s kept h hp
    have hrest := ih (h.offer (hp p List.mem_cons_self)) fun q hq => hp q (List.mem_cons_of_mem p hq)
    rwa [List.append_assoc] at hrest

/-- The packets of a group, in the order of their arrival. -/
def arrivals (group : Bytes × List Bytes) : List Bytes := group.1 :: group.2

theorem Holds.pass {s : Packer} {kept : List Bytes} (h : Holds s kept) (hempty : s.batch = [])
    {group : Bytes × List Bytes} (hp : ∀ p ∈ arrivals group, Fits p) :
    Holds (s.pass group) (kept ++ arrivals group) ∧ (s.pass group).batch = [] := by
  have hfirst := h.push_flushed (hp group.1 List.mem_cons_self) hempty
  have hall := hfirst.offers fun p hmem => hp p (List.mem_cons_of_mem _ hmem)
  rw [List.append_assoc] at hall
  exact ⟨hall.flush, flush_batch _⟩

theorem Holds.passes {groups : List (Bytes × List Bytes)} : ∀ {s : Packer} {kept : List Bytes},
    Holds s kept → s.batch = [] → (∀ p ∈ groups.flatMap arrivals, Fits p) →
      Holds (groups.foldl Packer.pass s) (kept ++ groups.flatMap arrivals) := by
  induction groups with
  | nil => exact fun h _ _ => by simpa using h
  | cons g gs ih =>
    intro s kept h hempty hp
    rw [List.flatMap_cons] at hp ⊢
    obtain ⟨hpass, hempty'⟩ := h.pass hempty fun p hmem => hp p (List.mem_append_left _ hmem)
    have hrest := ih hpass hempty' fun p hmem => hp p (List.mem_append_right _ hmem)
    rwa [List.append_assoc] at hrest

/-! ## Out of the frames again -/

/-- What the receiver unpacks is what was packed. -/
theorem Holds.unpack {s : Packer} {kept : List Bytes} (h : Holds s kept) :
    s.frames.flatMap unpack ++ Carrier.unpack s.batch = kept ∧
      ∀ frame ∈ s.frames, frame.length ≤ MAX_FRAME_BYTES ∨ (Carrier.unpack frame).length = 1 := by
  obtain ⟨filled, last, h⟩ := h
  have hfits : ∀ packets ∈ filled, ∀ p ∈ packets, Fits p := fun packets hmem p hp =>
    h.fits p (h.all ▸ List.mem_append_left _ (List.mem_flatten.mpr ⟨packets, hmem, hp⟩))
  have hlast : ∀ p ∈ last, Fits p := fun p hp => h.fits p (h.all ▸ List.mem_append_right _ hp)
  constructor
  · have hframes : s.frames.flatMap Carrier.unpack = filled.flatten := by
      rw [h.frames, List.flatMap_map, ← List.flatMap_id]
      exact List.flatMap_congr fun packets hmem => unpack_flatMap (hfits packets hmem)
    rw [hframes, h.batch, unpack_flatMap hlast, h.all]
  · intro frame hmem
    rw [h.frames] at hmem
    obtain ⟨packets, hpackets, rfl⟩ := List.mem_map.mp hmem
    rw [unpack_flatMap (hfits packets hpackets)]
    exact h.sized packets hpackets

/-- Packs packets into one batch; `true` while none was refused. -/
def repack (max : ℕ) (packets : List Bytes) : Bool × Bytes :=
  packets.foldl (fun r p => (r.1 && (pushPacked r.2 p max).1, (pushPacked r.2 p max).2)) (true, [])

theorem repack_eq {max : ℕ} {packets : List Bytes} (hp : ∀ p ∈ packets, Fits p)
    (hmax : (packets.flatMap entry).length ≤ max) :
    repack max packets = (true, packets.flatMap entry) := by
  have hgo : ∀ batch : Bytes, (batch ++ packets.flatMap entry).length ≤ max →
      packets.foldl (fun r p => (r.1 && (pushPacked r.2 p max).1, (pushPacked r.2 p max).2))
        (true, batch) = (true, batch ++ packets.flatMap entry) := by
    induction packets with
    | nil => simp
    | cons p ps ih =>
      intro batch hlen
      rw [List.flatMap_cons, ← List.append_assoc] at hlen ⊢
      have hroom : ¬ (batch.length + 2 + p.length > max && !batch.isEmpty) = true := by
        simp only [List.length_append, entry_length] at hlen
        simp only [Bool.and_eq_true, decide_eq_true_eq, not_and]
        omega
      rw [List.foldl_cons, pushPacked_fits (hp p List.mem_cons_self), if_neg hroom]
      refine ih (fun q hq => hp q (List.mem_cons_of_mem p hq)) ?_ _ hlen
      simp only [List.length_append, entry_length] at hlen ⊢
      omega
  exact hgo [] hmax

/-- What was packed comes out again, in order and in frames of the right size. And whatever a frame
holds, what is unpacked from it packs into how the frame began. -/
theorem framing_round_trip :
    (∀ groups : List (Bytes × List Bytes), (∀ p ∈ groups.flatMap arrivals, Fits p) →
      (Packer.sendLoop groups).frames.flatMap unpack = groups.flatMap arrivals ∧
      ∀ frame ∈ (Packer.sendLoop groups).frames,
        frame.length ≤ MAX_FRAME_BYTES ∨ (unpack frame).length = 1) ∧
    ∀ frame : Bytes, ∃ start, repack frame.length (unpack frame) = (true, start) ∧
      start <+: frame ∧ unpack start = unpack frame := by
  constructor
  · intro groups hp
    have h := (Holds.empty.passes rfl hp).flush
    obtain ⟨hframes, hsized⟩ := h.unpack
    rw [flush_batch, unpack_nil, List.append_nil] at hframes
    exact ⟨hframes, hsized⟩
  · intro frame
    have hstart := flatMap_unpack frame
    have hfits := fits_of_mem_unpack frame
    exact ⟨_, repack_eq hfits hstart.length_le, hstart, unpack_flatMap hfits⟩

/-- Two small packets and one too big for a frame, in two passes. -/
theorem framing_round_trip_mixed :
    (Packer.sendLoop [([1], [[2, 3]]), (List.replicate 2000 7, [[4]])]).frames.flatMap unpack =
      [[1], [2, 3], List.replicate 2000 7, [4]] := by
  refine (framing_round_trip.1 _ fun p hp => ?_).1
  simp only [List.flatMap_cons, List.flatMap_nil, arrivals, List.cons_append, List.nil_append,
    List.mem_cons, List.not_mem_nil, or_false] at hp
  rcases hp with rfl | rfl | rfl | rfl
  · decide
  · decide
  · have hlen : (List.replicate 2000 (7 : UInt8)).length = 2000 := List.length_replicate
    refine ⟨fun hnil => ?_, by omega⟩
    rw [hnil] at hlen
    cases hlen
  · decide

end BaleVpn.Carrier
