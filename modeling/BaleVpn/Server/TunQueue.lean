import BaleVpn.Lib.Machine
import BaleVpn.Server.Policy

/-!
# The write queue of the TUN bridge (`tun.rs`)

`inject` queues a packet and drains; a writable event drains. The loop of `drain` works on the head: a
write error other than would-block and interrupted ends it with the head in place, to be offered again
at the next drain, and nothing takes the bridge down. What waits behind a rejected packet waits.
-/

namespace BaleVpn.Server

open Lib Net Tcp

/-! ## Draining -/

inductive DrainEnd
  | drained
  /-- The device takes no more for now. -/
  | blocked
  /-- It rejects the head. -/
  | rejected
  deriving DecidableEq, Repr

/-- How the loop of `drain` ends. -/
def drainEnd : List WriteRes → List TunWrite → DrainEnd
  | _, [] => .drained
  | [], _ :: _ => .blocked
  | r :: rs, p :: ps =>
    match r with
    | .ok n => if n ≥ p.wire.length then drainEnd rs ps else .blocked
    | .wouldBlock => .blocked
    | .interrupted => drainEnd rs (p :: ps)
    | .err => .rejected

/-- No result that the loop comes to is an error for a packet with another behind it. -/
def RejectsLast : List WriteRes → List TunWrite → Prop
  | _, [] => True
  | [], _ :: _ => True
  | r :: rs, p :: ps =>
    match r with
    | .ok n => n ≥ p.wire.length → RejectsLast rs ps
    | .wouldBlock => True
    | .interrupted => RejectsLast rs (p :: ps)
    | .err => ps = []

/-- The loop takes packets off the head: what it leaves is a suffix, and the bytes that the device took
come before the bytes that are left. -/
theorem drainPending_split (results : List WriteRes) (ps : List TunWrite) :
    (∃ done, ps.map (·.ip) = done ++ (drainPending results ps).1.map (·.ip)) ∧
      ps.flatMap (·.wire) = (drainPending results ps).2.flatMap (·.wire) ++
        (drainPending results ps).1.flatMap (·.wire) := by
  induction results generalizing ps with
  | nil => cases ps <;> exact ⟨⟨[], rfl⟩, rfl⟩
  | cons r rs ih =>
    cases ps with
    | nil => exact ⟨⟨[], rfl⟩, rfl⟩
    | cons p ps =>
      cases r with
      | ok n =>
        by_cases hn : n ≥ p.wire.length
        · obtain ⟨⟨done, hdone⟩, hbytes⟩ := ih ps
          simp only [drainPending, if_pos hn]
          refine ⟨⟨p.ip :: done, ?_⟩, ?_⟩
          · rw [List.map_cons, hdone, List.cons_append]
          · rw [List.flatMap_cons, hbytes, List.flatMap_cons, List.append_assoc]
        · simp only [drainPending, if_neg hn]
          refine ⟨⟨[], rfl⟩, ?_⟩
          rw [List.flatMap_cons, List.flatMap_cons, List.flatMap_cons, List.flatMap_nil, List.append_nil,
            ← List.append_assoc, List.take_append_drop]
      | wouldBlock => exact ⟨⟨[], rfl⟩, rfl⟩
      | interrupted => exact ih (p :: ps)
      | err => exact ⟨⟨[], rfl⟩, rfl⟩

theorem drainPending_length_le (results : List WriteRes) (ps : List TunWrite) :
    (drainPending results ps).1.length ≤ ps.length := by
  obtain ⟨⟨done, hdone⟩, -⟩ := drainPending_split results ps
  have hlen := congrArg List.length hdone
  simp only [List.length_map, List.length_append] at hlen
  omega

theorem rejectsLast_iff (results : List WriteRes) (ps : List TunWrite) :
    RejectsLast results ps ↔
      (drainEnd results ps ≠ .blocked → (drainPending results ps).1.length ≤ 1) := by
  induction results generalizing ps with
  | nil => cases ps <;> simp [RejectsLast, drainEnd, drainPending]
  | cons r rs ih =>
    cases ps with
    | nil => simp [RejectsLast, drainPending]
    | cons p ps =>
      cases r with
      | ok n =>
        by_cases hn : n ≥ p.wire.length
        · simp only [RejectsLast, drainEnd, drainPending, if_pos hn]
          rw [← ih ps]
          exact ⟨fun h => h hn, fun h _ => h⟩
        · simp [RejectsLast, drainEnd, hn]
      | wouldBlock => simp [RejectsLast, drainEnd]
      | interrupted => exact ih (p :: ps)
      | err => simp [RejectsLast, drainEnd, drainPending, List.length_eq_zero_iff]

/-! ## Runs -/

/-- The bridge, with a record of the packets that `inject` queued, of those that were written to the end,
and of the bytes that the device took. -/
structure TunQueue where
  bridge : TunBridge
  accepted : List Bytes := []
  written : List Bytes := []
  wire : Bytes := []

inductive QueueEvent
  | inject (ip : Bytes) (results : List WriteRes)
  | writable (results : List WriteRes)
  deriving DecidableEq, Repr

namespace QueueEvent

def results : QueueEvent → List WriteRes
  | .inject _ results | .writable results => results

/-- The packet is queued. -/
def queued (b : TunBridge) : QueueEvent → List Bytes
  | .inject ip _ => if b.pending.length ≥ MAX_PENDING_TX_PKTS then [] else [ip]
  | .writable _ => []

end QueueEvent

namespace TunQueue

def new (format : TunFormat) : TunQueue := { bridge := { format } }

/-- The queue that the event's drain, if it makes one, begins with. -/
def pending (s : TunQueue) (ev : QueueEvent) : List TunWrite :=
  s.bridge.pending ++ (ev.queued s.bridge).map fun ip => ⟨ip, wrapForWire ip s.bridge.format⟩

def handled (s : TunQueue) : QueueEvent → TunBridge × List TunWrite
  | .inject ip results => s.bridge.inject ip results
  | .writable results => s.bridge.drain results

def step (s : TunQueue) (ev : QueueEvent) : TunQueue where
  bridge := (s.handled ev).1
  accepted := s.accepted ++ ev.queued s.bridge
  written := s.written ++ ((s.pending ev).map (·.ip)).take
    ((s.pending ev).length - (s.handled ev).1.pending.length)
  wire := s.wire ++ (s.handled ev).2.flatMap (·.wire)

/-- An `inject` that finds the queue full makes no drain. -/
def Drains (s : TunQueue) : QueueEvent → Prop
  | .inject _ _ => s.bridge.pending.length < MAX_PENDING_TX_PKTS
  | .writable _ => True

instance (s : TunQueue) : (ev : QueueEvent) → Decidable (s.Drains ev)
  | .inject _ _ => inferInstanceAs (Decidable (_ < _))
  | .writable _ => isTrue trivial

/-- The queue is bounded, and what was accepted is what was written, in order, and what is pending. -/
structure InOrder (s : TunQueue) : Prop where
  bound : s.bridge.pending.length ≤ MAX_PENDING_TX_PKTS
  packets : s.accepted = s.written ++ s.bridge.pending.map (·.ip)
  bytes : s.accepted.flatMap (wrapForWire · s.bridge.format) =
    s.wire ++ s.bridge.pending.flatMap (·.wire)

/-- After the event the queue is in order, and unless the device blocks no packet waits behind another. -/
structure Progress (s : TunQueue) (ev : QueueEvent) : Prop where
  order : InOrder (s.step ev)
  served : s.Drains ev → drainEnd ev.results (s.pending ev) ≠ .blocked →
    (s.step ev).bridge.pending.length ≤ 1

/-- The device rejects no packet with another behind it. -/
def Tolerated (s : TunQueue) (ev : QueueEvent) : Prop :=
  s.Drains ev → RejectsLast ev.results (s.pending ev)

theorem handled_eq {s : TunQueue} {ev : QueueEvent} (h : s.Drains ev) :
    s.handled ev = ({ s.bridge with pending := (drainPending ev.results (s.pending ev)).1 },
      (drainPending ev.results (s.pending ev)).2) := by
  cases ev with
  | inject ip results =>
    have hroom : ¬ s.bridge.pending.length ≥ MAX_PENDING_TX_PKTS := Nat.not_le.mpr h
    simp [handled, TunBridge.inject, TunBridge.drain, pending, QueueEvent.queued, QueueEvent.results, hroom]
  | writable results =>
    simp [handled, TunBridge.drain, pending, QueueEvent.queued, QueueEvent.results]

theorem step_of_not_drains {s : TunQueue} {ev : QueueEvent} (h : ¬ s.Drains ev) : s.step ev = s := by
  cases ev with
  | inject ip results =>
    have hfull : s.bridge.pending.length ≥ MAX_PENDING_TX_PKTS := Nat.not_lt.mp h
    simp [step, handled, TunBridge.inject, pending, QueueEvent.queued, hfull]
  | writable results => exact absurd trivial h

theorem pending_length_le {s : TunQueue} {ev : QueueEvent} (h : s.Drains ev)
    (hbound : s.bridge.pending.length ≤ MAX_PENDING_TX_PKTS) :
    (s.pending ev).length ≤ MAX_PENDING_TX_PKTS := by
  cases ev with
  | inject ip results =>
    have hroom : s.bridge.pending.length < MAX_PENDING_TX_PKTS := h
    simp [pending, QueueEvent.queued, Nat.not_le.mpr hroom]
    omega
  | writable results => simpa [pending, QueueEvent.queued] using hbound

theorem InOrder.new (format : TunFormat) : InOrder (TunQueue.new format) where
  bound := Nat.zero_le _
  packets := rfl
  bytes := rfl

theorem InOrder.step {s : TunQueue} (h : InOrder s) (ev : QueueEvent) : InOrder (s.step ev) := by
  by_cases hdrains : s.Drains ev
  · have hlen := drainPending_length_le ev.results (s.pending ev)
    obtain ⟨⟨done, hdone⟩, hbytes⟩ := drainPending_split ev.results (s.pending ev)
    have hhandled := handled_eq hdrains
    refine ⟨?_, ?_, ?_⟩
    · simp only [TunQueue.step, hhandled]
      exact hlen.trans (pending_length_le hdrains h.bound)
    · simp only [TunQueue.step, hhandled]
      -- what the drain removes from the head is just what it wrote to the end
      have hcount : (s.pending ev).length - (drainPending ev.results (s.pending ev)).1.length =
          done.length := by
        have hsum := congrArg List.length hdone
        simp only [List.length_map, List.length_append] at hsum
        omega
      have hqueue : s.accepted ++ ev.queued s.bridge = s.written ++ (s.pending ev).map (·.ip) := by
        simp [h.packets, pending, Function.comp_def]
      rw [hqueue, hcount, hdone, List.take_left, List.append_assoc]
    · simp only [TunQueue.step, hhandled]
      rw [List.flatMap_append, h.bytes, List.append_assoc, List.append_assoc, ← hbytes]
      simp [pending, List.flatMap_map]
  · rw [step_of_not_drains hdrains]
    exact h

theorem inOrder_of_run (format : TunFormat) (evs : List QueueEvent) :
    InOrder (evs.foldl step (new format)) :=
  foldl_invariant (fun _ ev h => h.step ev) evs (InOrder.new format)

theorem progress_iff {s : TunQueue} (h : InOrder s) (ev : QueueEvent) :
    Progress s ev ↔ Tolerated s ev := by
  have hpending (hdrains : s.Drains ev) :
      (s.step ev).bridge.pending = (drainPending ev.results (s.pending ev)).1 := by
    simp only [TunQueue.step, handled_eq hdrains]
  constructor
  · intro hprogress hdrains
    rw [rejectsLast_iff, ← hpending hdrains]
    exact hprogress.served hdrains
  · intro htolerated
    refine ⟨h.step ev, fun hdrains hend => ?_⟩
    rw [hpending hdrains]
    exact (rejectsLast_iff _ _).mp (htolerated hdrains) hend

/-- Along any run of injections and writable events the queue is in order and bounded; whatever the device
answers, packets are written as it takes them just as long as it rejects none with another behind it. -/
theorem queue_progress_iff (format : TunFormat) (evs : List QueueEvent) :
    Along step Progress (new format) evs ↔ Along step Tolerated (new format) evs := by
  constructor
  · exact Along.imp (fun s ev hprogress h => ⟨h.step ev, (progress_iff h ev).mp hprogress⟩)
      (InOrder.new format)
  · exact Along.imp (fun s ev htolerated h => ⟨h.step ev, (progress_iff h ev).mpr htolerated⟩)
      (InOrder.new format)

/-- A packet that the device rejects stays at the head, and the good one behind it is never offered. -/
theorem not_queue_progress : ¬ ∀ (format : TunFormat) (evs : List QueueEvent),
    Along step Progress (new format) evs := by
  intro h
  have hrun := (h .rawIp [.inject [0x45] [.err], .inject [0x46] [.err, .ok 1500]]).2.1
  have hwaiting := hrun.served (by decide) (by decide)
  exact absurd hwaiting (by decide)

end TunQueue

end BaleVpn.Server
