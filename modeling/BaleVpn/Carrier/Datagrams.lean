import Mathlib.Data.List.Perm.Basic
import BaleVpn.Carrier.Survive

/-!
# Datagrams over the carrier (`quic_tunnel.rs`, `lib.rs`)

A `TunnelUdpSocket` sends each datagram as one tagged frame. At the peer `dispatch_payload` puts what
carries the tag into the channel of the peer's socket, if there is one and it has room, and `poll_recv`
hands the channel on to quinn, buffer by buffer. IP packets share the carrier.

A socket is not polled once the next endpoint has its own. Of `tokio`'s channel: a receive that finds
nothing registers the waker, and a send wakes it. The cooperative budget, on which the channel wakes the
task itself, and the flag `closed`, which nothing sets, are left out.
-/

namespace BaleVpn.Carrier

open Net Lib

def QUIC_RX_QUEUE_CAP : ℕ := 1024

inductive ErrorKind
  | wouldBlock | notConnected | invalidInput
  deriving DecidableEq, Repr

def trySend (s : Outbound) (contents : Bytes) : Except ErrorKind Outbound :=
  match s.sendRawFrame (FRAME_TYPE_QUIC :: contents) with
  | .ok s => .ok s
  | .error .backpressure => .error .wouldBlock
  | .error .notConnected => .error .notConnected
  | .error .invalid => .error .invalidInput

/-! ## The receiving socket -/

inductive PollRecv
  | pending
  | ready (filled : ℕ)
  | notConnected
  deriving DecidableEq, Repr

structure QuicSocket where
  /-- `quic_rx_tx` holds the sender of the channel. -/
  installed : Bool := false
  rx : List Bytes := []
  /-- A waker is registered with the channel. -/
  parked : Bool := false
  /-- It has been woken since. -/
  woken : Bool := false
  /-- What `poll_recv` returned last. -/
  last : Option PollRecv := none
  /-- The datagrams that quinn was handed. -/
  got : List Bytes := []
  /-- Those that found no socket, no room in the channel or no room in the buffer, or that their socket
left behind. -/
  dropped : List Bytes := []
  deriving DecidableEq, Repr

namespace QuicSocket

def wake (s : QuicSocket) : QuicSocket := { s with parked := false, woken := s.woken || s.parked }

/-- `dispatch_payload` with a datagram. -/
def onQuic (s : QuicSocket) (datagram : Bytes) : QuicSocket :=
  if !s.installed then { s with dropped := s.dropped ++ [datagram] }
  else if s.rx.length ≥ QUIC_RX_QUEUE_CAP then { s with dropped := s.dropped ++ [datagram] }
  else { s with rx := s.rx ++ [datagram] }.wake

/-- The loop of `poll_recv` over the sizes of the buffers: the datagrams it fills in, those it drops, what
is left in the channel, and whether it found the channel empty. -/
def fill : List ℕ → List Bytes → List Bytes × List Bytes × List Bytes × Bool
  | [], rx => ([], [], rx, false)
  | _ :: _, [] => ([], [], [], true)
  | size :: sizes, datagram :: rx =>
    if datagram.length > size then
      let (filled, dropped, left, empty) := fill (size :: sizes) rx
      (filled, datagram :: dropped, left, empty)
    else
      let (filled, dropped, left, empty) := fill sizes rx
      (datagram :: filled, dropped, left, empty)

/-- An endpoint takes the slot, unless it is taken, and has a channel of its own. -/
def install (s : QuicSocket) : QuicSocket :=
  if s.installed then s
  else { installed := true, got := s.got, dropped := s.dropped ++ s.rx }

/-- The slot is cleared, and the channel's only sender with it. -/
def uninstall (s : QuicSocket) : QuicSocket := { s with installed := false }.wake

def pollRecv (s : QuicSocket) (sizes : List ℕ) : QuicSocket :=
  if sizes.isEmpty then { s with last := some (.ready 0), woken := false }
  else
    let (filled, dropped, left, empty) := fill sizes s.rx
    { s with
      rx := left
      got := s.got ++ filled
      dropped := s.dropped ++ dropped
      parked := if empty then s.installed else s.parked
      woken := false
      last := some <|
        if !filled.isEmpty then .ready filled.length
        else if s.installed then .pending
        else .notConnected }

end QuicSocket

/-! ## Runs -/

structure Ferry where
  out : Outbound := {}
  socket : QuicSocket := {}

inductive FerryMove
  | trySend (contents : Bytes)
  /-- A step of the carrier, sends of IP packets among them. -/
  | carrier (m : SendMove)
  | install
  | uninstall
  | pollRecv (sizes : List ℕ)
  deriving DecidableEq, Repr

namespace Ferry

def hand (socket : QuicSocket) : Plane → QuicSocket
  | .ip _ => socket
  | .quic datagram => socket.onQuic datagram

/-- The carrier takes a step; the socket gets what that hands on. -/
def carry (s : Ferry) (m : SendMove) : Ferry :=
  let out := s.out.step m
  { s with out, socket := (out.handed.drop s.out.handed.length).foldl hand s.socket }

def step (s : Ferry) : FerryMove → Ferry
  | .trySend contents => { s with out := (trySend s.out contents).toOption.getD s.out }
  | .carrier m => s.carry m
  | .install => { s with socket := s.socket.install }
  | .uninstall => { s with socket := s.socket.uninstall }
  | .pollRecv sizes => { s with socket := s.socket.pollRecv sizes }

def run (s : Ferry) (ms : List FerryMove) : Ferry := ms.foldl step s

end Ferry

/-- The datagram of a frame. -/
def datagramOf (frame : Bytes) : Option Bytes :=
  match dispatchPayload frame with
  | some (.quic datagram) => some datagram
  | _ => none

def quicOf : Plane → Option Bytes
  | .ip _ => none
  | .quic datagram => some datagram

theorem filterMap_datagramOf (frames : List Bytes) :
    (frames.filterMap dispatchPayload).filterMap quicOf = frames.filterMap datagramOf := by
  rw [List.filterMap_filterMap]
  congr 1
  funext frame
  unfold datagramOf
  rcases dispatchPayload frame with _ | (_ | _) <;> rfl

/-! ## The receiving socket -/

/-- What the loop fills in and what it leaves keep their order; with what it drops, nothing is missing. -/
theorem QuicSocket.fill_spec (sizes : List ℕ) (rx : List Bytes) :
    let r := fill sizes rx
    (r.1 ++ r.2.2.1).Sublist rx ∧ (r.1 ++ r.2.2.1 ++ r.2.1).Perm rx ∧
      (r.2.2.2 = true → r.2.2.1 = []) ∧ (sizes ≠ [] → r.1 = [] → r.2.2.2 = true) := by
  induction rx generalizing sizes with
  | nil => cases sizes <;> simp [fill]
  | cons datagram rx ih =>
    cases sizes with
    | nil => simp [fill]
    | cons size sizes =>
      by_cases hlong : datagram.length > size
      · obtain ⟨hsub, hperm, hempty, hfull⟩ := ih (size :: sizes)
        simp only [fill, if_pos hlong]
        exact ⟨hsub.cons _, (List.perm_middle.trans (hperm.cons datagram)), hempty, hfull⟩
      · obtain ⟨hsub, hperm, hempty, -⟩ := ih sizes
        simp only [fill, if_neg hlong]
        exact ⟨hsub.cons_cons _, hperm.cons datagram, hempty, fun _ h => by cases h⟩

example : QuicSocket.fill [2, 2] [[1], [1, 2, 3], [2], [3]] = ([[1], [2]], [[1, 2, 3]], [[3]], false) := by
  decide

/-- The socket has been handed the datagrams `all`. -/
structure Ferried (s : QuicSocket) (all : List Bytes) : Prop where
  order : (s.got ++ s.rx).Sublist all
  each : (s.got ++ s.rx ++ s.dropped).Perm all
  cap : s.rx.length ≤ QUIC_RX_QUEUE_CAP
  parked : s.parked = true → s.installed = true ∧ s.rx = []
  last : s.last = some .pending → s.woken = true ∨ s.parked = true

theorem Ferried.drops {s : QuicSocket} {all : List Bytes} (h : Ferried s all) (datagram : Bytes) :
    Ferried { s with dropped := s.dropped ++ [datagram] } (all ++ [datagram]) := by
  refine ⟨h.order.trans (List.sublist_append_left _ _), ?_, h.cap, h.parked, h.last⟩
  change (s.got ++ s.rx ++ (s.dropped ++ [datagram])).Perm (all ++ [datagram])
  rw [← List.append_assoc]
  exact h.each.append_right _

theorem Ferried.onQuic {s : QuicSocket} {all : List Bytes} (h : Ferried s all) (datagram : Bytes) :
    Ferried (s.onQuic datagram) (all ++ [datagram]) := by
  unfold QuicSocket.onQuic
  split
  · exact h.drops datagram
  · split
    · exact h.drops datagram
    · rename_i hroom
      refine ⟨?_, ?_, ?_, nofun, fun hlast => ?_⟩
      · change (s.got ++ (s.rx ++ [datagram])).Sublist (all ++ [datagram])
        rw [← List.append_assoc]
        exact h.order.append (List.Sublist.refl _)
      · change (s.got ++ (s.rx ++ [datagram]) ++ s.dropped).Perm (all ++ [datagram])
        rw [← List.append_assoc, List.append_assoc]
        refine .trans ?_ (h.each.append_right [datagram])
        rw [List.append_assoc _ s.dropped]
        exact List.perm_append_comm.append_left _
      · change (s.rx ++ [datagram]).length ≤ _
        rw [List.length_append, List.length_singleton]
        omega
      · refine .inl ?_
        rcases h.last hlast with hwoken | hparked
        · simp [QuicSocket.wake, hwoken]
        · simp [QuicSocket.wake, hparked]

theorem Ferried.hands {planes : List Plane} : ∀ {s : QuicSocket} {all : List Bytes}, Ferried s all →
    Ferried (planes.foldl Ferry.hand s) (all ++ planes.filterMap quicOf) := by
  induction planes with
  | nil =>
    intro s all h
    simpa using h
  | cons plane planes ih =>
    intro s all h
    cases plane with
    | ip packet => exact ih h
    | quic datagram =>
      have hnext := ih (h.onQuic datagram)
      rw [List.append_assoc] at hnext
      exact hnext

theorem Ferried.pollRecv {s : QuicSocket} {all : List Bytes} (h : Ferried s all) (sizes : List ℕ) :
    Ferried (s.pollRecv sizes) all := by
  unfold QuicSocket.pollRecv
  split
  · exact ⟨h.order, h.each, h.cap, h.parked, nofun⟩
  · rename_i hsizes
    obtain ⟨hsub, hperm, hempty, hfull⟩ := QuicSocket.fill_spec sizes s.rx
    rcases hfill : QuicSocket.fill sizes s.rx with ⟨filled, dropped, left, empty⟩
    rw [hfill] at hsub hperm hempty hfull
    simp only at hsub hperm hempty hfull ⊢
    have hleft : left.Sublist s.rx := (List.sublist_append_right filled left).trans hsub
    refine ⟨?_, ?_, hleft.length_le.trans h.cap, fun hparked => ?_, fun hlast => .inr ?_⟩
    · rw [List.append_assoc]
      exact (hsub.append_left s.got).trans h.order
    · refine .trans ?_ h.each
      have hone : (s.got ++ filled ++ left ++ (s.dropped ++ dropped)).Perm
          (s.got ++ (filled ++ left ++ dropped) ++ s.dropped) := by
        simp only [List.append_assoc]
        exact ((List.perm_append_comm.append_left left).append_left filled).append_left s.got
      exact hone.trans ((hperm.append_left s.got).append_right s.dropped)
    · rcases empty with _ | _
      · obtain ⟨hinstalled, hrx⟩ := h.parked hparked
        refine ⟨hinstalled, List.sublist_nil.mp ?_⟩
        rwa [← hrx]
      · exact ⟨hparked, hempty rfl⟩
    · rcases filled with _ | ⟨datagram, filled⟩
      · rw [hfull (by simpa using hsizes) rfl, if_pos rfl]
        by_contra hnot
        simp [hnot] at hlast
      · simp at hlast

theorem Ferried.install {s : QuicSocket} {all : List Bytes} (h : Ferried s all) :
    Ferried s.install all := by
  unfold QuicSocket.install
  split
  · exact h
  · refine ⟨?_, ?_, Nat.zero_le _, nofun, nofun⟩
    · simp only [List.append_nil]
      exact (List.sublist_append_left s.got s.rx).trans h.order
    · refine .trans ?_ h.each
      simp only [List.append_nil, List.append_assoc]
      exact List.perm_append_comm.append_left s.got

theorem Ferried.uninstall {s : QuicSocket} {all : List Bytes} (h : Ferried s all) :
    Ferried s.uninstall all := by
  refine ⟨h.order, h.each, h.cap, nofun, fun hlast => .inl ?_⟩
  rcases h.last hlast with hwoken | hparked
  · simp [QuicSocket.uninstall, QuicSocket.wake, hwoken]
  · simp [QuicSocket.uninstall, QuicSocket.wake, hparked]

/-! ## From socket to socket -/

theorem step_handed (s : Outbound) (m : SendMove) : s.handed <+: (s.step m).handed := by
  cases m with
  | sendIp ip =>
    rcases s.step_sendIp ip with heq | ⟨-, heq⟩ <;> simp [heq]
  | sendRawFrame buf =>
    rcases s.step_sendRawFrame buf with heq | ⟨-, heq⟩ <;> simp [heq]
  | land i =>
    simp only [Outbound.step, Outbound.land]
    split <;> exact List.prefix_rfl
  | sender taken =>
    simp only [Outbound.step, Outbound.senderStep]
    split <;> first | exact List.prefix_rfl | (split <;> exact List.prefix_rfl)
  | onSendDrained => exact List.prefix_rfl
  | call n =>
    have heq : (s.step (.call n)).handed = s.handed := (Outbound.callStep_frame s n).2.2.2.2.2.2.2
    exact heq ▸ List.prefix_rfl
  | deliver =>
    simp only [Outbound.step, Outbound.deliver]
    split
    · exact List.prefix_append _ _
    · exact List.prefix_rfl

theorem trySend_eq (s : Outbound) (contents : Bytes) : (trySend s contents).toOption.getD s =
    s.step (.sendRawFrame (FRAME_TYPE_QUIC :: contents)) := by
  unfold trySend
  simp only [Outbound.step]
  rcases s.sendRawFrame (FRAME_TYPE_QUIC :: contents) with (_ | _ | _) | _ <;> rfl

namespace Ferry

/-- The carrier keeps what it is given, and the socket has been handed what the carrier handed on. -/
structure Ferrying (s : Ferry) : Prop where
  carrier : s.out.Conserved
  socket : Ferried s.socket (s.out.handed.filterMap quicOf)

theorem Ferrying.carry {s : Ferry} (h : Ferrying s) (m : SendMove) : Ferrying (s.carry m) := by
  refine ⟨h.carrier.step m, ?_⟩
  obtain ⟨tail, htail⟩ := step_handed s.out m
  have hhanded := @Ferried.hands tail _ _ h.socket
  unfold Ferry.carry
  simp only
  rw [← htail, List.drop_left, List.filterMap_append]
  exact hhanded

theorem carry_sendRawFrame (s : Ferry) (buf : Bytes) :
    s.carry (.sendRawFrame buf) = { s with out := s.out.step (.sendRawFrame buf) } := by
  unfold Ferry.carry
  rcases s.out.step_sendRawFrame buf with heq | ⟨-, heq⟩ <;> simp [heq]

theorem Ferrying.step {s : Ferry} (h : Ferrying s) (m : FerryMove) : Ferrying (s.step m) := by
  cases m with
  | trySend contents =>
    simp only [Ferry.step, trySend_eq]
    rw [← carry_sendRawFrame]
    exact h.carry _
  | carrier m => exact h.carry m
  | install => exact ⟨h.carrier, h.socket.install⟩
  | uninstall => exact ⟨h.carrier, h.socket.uninstall⟩
  | pollRecv sizes => exact ⟨h.carrier, h.socket.pollRecv sizes⟩

theorem Ferrying.run {s : Ferry} (h : Ferrying s) (ms : List FerryMove) : Ferrying (s.run ms) :=
  foldl_invariant (I := Ferrying) (fun _ m h => h.step m) ms h

/-- The datagrams that fit the length prefix and whose `try_send` returned `Ok(())`. -/
def sent (s : Ferry) : List Bytes := (s.out.accepted.filter Outbound.short).filterMap datagramOf

/-- In every order of sends, steps of the carrier and polls: quinn at the peer gets datagrams that were
sent, unchanged, each at most once and in the order of the sends. Those it has not got wait in the channel,
are under way in the carrier or were dropped by the receiving end, which found no socket, no room in the
channel or in the buffer, or had its socket replaced: each is in one of these places. A poll that returns `Pending` left nothing behind, or its waker has been called. -/
theorem datagrams_ferried (connected : Bool) (ms : List FerryMove) :
    let s := run { out := { connected } } ms
    (s.socket.got ++ s.socket.rx).Sublist s.sent ∧
    (∃ underway, (s.socket.got ++ s.socket.rx ++ s.socket.dropped ++ underway).Perm s.sent ∧
      (s.out.Settled → underway = [])) ∧
    (s.out.Settled → s.socket.dropped = [] → s.socket.got ++ s.socket.rx = s.sent) ∧
    s.socket.rx.length ≤ QUIC_RX_QUEUE_CAP ∧
    (s.socket.last = some .pending → s.socket.woken = true ∨ s.socket.parked = true ∧ s.socket.rx = []) := by
  intro s
  have hstart : Ferrying { out := { connected } } :=
    ⟨.start connected, List.Sublist.refl _, List.Perm.refl _, Nat.zero_le _, nofun, nofun⟩
  obtain ⟨hcarrier, horder, heach, hcap, hparked, hlast⟩ : Ferrying s := hstart.run ms
  rw [hcarrier.handed, filterMap_datagramOf] at horder heach
  obtain ⟨rest, hrest⟩ := hcarrier.order
  have hsent : s.sent = s.out.dispatched.filterMap datagramOf ++ rest.filterMap datagramOf := by
    rw [sent, ← hrest, List.filterMap_append]
  have hnone (hsettled : s.out.Settled) : rest = [] := by
    rw [hcarrier.settled hsettled] at hrest
    exact List.append_right_eq_self.mp hrest
  refine ⟨?_, ⟨rest.filterMap datagramOf, ?_, fun hsettled => by rw [hnone hsettled]; rfl⟩,
    fun hsettled hdropped => ?_, hcap, fun hp => ?_⟩
  · rw [hsent]
    exact horder.trans (List.sublist_append_left _ _)
  · rw [hsent]
    exact heach.append_right _
  · have hlen := heach.length_eq
    rw [hdropped, List.append_nil] at hlen
    rw [hsent, hnone hsettled, List.filterMap_nil, List.append_nil]
    exact horder.eq_of_length hlen
  · exact (hlast hp).imp_right fun hwaits => ⟨hwaits, (hparked hwaits).2⟩

end Ferry

end BaleVpn.Carrier
