import BaleVpn.Lib.Machine
import BaleVpn.Tunnel.Lifecycle

/-!
# Bringing up QUIC (`lib.rs`)

`enable_quic_server` and `connect_quic_to_peer` claim `quic_rx_tx` first and do what can fail after that.
The client's call clears the slot on each of its error paths. The server's returns by `?`, with its sender
in the slot and nobody at the other end. The sender of an attempt is the attempt's number.
-/

namespace BaleVpn.Tunnel

open Lib

/-! ## The calls -/

/-- `Io` is `alreadyExists` where the slot is taken. -/
inductive QuicEndpointError
  | alreadyExists | config | io | connect | connection
  deriving DecidableEq, Repr

/-- How the steps of a call come out: `make_server_config` or `make_client_config`, `build_endpoint`,
`endpoint.connect` and its await, during which others may write to the slot. -/
structure QuicSteps where
  config : Bool := true
  endpoint : Bool := true
  connect : Bool := true
  handshake : Bool := true
  others : Option ℕ → Option ℕ := id

/-- The result and the slot. -/
def enableQuicServer (slot : Option ℕ) (tx : ℕ) (o : QuicSteps) :
    Except QuicEndpointError Unit × Option ℕ :=
  if slot.isSome then (.error .alreadyExists, slot)
  else
    let slot := some tx
    if !o.config then (.error .config, slot)
    else if !o.endpoint then (.error .io, slot)
    else (.ok (), slot)

def connectQuicToPeer (slot : Option ℕ) (tx : ℕ) (o : QuicSteps) :
    Except QuicEndpointError Unit × Option ℕ :=
  if slot.isSome then (.error .alreadyExists, slot)
  else
    let slot := some tx
    let cleanup := none
    if !o.config then (.error .config, cleanup)
    else if !o.endpoint then (.error .io, cleanup)
    else if !o.connect then (.error .connect, cleanup)
    else if !o.handshake then (.error .connection, cleanup)
    else (.ok (), o.others slot)

inductive BringUp
  | server (o : QuicSteps)
  | client (o : QuicSteps)

/-- A tunnel as far as its attempts go. -/
structure QuicSide where
  quicRxTx : Option ℕ := none
  quicServerHandle : Option ℕ := none
  attempts : ℕ := 0
  deriving DecidableEq, Repr

namespace QuicSide

def result (s : QuicSide) : BringUp → Except QuicEndpointError Unit × Option ℕ
  | .server o => enableQuicServer s.quicRxTx s.attempts o
  | .client o => connectQuicToPeer s.quicRxTx s.attempts o

def attempt (s : QuicSide) (b : BringUp) : QuicSide :=
  { s with quicRxTx := (s.result b).2, attempts := s.attempts + 1 }

/-- `ensure_quic_acceptor` of a tunnel in the server role. -/
def ensureQuicAcceptor (s : QuicSide) (o : QuicSteps) : QuicSide :=
  if s.quicServerHandle.isSome then s
  else
    match (s.result (.server o)).1 with
    | .ok () => { s.attempt (.server o) with quicServerHandle := some s.attempts }
    | .error _ => s.attempt (.server o)

def Fails (s : QuicSide) (b : BringUp) : Prop := ∃ e, (s.result b).1 = .error e

/-- An attempt that returns `Err` leaves the slot as it was. -/
def LeavesSlot (s : QuicSide) (b : BringUp) : Prop := Fails s b → (s.attempt b).quicRxTx = s.quicRxTx

/-- A server's attempt gets the slot, and its configuration or its endpoint fails. -/
def LosesSlot (s : QuicSide) : BringUp → Prop
  | .server o => s.quicRxTx = none ∧ (o.config = false ∨ o.endpoint = false)
  | .client _ => False

def NotRefused (s : QuicSide) (b : BringUp) : Prop := (s.result b).1 ≠ .error .alreadyExists

end QuicSide

/-! ## One attempt -/

theorem enableQuicServer_taken {slot : Option ℕ} (h : slot.isSome = true) (tx : ℕ) (o : QuicSteps) :
    enableQuicServer slot tx o = (.error .alreadyExists, slot) := if_pos h

theorem connectQuicToPeer_taken {slot : Option ℕ} (h : slot.isSome = true) (tx : ℕ) (o : QuicSteps) :
    connectQuicToPeer slot tx o = (.error .alreadyExists, slot) := if_pos h

theorem enableQuicServer_free (tx : ℕ) (o : QuicSteps) :
    (enableQuicServer none tx o).2 = some tx ∧
      ((∃ e, (enableQuicServer none tx o).1 = .error e) ↔ o.config = false ∨ o.endpoint = false) ∧
      (enableQuicServer none tx o).1 ≠ .error .alreadyExists := by
  obtain ⟨config, endpoint, -, -, -⟩ := o
  rcases config with _ | _
  · exact ⟨rfl, ⟨fun _ => .inl rfl, fun _ => ⟨_, rfl⟩⟩, nofun⟩
  · rcases endpoint with _ | _
    · exact ⟨rfl, ⟨fun _ => .inr rfl, fun _ => ⟨_, rfl⟩⟩, nofun⟩
    · refine ⟨rfl, ⟨fun h => ?_, fun h => ?_⟩, nofun⟩
      · obtain ⟨e, he⟩ := h
        cases he
      · rcases h with h | h <;> cases h

theorem connectQuicToPeer_free (tx : ℕ) (o : QuicSteps) :
    ((∃ e, (connectQuicToPeer none tx o).1 = .error e) → (connectQuicToPeer none tx o).2 = none) ∧
      (connectQuicToPeer none tx o).1 ≠ .error .alreadyExists := by
  obtain ⟨config, endpoint, connect, handshake, others⟩ := o
  rcases config with _ | _
  · exact ⟨fun _ => rfl, nofun⟩
  · rcases endpoint with _ | _
    · exact ⟨fun _ => rfl, nofun⟩
    · rcases connect with _ | _
      · exact ⟨fun _ => rfl, nofun⟩
      · rcases handshake with _ | _
        · exact ⟨fun _ => rfl, nofun⟩
        · refine ⟨fun h => ?_, nofun⟩
          obtain ⟨e, he⟩ := h
          cases he

namespace QuicSide

theorem leavesSlot_taken {s : QuicSide} (h : s.quicRxTx.isSome = true) (b : BringUp) :
    LeavesSlot s b := by
  intro _
  cases b with
  | server o => exact congrArg Prod.snd (enableQuicServer_taken h s.attempts o)
  | client o => exact congrArg Prod.snd (connectQuicToPeer_taken h s.attempts o)

theorem leavesSlot_iff (s : QuicSide) (b : BringUp) : LeavesSlot s b ↔ ¬ LosesSlot s b := by
  rcases hslot : s.quicRxTx with _ | tx
  · cases b with
    | server o =>
      obtain ⟨hafter, hfails, -⟩ := enableQuicServer_free s.attempts o
      show ((∃ e, (enableQuicServer s.quicRxTx s.attempts o).1 = .error e) →
        (enableQuicServer s.quicRxTx s.attempts o).2 = s.quicRxTx) ↔
          ¬ (s.quicRxTx = none ∧ (o.config = false ∨ o.endpoint = false))
      rw [hslot, hafter, hfails]
      simp
    | client o =>
      refine iff_of_true ?_ nofun
      show (∃ e, (connectQuicToPeer s.quicRxTx s.attempts o).1 = .error e) →
        (connectQuicToPeer s.quicRxTx s.attempts o).2 = s.quicRxTx
      rw [hslot]
      exact (connectQuicToPeer_free s.attempts o).1
  · refine iff_of_true (leavesSlot_taken (by rw [hslot]; rfl) b) fun hloses => ?_
    cases b with
    | server o =>
      obtain ⟨hfree, -⟩ := hloses
      rw [hslot] at hfree
      cases hfree
    | client o => exact hloses

theorem notRefused_of_free {s : QuicSide} (h : s.quicRxTx = none) (b : BringUp) : NotRefused s b := by
  unfold NotRefused result
  rw [h]
  cases b with
  | server o => exact (enableQuicServer_free s.attempts o).2.2
  | client o => exact (connectQuicToPeer_free s.attempts o).2

/-- Over every sequence of attempts on a tunnel, those that fail leave the slot as it was if and only if
none of them is a server's attempt that gets the slot and whose configuration or endpoint fails. Where
none is, attempts that follow failed ones only are not refused for the slot. -/
theorem failed_bring_up_leaves_slot (s : QuicSide) (bs : List BringUp) :
    (Along attempt LeavesSlot s bs ↔ Along attempt (fun s b => ¬ LosesSlot s b) s bs) ∧
    (s.quicRxTx = none → Along attempt (fun s b => Fails s b ∧ ¬ LosesSlot s b) s bs →
      Along attempt NotRefused s bs) := by
  refine ⟨⟨fun h => ?_, fun h => ?_⟩, fun hfree h => ?_⟩
  · exact h.imp (I := fun _ => True) (fun s b hb _ => ⟨trivial, (leavesSlot_iff s b).mp hb⟩) trivial
  · exact h.imp (I := fun _ => True) (fun s b hb _ => ⟨trivial, (leavesSlot_iff s b).mpr hb⟩) trivial
  · -- The slot stays empty from one failure to the next.
    refine h.imp (I := fun s => s.quicRxTx = none) (fun s b hb hfree => ?_) hfree
    have hleaves := (leavesSlot_iff s b).mpr hb.2 hb.1
    exact ⟨hleaves.trans hfree, notRefused_of_free hfree b⟩

theorem lost_acceptor (os : List QuicSteps) : ∀ {s : QuicSide}, s.quicRxTx.isSome = true →
    s.quicServerHandle = none → (os.foldl ensureQuicAcceptor s).quicServerHandle = none := by
  induction os with
  | nil => exact fun _ h => h
  | cons o os ih =>
    intro s htaken hnone
    have hrefused : s.result (.server o) = (.error .alreadyExists, s.quicRxTx) :=
      enableQuicServer_taken htaken s.attempts o
    have hstep : s.ensureQuicAcceptor o = s.attempt (.server o) := by
      unfold ensureQuicAcceptor
      rw [hnone, hrefused]
      rfl
    refine ih ?_ ?_
    · rw [hstep]
      show (s.result (.server o)).2.isSome = true
      rw [hrefused]
      exact htaken
    · rw [hstep]
      exact hnone

/-- The certificate of the first attempt fails. -/
theorem bring_up_loses_slot :
    Fails {} (.server { config := false }) ∧
    (∀ os : List QuicSteps,
      (({ config := false } :: os).foldl ensureQuicAcceptor {}).quicServerHandle = none) ∧
    ¬ ∀ (s : QuicSide) (b : BringUp), LeavesSlot s b := by
  have hfails : Fails {} (.server { config := false }) := ⟨.config, rfl⟩
  refine ⟨hfails, fun os => lost_acceptor os rfl rfl, fun hall => ?_⟩
  have hkept : some 0 = none := hall {} (.server { config := false }) hfails
  cases hkept

end QuicSide

/-! ## The calls in the machine of the tunnel -/

namespace LkTunnel

variable (t : LkTunnel) {slot : Option ℕ} (tx : ℕ) (o : QuicSteps) (hslot : t.quicRxTx = slot.isSome)

include hslot

/-- The two steps of the acceptor, as a call of `enable_quic_server`. -/
theorem acceptor_enables :
    ((t.acceptorStep true .claim).1.acceptorStep (o.config && o.endpoint)
      (t.acceptorStep true .claim).2).1.quicRxTx = (enableQuicServer slot tx o).2.isSome := by
  rcases slot with _ | tx'
  · obtain ⟨hafter, -, -⟩ := enableQuicServer_free tx o
    have hclaim : t.acceptorStep true .claim = ({ t with quicRxTx := true }, .build) := by
      unfold acceptorStep
      rw [hslot]
      rfl
    rw [hafter, hclaim]
    generalize (o.config && o.endpoint) = ok
    cases ok <;> rfl
  · have hclaim : t.acceptorStep true .claim = (t, .returned) := by
      unfold acceptorStep
      rw [hslot]
      rfl
    rw [hclaim, enableQuicServer_taken rfl]
    exact hslot

/-- The two steps of `ensure_quic_client`, as a call of `connect_quic_to_peer` that nobody interferes
with. -/
theorem ensure_connects (n : ℕ) (hothers : o.others = id) :
    ((t.stepOf n true .ensureQuicClaim).1.stepOf n
      (o.config && o.endpoint && o.connect && o.handshake)
      (t.stepOf n true .ensureQuicClaim).2).1.quicRxTx = (connectQuicToPeer slot tx o).2.isSome := by
  rcases slot with _ | tx'
  · have hclaim : t.stepOf n true .ensureQuicClaim =
        ({ t with quicRxTx := true }, .ensureQuicHandshake) := by
      unfold stepOf
      rw [hslot]
      rfl
    rw [hclaim]
    obtain ⟨config, endpoint, connect, handshake, others⟩ := o
    obtain rfl : others = id := hothers
    cases config <;> cases endpoint <;> cases connect <;> cases handshake <;> rfl
  · have hclaim : t.stepOf n true .ensureQuicClaim = (t, .ensureQuicConnected) := by
      unfold stepOf
      rw [hslot]
      rfl
    rw [hclaim, connectQuicToPeer_taken rfl]
    show (if !t.connected then _ else _ : LkTunnel × Call).1.quicRxTx = _
    split <;> exact hslot

end LkTunnel

end BaleVpn.Tunnel
