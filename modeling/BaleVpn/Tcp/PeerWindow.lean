import BaleVpn.Tcp.Emissions
import BaleVpn.Tcp.SeqArith

/-!
# The peer's receive window

New data leaves the session through `try_segment_and_emit`, which bounds `pipe` by the window, and
through Limited Transmit, which bounds `flight` by it. SACKed bytes are in `flight` but not in
`pipe`, so only the second bound is the peer's.
-/

namespace BaleVpn.Tcp

open Net

/-- The segment ends at or before `snd_una + snd_wnd`. -/
def FitsPeerWindow (s : TcpSession) (b : TcpBuild) : Prop :=
  (b.seq - s.sndUna).toNat + b.payload.length ≤ s.sndWnd.toNat

instance (s : TcpSession) (b : TcpBuild) : Decidable (FitsPeerWindow s b) :=
  inferInstanceAs (Decidable (_ ≤ _))

/-- Limited Transmit, or a next segment that fits behind the bytes in flight, or an effective window
that the SACKed bytes in flight do not carry past the peer's. -/
def WindowSafe (cause : Cause) (s : TcpSession) : Prop :=
  cause = .limitedTransmit ∨
    s.flight.toNat + min s.peerMss.toNat s.pending ≤ s.sndWnd.toNat ∨
    (s.flight.toNat ≤ s.sndWnd.toNat ∧
      (min s.sndWnd s.cwnd).toNat + min s.sackedBytes.toNat s.flight.toNat ≤ s.sndWnd.toNat)

instance (cause : Cause) (s : TcpSession) : Decidable (WindowSafe cause s) :=
  inferInstanceAs (Decidable (_ ∨ _))

theorem pipe_toNat (s : TcpSession) :
    s.pipe.toNat = s.flight.toNat - min s.sackedBytes.toNat s.flight.toNat := by
  unfold TcpSession.pipe
  split
  · rename_i h
    rw [gt_iff_lt, UInt32.lt_iff_toNat_lt] at h
    rw [UInt32.toNat_sub_of_le _ _ (UInt32.le_iff_toNat_le.mpr (Nat.le_of_lt h))]
    omega
  · rename_i h
    rw [gt_iff_lt, UInt32.lt_iff_toNat_lt] at h
    simp only [UInt32.toNat_zero]
    omega

theorem data_fits_iff {s : TcpSession} {chunk : ℕ} (h : ChunkOf .data s chunk) :
    s.flight.toNat + chunk ≤ s.sndWnd.toNat ↔ WindowSafe .data s := by
  obtain ⟨hpos, hpipe, hchunk⟩ := h
  have hp := pipe_toNat s
  have hlt := UInt32.lt_iff_toNat_lt.mp hpipe
  have hsub := UInt32.toNat_sub_of_le _ _ (UInt32.le_iff_toNat_le.mpr (Nat.le_of_lt hlt))
  have hmin := uint32_toNat_min s.sndWnd s.cwnd
  unfold WindowSafe
  rw [hsub] at hchunk
  simp only [reduceCtorEq, false_or]
  omega

theorem limited_fits {s : TcpSession} {chunk : ℕ} (h : ChunkOf .limitedTransmit s chunk) :
    s.flight.toNat + chunk ≤ s.sndWnd.toNat := by
  obtain ⟨hpos, hwnd, hchunk⟩ := h
  have hlt := UInt32.lt_iff_toNat_lt.mp hwnd
  have hsub := UInt32.toNat_sub_of_le _ _ (UInt32.le_iff_toNat_le.mpr (Nat.le_of_lt hlt))
  rw [hsub] at hchunk
  omega

/-- In every run, a first transmission ends within the peer's window exactly when the state it left
from is safe. -/
theorem first_transmission_fits_iff {key : FlowKey} {c : Ctx} (h : Reachable key c)
    {cause : Cause} {s : TcpSession} {b : TcpBuild} {pkt : Bytes} {ok : Bool}
    (ha : .emit cause s b pkt ok ∈ c.io.trace) (hfirst : cause.isFirst = true) :
    FitsPeerWindow s b ↔ WindowSafe cause s := by
  obtain ⟨hem, -⟩ := emission_of_reachable h _ ha
  cases hem with
  | @data _ chunk hk hf =>
    obtain ⟨ts, -, rfl⟩ := hf
    have hlen := next_length hk
    unfold FitsPeerWindow
    show (s.sndNxt - s.sndUna).toNat + (s.toSendVars.next chunk).length ≤ s.sndWnd.toNat ↔ _
    rw [hlen]
    cases cause with
    | data => exact data_fits_iff hk
    | limitedTransmit => exact iff_of_true (limited_fits hk) (.inl rfl)
    | _ => cases hfirst
  | ack hc _ => obtain rfl | rfl := hc <;> cases hfirst
  | retx hc _ _ =>
    cases cause with
    | data => cases hc
    | limitedTransmit => cases hc
    | _ => cases hfirst
  | _ => cases hfirst

/-- A client with a 10-byte window and MSS 4 SACKs the second of three segments. -/
def sackedRun : List Input :=
  [sampleAck 10,
    ⟨.host { isReadable := true }, { reads := [.ok (List.replicate 20 7)] }⟩,
    ⟨.segment (clientSegment sampleKey TCP_ACK 101 1 10 ([1, 1, 5, 10] ++ putBe32 5 ++ putBe32 9) []),
      {}⟩]

def sackedState : Ctx := (sampleStart 10 [2, 4, 0, 4, 4, 2, 1, 1]).run sackedRun

theorem sackedState_reachable : Reachable sampleKey sackedState :=
  (sampleStart_accepted _ _ (by decide)).reachable _

/-- A first transmission past the window. -/
def Action.overruns : Action → Bool
  | .emit cause s b _ _ => cause.isFirst && !decide (FitsPeerWindow s b)
  | _ => false

theorem peer_window_overrun :
    ¬ ∀ (key : FlowKey) (c : Ctx), Reachable key c → ∀ cause s b pkt ok,
      .emit cause s b pkt ok ∈ c.io.trace → cause.isFirst = true → FitsPeerWindow s b := by
  intro hall
  have hany : sackedState.io.trace.any Action.overruns = true := by decide +kernel
  obtain ⟨a, ha, hover⟩ := List.any_eq_true.mp hany
  cases a with
  | emit cause s b pkt ok =>
    simp only [Action.overruns, Bool.and_eq_true, Bool.not_eq_true', decide_eq_false_iff_not]
      at hover
    exact hover.2 (hall _ _ sackedState_reachable cause s b pkt ok ha hover.1)
  | _ => cases hover

/-- A first transmission of the same run that stays inside. -/
def Action.fits : Action → Bool
  | .emit cause s b _ _ => cause.isFirst && decide (FitsPeerWindow s b)
  | _ => false

theorem first_transmission_fits_sample : ∃ cause s b pkt ok,
    .emit cause s b pkt ok ∈ sackedState.io.trace ∧ cause.isFirst = true ∧ FitsPeerWindow s b ∧
      (FitsPeerWindow s b ↔ WindowSafe cause s) := by
  have hany : sackedState.io.trace.any Action.fits = true := by decide +kernel
  obtain ⟨a, ha, hfit⟩ := List.any_eq_true.mp hany
  cases a with
  | emit cause s b pkt ok =>
    simp only [Action.fits, Bool.and_eq_true, decide_eq_true_eq] at hfit
    exact ⟨cause, s, b, pkt, ok, ha, hfit.1, hfit.2,
      first_transmission_fits_iff sackedState_reachable ha hfit.1⟩
  | _ => cases hfit

end BaleVpn.Tcp
