import BaleVpn.Tcp.SeqArith
import BaleVpn.Tcp.Stages

/-!
# The advertised window

The window field of an outgoing segment promises no more than the receive space of that moment, shifted
and throttled, whatever was advertised before: silly-window avoidance only ever keeps a smaller value.
-/

namespace BaleVpn.Tcp

open Net Lib Relation

/-! ## The field -/

/-- What the receive window leaves beside the buffered bytes. -/
def TcpSession.freeSpace (s : TcpSession) : ℕ := s.rcvWnd.toNat - s.buffered

/-- The window `w` of a segment with `flags` promises no more than there is. -/
structure Honest (s : TcpSession) (flags : UInt8) (scale w : UInt16) : Prop where
  fits : w.toNat * 2 ^ s.ownWscale.toNat ≤ s.freeSpace
  throttled : w.toNat ≤ (s.freeSpace >>> s.ownWscale.toNat) * scale.toNat / 1000
  shut : s.freeSpace >>> s.ownWscale.toNat = 0 ∨ scale = 0 → w = 0
  sws : w.toUInt32 ≤ s.wireWindow flags scale

theorem honest_zero (s : TcpSession) (flags : UInt8) (scale : UInt16) : Honest s flags scale 0 := by
  refine ⟨?_, Nat.zero_le _, fun _ => rfl, ?_⟩
  · rw [UInt16.toNat_zero, Nat.zero_mul]
    exact Nat.zero_le _
  · rw [UInt32.le_iff_toNat_le]
    exact Nat.zero_le _

theorem avail_toNat (s : TcpSession) (hb : s.buffered < 2 ^ 32) :
    (if s.buffered.toUInt32 ≥ s.rcvWnd then 0 else s.rcvWnd - s.buffered.toUInt32).toNat = s.freeSpace := by
  have hcast : s.buffered.toUInt32.toNat = s.buffered := Nat.mod_eq_of_lt hb
  unfold TcpSession.freeSpace
  split
  · rename_i hge
    rw [ge_iff_le, UInt32.le_iff_toNat_le, hcast] at hge
    rw [UInt32.toNat_zero]
    omega
  · rename_i hlt
    rw [ge_iff_le, UInt32.le_iff_toNat_le, hcast, not_le] at hlt
    rw [UInt32.toNat_sub_of_le _ _ (UInt32.le_iff_toNat_le.mpr (by omega)), hcast]

theorem wireWindow_le (s : TcpSession) {flags : UInt8} (hsyn : hasFlag flags TCP_SYN = false) (scale : UInt16)
    (hb : s.buffered < 2 ^ 32) (hk : s.ownWscale.toNat < 32) :
    (s.wireWindow flags scale).toNat ≤ s.freeSpace >>> s.ownWscale.toNat ∧
      (s.wireWindow flags scale).toNat ≤ (s.freeSpace >>> s.ownWscale.toNat) * scale.toNat / 1000 := by
  have havail := avail_toNat s hb
  unfold TcpSession.wireWindow
  simp only [hsyn, Bool.false_eq_true, if_false, Bool.false_or]
  generalize (if s.buffered.toUInt32 ≥ s.rcvWnd then 0 else s.rcvWnd - s.buffered.toUInt32) = avail
    at havail ⊢
  have hshift : (avail >>> s.ownWscale.toUInt32).toNat = s.freeSpace >>> s.ownWscale.toNat := by
    rw [UInt32.toNat_shiftRight, UInt8.toNat_toUInt32, Nat.mod_eq_of_lt hk, havail]
  generalize avail >>> s.ownWscale.toUInt32 = scaled at hshift ⊢
  rw [← hshift, uint32_toNat_min]
  have hfull : globalRwndScaleFull.toNat = 1000 := rfl
  split
  · rename_i hscale
    rw [decide_eq_true_eq, ge_iff_le, UInt16.le_iff_toNat_le, hfull] at hscale
    have hmul : scaled.toNat * 1000 ≤ scaled.toNat * scale.toNat := Nat.mul_le_mul_left _ hscale
    have hdiv := (Nat.le_div_iff_mul_le (show 0 < 1000 by omega)).mpr hmul
    omega
  · rename_i hscale
    rw [decide_eq_true_eq, ge_iff_le, UInt16.le_iff_toNat_le, hfull, not_le] at hscale
    rw [hfull]
    have hmul : scaled.toNat * scale.toNat ≤ scaled.toNat * 1000 := Nat.mul_le_mul_left _ (by omega)
    have hdiv : scaled.toNat * scale.toNat / 1000 ≤ scaled.toNat :=
      Nat.div_le_of_le_mul (by rw [Nat.mul_comm 1000]; exact hmul)
    have hcast : (scaled.toNat * scale.toNat / 1000).toUInt32.toNat =
        scaled.toNat * scale.toNat / 1000 := by
      have := scaled.toNat_lt
      exact Nat.mod_eq_of_lt (by omega)
    rw [hcast]
    omega

theorem honest_of_le {s : TcpSession} {flags : UInt8} (hsyn : hasFlag flags TCP_SYN = false)
    {scale w : UInt16} (hb : s.buffered < 2 ^ 32) (hk : s.ownWscale.toNat < 32)
    (hw : w.toUInt32 ≤ s.wireWindow flags scale) : Honest s flags scale w := by
  obtain ⟨hspace, hthrottled⟩ := wireWindow_le s hsyn scale hb hk
  have hle := UInt32.le_iff_toNat_le.mp hw
  rw [UInt16.toNat_toUInt32] at hle
  refine ⟨?_, Nat.le_trans hle hthrottled, ?_, hw⟩
  · have hshift := Nat.le_trans hle hspace
    rw [Nat.shiftRight_eq_div_pow] at hshift
    exact (Nat.le_div_iff_mul_le (Nat.two_pow_pos _)).mp hshift
  · intro hshut
    have hzero : (s.freeSpace >>> s.ownWscale.toNat) * scale.toNat / 1000 = 0 := by
      obtain hnone | rfl := hshut
      · rw [hnone, Nat.zero_mul, Nat.zero_div]
      · rw [UInt16.toNat_zero, Nat.mul_zero, Nat.zero_div]
    apply UInt16.toNat_inj.mp
    rw [UInt16.toNat_zero]
    omega

theorem advertise_le (s : TcpSession) (w : UInt32) : (s.advertise w).advWnd ≤ w := by
  unfold TcpSession.advertise
  split
  · exact UInt32.le_refl w
  · rename_i hkeep
    simp only [Bool.or_eq_true, decide_eq_true_eq, not_or] at hkeep
    exact UInt32.not_lt.mp hkeep.1.2

theorem wireWindow_le_max (s : TcpSession) (flags : UInt8) (scale : UInt16) :
    (s.wireWindow flags scale).toNat ≤ 65535 := by
  have hcap : (0xFFFF : UInt32).toNat = 65535 := rfl
  unfold TcpSession.wireWindow
  simp only
  rw [uint32_toNat_min]
  omega

theorem framing_honest (c : Ctx) {flags : UInt8} (hsyn : hasFlag flags TCP_SYN = false)
    (hb : (c.framing flags).buffered < 2 ^ 32) (hk : c.s.ownWscale.toNat < 32) :
    Honest (c.framing flags) flags c.io.oracle.rwndScale (c.framing flags).advWnd.toUInt16 := by
  have hadv : c.framing flags = c.s.withAdv (c.framing flags).advWnd := advertise_eq _ _
  have hle : (c.framing flags).advWnd ≤ c.s.wireWindow flags c.io.oracle.rwndScale := advertise_le _ _
  have hmax := wireWindow_le_max c.s flags c.io.oracle.rwndScale
  have hwire : (c.framing flags).wireWindow flags c.io.oracle.rwndScale =
      c.s.wireWindow flags c.io.oracle.rwndScale := by
    rw [hadv]
    rfl
  have hscale : (c.framing flags).ownWscale = c.s.ownWscale := by
    rw [hadv]
    rfl
  refine honest_of_le hsyn hb (by rwa [hscale]) ?_
  rw [hwire]
  rw [UInt32.le_iff_toNat_le] at hle ⊢
  rw [UInt16.toNat_toUInt32, UInt32.toNat_toUInt16]
  omega

/-! ## Runs -/

/-- Every segment but a SYN is emitted with an honest window. -/
def Action.HonestAt (scale : UInt16) : Action → Prop
  | .emit _ s b _ _ => hasFlag b.flags TCP_SYN = false → s.buffered < 2 ^ 32 →
    Honest s b.flags scale b.window
  | _ => True

/-- An event under way, since the trace was `t`. -/
structure Advertises (scale : UInt16) (t : List Action) (c : Ctx) : Prop where
  peer : c.s.toPeerOpts.Ok
  oracle : c.io.oracle.rwndScale = scale
  adds : Adds t c.io.trace (Action.HonestAt scale)

theorem PeerOpts.Ok.shift {p : PeerOpts} (h : p.Ok) : p.ownWscale.toNat < 32 := by
  rw [h.wscale]
  split <;> decide

theorem Effect.advertises {scale : UInt16} {t : List Action} {st : Stage} {c c' : Ctx} (h : Effect st c c')
    (hc : Advertises scale t c) : Advertises scale t c' := by
  have hfix := h.fixed
  refine ⟨by rw [hfix.peer]; exact hc.peer, hfix.scale.trans hc.oracle, hc.adds.trans ?_⟩
  refine h.adds.mono fun a ha => ?_
  obtain hless | ⟨cause, flags, seq, payload, options, -, hhands⟩ := ha
  · cases a with
    | emit cause s b pkt ok =>
      intro _ _
      rw [hless.2]
      exact honest_zero _ _ _
    | _ => trivial
  · cases hhands with
    | segment ts pkt ok =>
      intro hsyn hb
      have hhonest := framing_honest c hsyn hb hc.peer.shift
      rw [hc.oracle] at hhonest
      exact hhonest
    | arm d => trivial

theorem SackEffect.advertises {scale : UInt16} {t : List Action} {c c' : Ctx} (h : SackEffect c c')
    (hc : Advertises scale t c) : Advertises scale t c' := by
  cases h with
  | pace p _ => exact ⟨hc.peer, hc.oracle, hc.adds⟩
  | block _ => exact ⟨hc.peer, hc.oracle, hc.adds⟩

theorem EventStages.advertises {c c' : Ctx} {ev : Event} (h : EventStages c ev c')
    (hpeer : c.s.toPeerOpts.Ok) : Advertises c.io.oracle.rwndScale c.io.trace c' :=
  h.invariant (fun _ _ _ heff => heff.advertises) (fun _ _ heff => heff.advertises) ⟨hpeer, rfl, .none⟩

theorem Accepted.peerOk {key : FlowKey} {c₀ : Ctx} (h : Accepted key c₀) : c₀.s.toPeerOpts.Ok := by
  obtain ⟨c, hc, heff⟩ := h.effects
  rw [heff.fixed.peer]
  exact hc.peer

theorem peerOk_run {key : FlowKey} {c₀ : Ctx} (h₀ : Accepted key c₀) (inputs : List Input) :
    (c₀.run inputs).s.toPeerOpts.Ok := by
  refine run_stages (P := fun c => c.s.toPeerOpts.Ok) (Q := fun _ _ => True) h₀.peerOk ?_
    (each_const.mpr fun _ _ => trivial)
  intro c i _ hstages _ hc
  have hload : (c.load i.oracle).s.toPeerOpts.Ok := hc
  exact (hstages.advertises hload).peer

theorem Started.honest {key : FlowKey} {v : View} (h : Started key v) (scale : UInt16) :
    ∀ a ∈ v.trace, a.HonestAt scale := by
  have hsyn : ∀ {isn rcv wnd : UInt32} {peer : PeerOpts} {opts : Bytes} {s : TcpSession} {b : TcpBuild},
      Framed (synCore key isn rcv wnd peer) (TCP_SYN ||| TCP_ACK) isn [] opts s b → ∀ pkt ok,
        (Action.emit .synAck s b pkt ok).HonestAt scale := by
    rintro isn rcv wnd peer opts s b ⟨-, ts, -, rfl⟩ pkt ok hno
    have hflags : hasFlag (TCP_SYN ||| TCP_ACK) TCP_SYN = false := hno
    exact absurd hflags (by decide)
  intro a ha
  cases h with
  | lost acts d hp ho hf hacts =>
    obtain ⟨-, rfl⟩ | ⟨pkt, -, rfl⟩ := hacts
    · obtain rfl := List.mem_singleton.mp ha
      trivial
    · simp only [List.cons_append, List.nil_append, List.mem_cons, List.not_mem_nil, or_false] at ha
      obtain rfl | rfl := ha
      · exact hsyn hf pkt false
      · trivial
  | @sent _ _ _ _ _ _ _ pkt d d' hp ho hf hb =>
    simp only [List.mem_cons, List.not_mem_nil, or_false] at ha
    obtain rfl | rfl | rfl := ha
    · exact hsyn hf pkt true
    · trivial
    · trivial

/-- Every segment but a SYN that a run emits advertises no more than the space of that moment. -/
theorem window_honest {key : FlowKey} {c₀ : Ctx} (h₀ : Accepted key c₀) (inputs : List Input) :
    (∀ a ∈ c₀.io.trace, ∀ scale, a.HonestAt scale) ∧
      Each (fun pre i => ∀ a ∈ newActs (c₀.run pre) ((c₀.run pre).step i), a.HonestAt i.oracle.rwndScale)
        inputs := by
  refine ⟨fun a ha scale => h₀.started.honest scale a ha, ?_⟩
  rintro pre i post rfl a ha
  have hpeer := peerOk_run h₀ pre
  generalize c₀.run pre = c at ha hpeer
  by_cases hclosed : c.s.state = .closed
  · rw [newActs_closed hclosed] at ha
    cases ha
  · have hload : (c.load i.oracle).s.toPeerOpts.Ok := hpeer
    obtain ⟨acts, hacts, hall⟩ := ((step_stages hclosed i).advertises hload).adds
    rw [newActs_append (c := c) hacts] at ha
    exact hall a ha

/-- A byte from the client, acknowledged while the dispatcher halves the windows. -/
def throttledUpload : Input :=
  ⟨.segment (clientSegment sampleKey (TCP_ACK ||| TCP_PSH) 101 1 1000 [] [7]), { rwndScale := 500 }⟩

theorem window_honest_throttled :
    (∀ a ∈ (sampleStart 1000 [3, 3, 7]).io.trace, ∀ scale, a.HonestAt scale) ∧
      Each (fun pre i => ∀ a ∈ newActs ((sampleStart 1000 [3, 3, 7]).run pre)
        (((sampleStart 1000 [3, 3, 7]).run pre).step i), a.HonestAt i.oracle.rwndScale)
          [sampleAck 1000, throttledUpload] :=
  window_honest (sampleStart_accepted _ _ (by decide)) _

end BaleVpn.Tcp
