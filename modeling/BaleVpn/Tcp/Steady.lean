import BaleVpn.Tcp.Emissions

/-!
# What an emission leaves alone

Handing a segment to the callback touches four fields of the pacing state: the advertised window,
the PRR count and the RTO and tail-loss deadlines. Congestion window, SACK count and the other
timers stay, which is what decides whether the next segment may follow.
-/

namespace BaleVpn.Tcp

open Net

/-- The pacing state but for what an emission may write. -/
def Pacing.steady (p : Pacing) : Pacing :=
  { p with advWnd := 0, prrOut := 0, rtoDeadlineMs := 0, tlpDeadlineMs := 0 }

theorem countPrr_steady (c : Ctx) (payload : Bytes) :
    (c.countPrr payload).s.toPacing.steady = c.s.toPacing.steady := by
  unfold Ctx.countPrr
  split <;> rfl

theorem armIfIdle_steady (c : Ctx) (now : UInt32) :
    (c.armIfIdle now).s.toPacing.steady = c.s.toPacing.steady := by
  unfold Ctx.armIfIdle
  split <;> rfl

theorem armTlp_steady (c : Ctx) (flags : UInt8) (now : UInt32) :
    (c.armTlp flags now).s.toPacing.steady = c.s.toPacing.steady := by
  unfold Ctx.armTlp TcpSession.scheduleTlp
  split
  · split <;> rfl
  · rfl

theorem recordForRetx_steady (c : Ctx) (flags : UInt8) (seq : UInt32) (payload options : Bytes) :
    (c.recordForRetx flags seq payload options).s.toPacing.steady = c.s.toPacing.steady := by
  unfold Ctx.recordForRetx
  simp only
  rw [armTlp_steady, armIfIdle_steady]
  rfl

/-! ## The queue -/

theorem countPrr_retx (c : Ctx) (payload : Bytes) : (c.countPrr payload).s.retx = c.s.retx := by
  unfold Ctx.countPrr
  split <;> rfl

theorem armIfIdle_retx (c : Ctx) (now : UInt32) : (c.armIfIdle now).s.retx = c.s.retx := by
  unfold Ctx.armIfIdle
  split <;> rfl

theorem armTlp_retx (c : Ctx) (flags : UInt8) (now : UInt32) :
    (c.armTlp flags now).s.retx = c.s.retx := by
  unfold Ctx.armTlp TcpSession.scheduleTlp
  split
  · split <;> rfl
  · rfl

/-- The entry of a segment just sent at `now`. -/
def OutSeg.sentAt (seq : UInt32) (flags : UInt8) (data options : Bytes) (now : UInt32) : OutSeg :=
  { seq, flags, sentMs := now, retransmitted := false, sacked := false, data, options }

theorem recordForRetx_retx (c : Ctx) (flags : UInt8) (seq : UInt32) (payload options : Bytes) :
    (c.recordForRetx flags seq payload options).s.retx =
      c.s.retx ++ [.sentAt seq flags payload options c.nowMs.1] := by
  unfold Ctx.recordForRetx
  simp only
  rw [armTlp_retx, armIfIdle_retx]
  rfl

/-! ## Emission -/

/-- What an emission leaves: the pacing state is steady, the callback's answer decides, and a
recorded segment joins the queue as it is. -/
structure EmitFrame (c : Ctx) (flags : UInt8) (seq : UInt32) (payload options : Bytes)
    (record : Bool) (r : Bool × Ctx) : Prop where
  steady : r.2.s.toPacing.steady = c.s.toPacing.steady
  retx : (r.1 && record) = false → r.2.s.retx = c.s.retx
  recorded : (r.1 && record) = true →
    ∃ now, r.2.s.retx = c.s.retx ++ [.sentAt seq flags payload options now]
  answer : r.1 = true ∨ c.io.oracle.accept c.io.emits = false ∨
    ∃ s b, Framed c.s.core flags seq payload options s b ∧ buildTcp 1564 b = none

theorem emitSegment_frame (c : Ctx) (cause : Cause) (flags : UInt8) (seq : UInt32)
    (payload : Bytes) (record : Bool) (options : Bytes) :
    EmitFrame c flags seq payload options record
      (c.emitSegment cause flags seq payload record options) := by
  obtain ⟨ts, n, hts, hcomb⟩ := combineOptions_spec c flags options
  obtain ⟨s, hsd⟩ : ∃ s, c.s.advertise (c.s.wireWindow flags c.io.oracle.rwndScale) = s := ⟨_, rfl⟩
  have hs : s = c.s.withAdv s.advWnd := by rw [← hsd]; exact advertise_eq _ _
  have hcore : s.core = c.s.core := by rw [hs]; rfl
  have hrcv : c.s.core.recv.rcvNxt = s.rcvNxt := by rw [hs]; rfl
  have hsteady : s.toPacing.steady = c.s.toPacing.steady := by rw [hs]; rfl
  have hretx : s.retx = c.s.retx := by rw [hs]; rfl
  obtain ⟨b, hbd⟩ : ∃ b, s.header flags seq s.rcvNxt s.advWnd.toUInt16 (options ++ ts) payload = b :=
    ⟨_, rfl⟩
  unfold Ctx.emitSegment
  simp only [hcomb, hsd, hbd]
  cases hb : buildTcp 1564 b with
  | none =>
    exact ⟨hsteady, fun _ => hretx, fun h => (by cases h),
      .inr (.inr ⟨s, b, ⟨hcore, ts, hts, by rw [hrcv, hbd]⟩, hb⟩)⟩
  | some pkt =>
    simp only [Ctx.emit, Ctx.log]
    by_cases hok : c.io.oracle.accept c.io.emits = true
    · simp only [hok, Bool.not_true, Bool.false_eq_true, if_false]
      obtain ⟨c₁, hc₁⟩ : ∃ c₁ : Ctx, c₁ = ⟨s, ⟨c.io.oracle, n, c.io.emits + 1,
        c.io.trace ++ [.emit cause s b pkt true]⟩⟩ := ⟨_, rfl⟩
      have hs₁ : c₁.s = s := by rw [hc₁]
      rw [← hc₁]
      cases record with
      | false =>
        simp only [Bool.false_eq_true, if_false]
        exact ⟨by rw [countPrr_steady, hs₁, hsteady], fun _ => by rw [countPrr_retx, hs₁, hretx],
          fun h => (by cases h), .inl rfl⟩
      | true =>
        simp only [if_true]
        have happend := recordForRetx_retx (c₁.countPrr payload) flags seq payload options
        rw [countPrr_retx, hs₁, hretx] at happend
        exact ⟨by rw [recordForRetx_steady, countPrr_steady, hs₁, hsteady], fun h => (by cases h),
          fun _ => ⟨_, happend⟩, .inl rfl⟩
    · rw [Bool.not_eq_true] at hok
      simp only [hok, Bool.not_false, if_true]
      exact ⟨hsteady, fun _ => hretx, fun h => (by cases h), .inr (.inl hok)⟩

theorem emitSegment_taken (c : Ctx) (cause : Cause) (flags : UInt8) (seq : UInt32) (payload : Bytes)
    (hkey : c.s.key.IsV4) (hlen : payload.length ≤ 1500)
    (hacc : ∀ n, c.io.oracle.accept n = true) :
    (c.emitSegment cause flags seq payload true []).1 = true := by
  obtain h | h | ⟨s, b, hf, hb⟩ := (emitSegment_frame c cause flags seq payload true []).answer
  · exact h
  · rw [hacc] at h
    cases h
  · obtain ⟨pkt, hpkt⟩ := hf.builds hkey rfl (by simpa using hlen)
    rw [hb] at hpkt
    cases hpkt

/-- The view after a first transmission that the callback took. -/
def View.sendChunk (v : View) (a : Action) (chunk : ℕ) (d : UInt32) : View :=
  { v with
    send.sndNxt := v.send.sndNxt + chunk.toUInt32
    send.toClientOff := v.send.toClientOff + chunk
    queue := v.queue ++ [.fresh v.send.sndNxt (TCP_ACK ||| TCP_PSH) (v.send.next chunk) []]
    rto := armedRto v.rto d
    trace := v.trace ++ a :: armActs v.rto d }

theorem sendChunk_taken (c : Ctx) (cause : Cause) (chunk : ℕ) (hkey : c.s.key.IsV4)
    (hlen : chunk ≤ 1500) (hacc : ∀ n, c.io.oracle.accept n = true) :
    (c.sendChunk cause chunk).1 = true ∧
      (c.sendChunk cause chunk).2.s.toPacing.steady = c.s.toPacing.steady ∧
      (∃ now, (c.sendChunk cause chunk).2.s.retx = c.s.retx ++
        [.sentAt c.s.sndNxt (TCP_ACK ||| TCP_PSH) (c.s.toSendVars.next chunk) [] now]) ∧
      ∃ s b pkt d,
        Framed c.s.core (TCP_ACK ||| TCP_PSH) c.s.sndNxt (c.s.toSendVars.next chunk) [] s b ∧
        (c.sendChunk cause chunk).2.view = c.view.sendChunk (.emit cause s b pkt true) chunk d := by
  have hnext : (c.s.toSendVars.next chunk).length ≤ 1500 :=
    Nat.le_trans (List.length_take_le _ _) hlen
  have htaken := emitSegment_taken c cause (TCP_ACK ||| TCP_PSH) c.s.sndNxt _ hkey hnext hacc
  have hframe := emitSegment_frame c cause (TCP_ACK ||| TCP_PSH) c.s.sndNxt
    (c.s.toSendVars.next chunk) true []
  obtain ⟨s, b, -, hf, hem⟩ := emitSegment_emitted c cause (TCP_ACK ||| TCP_PSH) c.s.sndNxt
    (c.s.toSendVars.next chunk) true []
  unfold Ctx.sendChunk
  rcases hr : c.emitSegment cause (TCP_ACK ||| TCP_PSH) c.s.sndNxt (c.s.toSendVars.next chunk)
    true [] with ⟨ok, c'⟩
  simp only [hr] at htaken hframe hem ⊢
  subst htaken
  simp only [if_true]
  refine ⟨trivial, hframe.steady, hframe.recorded rfl, ?_⟩
  have hview : ({ c' with
      s.sndNxt := c'.s.sndNxt + chunk.toUInt32
      s.toClientOff := c'.s.toClientOff + chunk } : Ctx).view =
      { c'.view with
        send.sndNxt := c'.view.send.sndNxt + chunk.toUInt32
        send.toClientOff := c'.view.send.toClientOff + chunk } := rfl
  rw [hview]
  generalize c'.view = v' at hem ⊢
  cases hem with
  | passed _ h => cases h
  | @recorded pkt d hb _ =>
    refine ⟨s, b, pkt, d, hf, ?_⟩
    unfold View.sendChunk
    rw [List.append_cons c.view.trace (.emit cause s b pkt true) (armActs c.view.rto d)]
    rfl

end BaleVpn.Tcp
