import BaleVpn.Tcp.View

/-!
# The session refines the abstract session: the sender

Every emission, the whole of ACK processing and the timers other than the RTO's last retry are paths
of `Sender` steps between the views before and after.
-/

namespace BaleVpn.Tcp

open Net Relation

/-! ## Emission -/

theorem combineOptions_spec (c : Ctx) (flags : UInt8) (options : Bytes) :
    ∃ ts n, TsBytes c.s.toPeerOpts flags ts ∧
      c.combineOptions flags options = (options ++ ts, { c with io.readings := n }) := by
  unfold Ctx.combineOptions TsBytes
  split
  · exact ⟨_, c.io.readings + 1, ⟨_, _, rfl⟩, rfl⟩
  · exact ⟨[], c.io.readings, rfl, by simp⟩

/-- The session with another advertised window. -/
def TcpSession.withAdv (s : TcpSession) (w : UInt32) : TcpSession := { s with advWnd := w }

theorem advertise_eq (s : TcpSession) (w : UInt32) :
    s.advertise w = s.withAdv (s.advertise w).advWnd := by
  unfold TcpSession.advertise TcpSession.withAdv
  split <;> rfl

theorem view_congr (c : Ctx) {s : TcpSession} (hc : s.core = c.s.core)
    (hr : s.rtoDeadlineMs = c.s.rtoDeadlineMs) : ({ c with s := s } : Ctx).view = c.view := by
  simp only [Ctx.view, hc, hr]

theorem nowMs_view (c : Ctx) : c.nowMs.2.view = c.view := rfl

theorem scheduleRto_view (c : Ctx) (now : UInt32) :
    (c.scheduleRto now).view = { c.view with
      rto := now + c.s.rtoMs
      trace := c.view.trace ++ [.armRto (now + c.s.rtoMs)] } := rfl

theorem armIfIdle_view (c : Ctx) (now : UInt32) :
    (c.armIfIdle now).view = { c.view with
      rto := armedRto c.view.rto (now + c.s.rtoMs)
      trace := c.view.trace ++ armActs c.view.rto (now + c.s.rtoMs) } := by
  unfold Ctx.armIfIdle armedRto armActs
  by_cases hr : c.s.rtoDeadlineMs = 0
  · have hv : c.view.rto = 0 := hr
    simp only [hr, hv, beq_self_eq_true, if_true]
    exact scheduleRto_view c now
  · have hv : c.view.rto ≠ 0 := hr
    simp only [beq_iff_eq, hr, hv, if_false, List.append_nil]

theorem armTlp_view (c : Ctx) (flags : UInt8) (now : UInt32) : (c.armTlp flags now).view = c.view := by
  unfold Ctx.armTlp TcpSession.scheduleTlp
  split
  · split <;> rfl
  · rfl

theorem countPrr_view (c : Ctx) (payload : Bytes) : (c.countPrr payload).view = c.view := by
  unfold Ctx.countPrr
  split <;> rfl

theorem pushRetx_view (c : Ctx) (e : OutSeg) :
    (c.pushRetx e).view = { c.view with queue := c.view.queue ++ [e.core] } := by
  simp only [Ctx.pushRetx, Ctx.view, TcpSession.core, List.map_append, List.map_cons, List.map_nil]

/-- A view with a new entry at the end of the queue. -/
def View.record (v : View) (e : OutSeg) (d : UInt32) : View :=
  { v with queue := v.queue ++ [e], rto := armedRto v.rto d, trace := v.trace ++ armActs v.rto d }

theorem recordForRetx_view (c : Ctx) (flags : UInt8) (seq : UInt32) (payload options : Bytes) :
    ∃ d, (c.recordForRetx flags seq payload options).view =
      c.view.record (.fresh seq flags payload options) d := by
  let e : OutSeg :=
    { seq, flags, sentMs := c.nowMs.1, retransmitted := false, sacked := false, data := payload,
      options }
  let c₁ := (c.nowMs.2).pushRetx e
  refine ⟨c₁.nowMs.1 + c₁.s.rtoMs, ?_⟩
  show ((c₁.nowMs.2.armIfIdle c₁.nowMs.1).armTlp flags c₁.nowMs.1).view = _
  rw [armTlp_view, armIfIdle_view, nowMs_view, pushRetx_view, nowMs_view]
  rfl

/-- What `emit_segment` can do, with its result and the view it leaves. -/
inductive Emitted (c : Ctx) (cause : Cause) (flags : UInt8) (seq : UInt32) (payload : Bytes)
    (record : Bool) (options : Bytes) (s : TcpSession) (b : TcpBuild) : Bool → View → Prop
  | unbuilt (hb : buildTcp 1564 b = none) :
      Emitted c cause flags seq payload record options s b false c.view
  | refused {pkt : Bytes} (hb : buildTcp 1564 b = some pkt) :
      Emitted c cause flags seq payload record options s b false
        { c.view with trace := c.view.trace ++ [.emit cause s b pkt false] }
  | passed {pkt : Bytes} (hb : buildTcp 1564 b = some pkt) (hr : record = false) :
      Emitted c cause flags seq payload record options s b true
        { c.view with trace := c.view.trace ++ [.emit cause s b pkt true] }
  | recorded {pkt : Bytes} (d : UInt32) (hb : buildTcp 1564 b = some pkt) (hr : record = true) :
      Emitted c cause flags seq payload record options s b true
        (View.record { c.view with trace := c.view.trace ++ [.emit cause s b pkt true] }
          (.fresh seq flags payload options) d)

theorem emitSegment_emitted (c : Ctx) (cause : Cause) (flags : UInt8) (seq : UInt32)
    (payload : Bytes) (record : Bool) (options : Bytes) :
    ∃ s b, s = c.s.withAdv s.advWnd ∧ Framed c.s.core flags seq payload options s b ∧
      Emitted c cause flags seq payload record options s b
        (c.emitSegment cause flags seq payload record options).1
        (c.emitSegment cause flags seq payload record options).2.view := by
  obtain ⟨ts, n, hts, hcomb⟩ := combineOptions_spec c flags options
  obtain ⟨s, hsd⟩ : ∃ s, c.s.advertise (c.s.wireWindow flags c.io.oracle.rwndScale) = s := ⟨_, rfl⟩
  have hs : s = c.s.withAdv s.advWnd := by rw [← hsd]; exact advertise_eq _ _
  have hcore : s.core = c.s.core := by rw [hs]; rfl
  have hrcv : c.s.core.recv.rcvNxt = s.rcvNxt := by rw [hs]; rfl
  obtain ⟨b, hbd⟩ : ∃ b, s.header flags seq s.rcvNxt s.advWnd.toUInt16 (options ++ ts) payload = b :=
    ⟨_, rfl⟩
  have hview : ∀ t n' m, (Ctx.mk s ⟨c.io.oracle, n', m, t⟩).view = { c.view with trace := t } := by
    intro t n' m
    have hrto : s.rtoDeadlineMs = c.s.rtoDeadlineMs := by rw [hs]; rfl
    simp only [Ctx.view, hcore, hrto]
  refine ⟨s, b, hs, ⟨hcore, ts, hts, by rw [hrcv, hbd]⟩, ?_⟩
  unfold Ctx.emitSegment
  simp only [hcomb, hsd, hbd]
  cases hb : buildTcp 1564 b with
  | none =>
    rw [hview]
    exact .unbuilt hb
  | some pkt =>
    simp only [Ctx.emit, Ctx.log]
    by_cases hok : c.io.oracle.accept c.io.emits = true
    · simp only [hok, Bool.not_true, Bool.false_eq_true, if_false]
      cases record with
      | false =>
        simp only [Bool.false_eq_true, if_false, countPrr_view, hview]
        exact .passed hb rfl
      | true =>
        simp only [if_true]
        obtain ⟨d, hd⟩ := recordForRetx_view _ flags seq payload options
        rw [hd, countPrr_view, hview]
        exact .recorded d hb rfl
    · rw [Bool.not_eq_true] at hok
      simp only [hok, Bool.not_false, if_true, hview]
      exact .refused hb

theorem emitAck_path (c : Ctx) {cause : Cause} (hc : cause = .ack ∨ cause = .zwpProbe) :
    ResendPath c.view (c.emitAck cause).view := by
  obtain ⟨s, b, hs, hf, he⟩ :=
    emitSegment_emitted c cause TCP_ACK c.s.sndNxt [] false c.s.buildSackOption
  have hsack : c.s.buildSackOption = s.buildSackOption := by rw [hs]; rfl
  rw [show c.emitAck cause = (c.emitSegment cause TCP_ACK c.s.sndNxt [] false
    c.s.buildSackOption).2 from rfl]
  generalize c.emitSegment cause TCP_ACK c.s.sndNxt [] false c.s.buildSackOption = r at he ⊢
  obtain ⟨ok, c'⟩ := r
  rw [hsack] at hf
  generalize c'.view = v' at he ⊢
  cases he with
  | unbuilt _ => exact .refl
  | refused hb => exact .single (.ackOut c.view false hc hf hb)
  | passed hb _ => exact .single (.ackOut c.view true hc hf hb)
  | recorded _ _ hr => cases hr

/-! ## Retransmission -/

theorem map_core_set {l : List OutSeg} {i : ℕ} {e e' : OutSeg} (he : l[i]? = some e)
    (hcore : e'.core = e.core) : (l.set i e').map OutSeg.core = l.map OutSeg.core := by
  obtain ⟨hlt, rfl⟩ := List.getElem?_eq_some_iff.mp he
  rw [List.map_set, hcore, ← List.getElem_map OutSeg.core (h := by simpa using hlt)]
  exact List.set_getElem_self _

theorem retransmit_path (c : Ctx) (cause : Cause) (hc : cause.isRetx = true) (idx : ℕ)
    (now : UInt32) : ResendPath c.view (c.retransmit cause idx now).2.view := by
  unfold Ctx.retransmit
  split
  · exact .refl
  · rename_i e he
    obtain ⟨e', he'⟩ : ∃ e', { e with retransmitted := true, sentMs := now } = e' := ⟨_, rfl⟩
    have hcore : e'.core = e.core := by rw [← he']; rfl
    rw [he']
    obtain ⟨c₁, hc₁⟩ : ∃ c₁ : Ctx, { c with s.retx := c.s.retx.set idx e' } = c₁ := ⟨_, rfl⟩
    have hview : c₁.view = c.view := by
      rw [← hc₁]
      exact congrArg (fun q => { c.view with queue := q }) (map_core_set he hcore)
    have hmem : e.core ∈ c₁.view.queue := by
      rw [hview]
      exact List.mem_map_of_mem (List.mem_of_getElem? he)
    simp only [hc₁]
    obtain ⟨s, b, -, hf, hem⟩ := emitSegment_emitted c₁ cause e.flags e.seq e.data false e.options
    generalize c₁.emitSegment cause e.flags e.seq e.data false e.options = r at hem ⊢
    obtain ⟨ok, c'⟩ := r
    rw [← hview]
    generalize c'.view = v' at hem ⊢
    cases hem with
    | unbuilt _ => exact .refl
    | refused hb => exact .single (.retransmit c₁.view (e := e.core) false hc hmem hf hb)
    | passed hb _ => exact .single (.retransmit c₁.view (e := e.core) true hc hmem hf hb)
    | recorded _ _ hr => cases hr

/-! ## New data -/

/-- The outcome of `sendChunk`: a first transmission, a refusal, or a segment that did not build. -/
inductive ChunkSent (c : Ctx) (cause : Cause) (chunk : ℕ) : Bool → View → Prop
  | unbuilt {s : TcpSession} {b : TcpBuild}
      (hf : Framed c.s.core (TCP_ACK ||| TCP_PSH) c.s.sndNxt (c.s.toSendVars.next chunk) [] s b)
      (hb : buildTcp 1564 b = none) : ChunkSent c cause chunk false c.view
  | refused {s : TcpSession} {b : TcpBuild} {pkt : Bytes} (hs : s = c.s.withAdv s.advWnd)
      (h : Sender c.view { c.view with trace := c.view.trace ++ [.emit cause s b pkt false] }) :
      ChunkSent c cause chunk false
        { c.view with trace := c.view.trace ++ [.emit cause s b pkt false] }
  | sent {v : View} (hq : v.queue ≠ []) (hu : v.send.sndUna = c.s.sndUna) (h : Sender c.view v) :
      ChunkSent c cause chunk true v

theorem sendChunk_sent (c : Ctx) {cause : Cause} {chunk : ℕ} (hk : ChunkOf cause c.s chunk) :
    ChunkSent c cause chunk (c.sendChunk cause chunk).1 (c.sendChunk cause chunk).2.view := by
  obtain ⟨s, b, hs, hf, hem⟩ := emitSegment_emitted c cause (TCP_ACK ||| TCP_PSH) c.s.sndNxt
    (c.s.toSendVars.next chunk) true []
  have hk' : ChunkOf cause s chunk := by rw [hs]; exact hk
  unfold Ctx.sendChunk
  rcases h : c.emitSegment cause (TCP_ACK ||| TCP_PSH) c.s.sndNxt (c.s.toSendVars.next chunk) true []
    with ⟨ok, c'⟩
  simp only [h] at hem ⊢
  cases ok with
  | false =>
    simp only [Bool.false_eq_true, if_false]
    generalize c'.view = v' at hem ⊢
    cases hem with
    | unbuilt hb => exact .unbuilt hf hb
    | refused hb => exact .refused hs (.refuse c.view hk' hf hb)
  | true =>
    simp only [if_true]
    have hview : ({ c' with
        s.sndNxt := c'.s.sndNxt + chunk.toUInt32
        s.toClientOff := c'.s.toClientOff + chunk } : Ctx).view =
        { c'.view with
          send.sndNxt := c'.view.send.sndNxt + chunk.toUInt32
          send.toClientOff := c'.view.send.toClientOff + chunk } := rfl
    rw [hview]
    generalize c'.view = v' at hem ⊢
    cases hem with
    | passed _ hr => cases hr
    | recorded d hb _ =>
      have h := Sender.send c.view d hk' hf hb
      rw [List.append_cons c.view.trace] at h
      exact .sent (by simp [View.record]) rfl h

theorem sendChunk_path (c : Ctx) (cause : Cause) {chunk : ℕ} (hk : ChunkOf cause c.s chunk) :
    SendPath c.view (c.sendChunk cause chunk).2.view ∧
      (c.sendChunk cause chunk).2.view.send.sndUna = c.s.sndUna := by
  have h := sendChunk_sent c hk
  generalize (c.sendChunk cause chunk).1 = ok, (c.sendChunk cause chunk).2.view = v at h ⊢
  cases h with
  | unbuilt _ _ => exact ⟨.refl, rfl⟩
  | refused _ h => exact ⟨.single h, rfl⟩
  | sent _ hu h => exact ⟨.single h, hu⟩

/-- A path that leaves `snd_una` at `una`, and `snd_nxt` alone unless bytes were pending. -/
structure AckPath (v : View) (una : UInt32) (v' : View) : Prop where
  path : SendPath v v'
  una : v'.send.sndUna = una
  nxt : v.send.toClientOff < v.send.toClient.length ∨ v'.send.sndNxt = v.send.sndNxt

theorem Resend.core {v v' : View} (h : Resend v v') : v'.toCore = v.toCore := by cases h <;> rfl

theorem ResendPath.core {v v' : View} (h : ResendPath v v') : v'.toCore = v.toCore := by
  induction h with
  | refl => rfl
  | tail _ hstep ih => exact hstep.core.trans ih

theorem ResendPath.send {v v' : View} (h : ResendPath v v') : SendPath v v' :=
  ReflTransGen.mono (fun _ _ => Sender.resend) _ _ h

theorem AckPath.resend {v v' v'' : View} {una : UInt32} (h : AckPath v una v')
    (hr : ResendPath v' v'') : AckPath v una v'' where
  path := h.path.trans hr.send
  una := by rw [hr.core, h.una]
  nxt := by rw [hr.core]; exact h.nxt

theorem AckPath.refl (v : View) : AckPath v v.send.sndUna v := ⟨.refl, rfl, .inr rfl⟩

theorem limitedTransmit_path (c : Ctx) : AckPath c.view c.s.sndUna c.limitedTransmit.view := by
  unfold Ctx.limitedTransmit
  simp only
  split
  · rename_i hpending
    split
    · split
      · rename_i hwnd hchunk
        have h := sendChunk_path c .limitedTransmit ⟨hchunk, hwnd, rfl⟩
        simp only [Bool.and_eq_true, decide_eq_true_eq] at hpending
        exact ⟨h.1, h.2, .inl hpending.2⟩
      · exact .refl _
    · exact .refl _
  · exact .refl _

theorem segmentLoop_path (fuel : ℕ) : ∀ c : Ctx, SendPath c.view (Ctx.segmentLoop fuel c).view := by
  induction fuel with
  | zero => exact fun c => .refl
  | succ fuel ih =>
    intro c
    unfold Ctx.segmentLoop
    simp only [beq_iff_eq]
    split
    · split
      · exact .refl
      · rename_i hpipe
        split
        · exact .refl
        · rename_i hchunk
          have hpath := (sendChunk_path c .data
            ⟨Nat.pos_of_ne_zero hchunk, UInt32.not_le.mp hpipe, rfl⟩).1
          split
          · exact hpath.trans (ih _)
          · exact hpath
    · exact .refl

/-! ## Loss detection -/

theorem arm_path (c : Ctx) (now : UInt32) : ResendPath c.view (c.scheduleRto now).view :=
  .single (.arm c.view (now + c.s.rtoMs))

theorem ensureRecovery_view (c : Ctx) : c.ensureRecovery.view = c.view := by
  unfold Ctx.ensureRecovery
  split <;> rfl

theorem rackEmit_path (now : UInt32) (idxs : List ℕ) :
    ∀ (emitted : Bool) (c : Ctx), ResendPath c.view (Ctx.rackEmit now idxs emitted c).2.view := by
  induction idxs with
  | nil => exact fun _ _ => .refl
  | cons idx rest ih =>
    intro emitted c
    have hpath := retransmit_path c.ensureRecovery .rackRetx rfl idx now
    rw [ensureRecovery_view] at hpath
    unfold Ctx.rackEmit
    simp only
    split
    · exact hpath
    · exact hpath.trans (ih _ _)

theorem rackFinish_path (now d : UInt32) (r : Bool × Ctx) :
    ResendPath r.2.view (Ctx.rackFinish now d r).view := by
  unfold Ctx.rackFinish
  simp only
  split
  · exact arm_path _ now
  · exact .refl

theorem rackRetransmitLost_path (c : Ctx) (now : UInt32) :
    ResendPath c.view (c.rackRetransmitLost now).view :=
  (rackEmit_path now (Ctx.rackScan c.s now).1 false c).trans (rackFinish_path now _ _)

theorem rackDetectLossAndArmTimer_path (c : Ctx) (now : UInt32) :
    ResendPath c.view (c.rackDetectLossAndArmTimer now).view := by
  unfold Ctx.rackDetectLossAndArmTimer
  split
  · exact .refl
  · exact rackRetransmitLost_path { c with s.rackReoWnd := c.s.toPacing.rackComputeReoWnd } now

theorem lostRetx_path (c : Ctx) (now : UInt32) : ResendPath c.view (c.lostRetx now).view := by
  unfold Ctx.lostRetx
  simp only
  split
  · split
    · exact retransmit_path { c with s.lastHeadRetxMs := now } _ rfl 0 now
    · exact .refl
  · exact .refl

theorem fastRetransmit_path (c : Ctx) (now : UInt32) :
    ResendPath c.view (c.fastRetransmit now).view := by
  unfold Ctx.fastRetransmit
  simp only
  split
  · have hpath := retransmit_path { c with s := c.s.enterFastRecovery } .fastRetx rfl 0 now
    generalize (Ctx.retransmit { c with s := c.s.enterFastRecovery } .fastRetx 0 now).2 = c'
      at hpath ⊢
    exact hpath.trans (arm_path { c' with s.dupAckCount := 0, s.lastHeadRetxMs := now } now)
  · exact .refl

theorem partialRetx_path (c : Ctx) (now : UInt32) : ResendPath c.view (c.partialRetx now).view := by
  unfold Ctx.partialRetx
  split
  · exact retransmit_path { c with s.lastHeadRetxMs := now } _ rfl 0 now
  · exact .refl

theorem fireTlp_path (c : Ctx) (now : UInt32) : ResendPath c.view (c.fireTlp now).view := by
  unfold Ctx.fireTlp
  simp only
  split
  · exact .refl
  · split
    · exact .refl
    · exact retransmit_path { c with s.tlpDeadlineMs := 0 } _ rfl _ now

theorem fireZwp_path (c : Ctx) (now : UInt32) : ResendPath c.view (c.fireZwp now).view := by
  have hpath := @emitAck_path c .zwpProbe (.inr rfl)
  unfold Ctx.fireZwp
  generalize c.emitAck .zwpProbe = c' at hpath ⊢
  exact hpath

/-! ## ACK processing -/

theorem updatePrrAfterAck_view (c : Ctx) (s : TcpSession) (prev acked : UInt32) :
    ({ c with s := s.updatePrrAfterAck prev acked } : Ctx).view = ({ c with s := s } : Ctx).view := by
  unfold TcpSession.updatePrrAfterAck
  split <;> rfl

theorem growCwnd_core (s : TcpSession) (ackNo acked : UInt32) :
    (Ctx.growCwnd s ackNo acked).core = s.core ∧
      (Ctx.growCwnd s ackNo acked).rtoDeadlineMs = s.rtoDeadlineMs := by
  unfold Ctx.growCwnd
  split
  · split <;> exact ⟨rfl, rfl⟩
  · split <;> exact ⟨rfl, rfl⟩

theorem eifelUndo_core (s : TcpSession) :
    (Ctx.eifelUndo s).core = s.core ∧ (Ctx.eifelUndo s).rtoDeadlineMs = s.rtoDeadlineMs := by
  unfold Ctx.eifelUndo
  split
  · simp only
    split <;> exact ⟨rfl, rfl⟩
  · exact ⟨rfl, rfl⟩

theorem noteNewAck_view (c : Ctx) (ackNo : UInt32) : (c.noteNewAck ackNo).view = c.view := by
  have hg := growCwnd_core (Ctx.eifelUndo c.s) ackNo (ackNo - c.s.sndUna)
  have he := eifelUndo_core c.s
  exact view_congr c (hg.1.trans he.1) (hg.2.trans he.2)

theorem updateRtt_rtoDeadlineMs (p : Pacing) (sample : UInt32) :
    (p.updateRtt sample).rtoDeadlineMs = p.rtoDeadlineMs := by
  unfold Pacing.updateRtt
  simp only
  split <;> rfl

theorem rackUpdateFromDelivered_rtoDeadlineMs (p : Pacing) (sentMs endSeq now : UInt32) :
    (p.rackUpdateFromDelivered sentMs endSeq now).rtoDeadlineMs = p.rtoDeadlineMs := by
  unfold Pacing.rackUpdateFromDelivered
  split
  · rfl
  · simp only
    split <;> rfl

theorem sampleTsRtt_view (c : Ctx) : c.sampleTsRtt.2.view = c.view := by
  unfold Ctx.sampleTsRtt
  split
  · simp only
    split
    · exact view_congr c rfl (updateRtt_rtoDeadlineMs _ _)
    · rfl
  · rfl

theorem ackedPacing_rtoDeadlineMs (p : Pacing) (head : OutSeg) (now : UInt32) (sampled : Bool) :
    (Ctx.ackedPacing p head now sampled).rtoDeadlineMs = p.rtoDeadlineMs := by
  unfold Ctx.ackedPacing
  cases head.sacked <;> cases (!head.retransmitted && !sampled) <;>
    simp [updateRtt_rtoDeadlineMs, rackUpdateFromDelivered_rtoDeadlineMs]

theorem popAcked_view (ackNo now : UInt32) (l : List OutSeg) :
    ∀ (sampled : Bool) (c : Ctx), c.s.retx = l → ∃ popped rest, c.view.queue = popped ++ rest ∧
      (∀ e ∈ popped, seqLe (e.seq + e.span) ackNo = true) ∧
      (∀ e ∈ rest.head?, seqLe (e.seq + e.span) ackNo = false) ∧
      (Ctx.popAcked ackNo now l sampled c).view =
        { c.view with
          queue := rest
          trace := c.view.trace ++ popped.map fun e => .popRetx e.data } := by
  induction l with
  | nil =>
    intro sampled c hl
    refine ⟨[], [], ?_, by simp, by simp, ?_⟩
    · exact congrArg (List.map OutSeg.core) hl
    · have hq : c.view.queue = [] := congrArg (List.map OutSeg.core) hl
      rw [List.map_nil, List.append_nil]
      exact congrArg (fun q => { c.view with queue := q }) hq
  | cons head tail ih =>
    intro sampled c hl
    have hq : c.view.queue = head.core :: tail.map OutSeg.core :=
      congrArg (List.map OutSeg.core) hl
    unfold Ctx.popAcked
    split
    · rename_i hle
      obtain ⟨c₁, hc₁⟩ : ∃ c₁ : Ctx, c₁ = ({ c with
          s.toPacing := Ctx.ackedPacing c.s.toPacing head now sampled
          s.retx := tail } : Ctx).log (.popRetx head.data) := ⟨_, rfl⟩
      have hretx : c₁.s.retx = tail := by rw [hc₁]; rfl
      have hview : c₁.view = { c.view with
          queue := tail.map OutSeg.core
          trace := c.view.trace ++ [.popRetx head.data] } := by
        have hrto := ackedPacing_rtoDeadlineMs c.s.toPacing head now sampled
        rw [hc₁]
        exact congrArg (fun r => { c.view with
          queue := tail.map OutSeg.core
          rto := r
          trace := c.view.trace ++ [Action.popRetx head.data] }) hrto
      obtain ⟨popped, rest, hsplit, hp, hr, hv⟩ := ih (sampled || !head.retransmitted) c₁ hretx
      rw [hview] at hsplit hv
      refine ⟨head.core :: popped, rest, by rw [hq, List.cons_append, ← hsplit], ?_, hr, ?_⟩
      · simpa using ⟨hle, hp⟩
      · simp only
        rw [← hc₁, hv]
        exact congrArg (fun t => { c.view with queue := rest, trace := t })
          (List.append_cons _ _ _).symm
    · rename_i hle
      refine ⟨[], c.view.queue, rfl, by simp, ?_, ?_⟩
      · rw [hq]
        intro e he
        obtain rfl : head.core = e := by simpa using he
        exact eq_false_of_ne_true hle
      · rw [List.map_nil, List.append_nil]

theorem rearmRto_path (c : Ctx) (now : UInt32) : ResendPath c.view (c.rearmRto now).view := by
  unfold Ctx.rearmRto
  split
  · exact arm_path c now
  · rename_i h
    have hq : c.s.retx = [] := by simpa using h
    exact .single (.disarm c.view (congrArg (List.map OutSeg.core) hq))

theorem advanceUna_view (c : Ctx) (ackNo : UInt32) :
    (c.advanceUna ackNo).view = { c.view with send.sndUna := ackNo } := by
  unfold Ctx.advanceUna
  simp only
  rw [updatePrrAfterAck_view]
  rfl

theorem onNewAck_path (c : Ctx) (ackNo now : UInt32) (hhi : seqLt c.s.sndNxt ackNo = false)
    (hlo : seqLe ackNo c.s.sndUna = false) : AckPath c.view ackNo (c.onNewAck ackNo now).view := by
  have hview : (c.noteNewAck ackNo).sampleTsRtt.2.view = c.view := by
    rw [sampleTsRtt_view, noteNewAck_view]
  unfold Ctx.onNewAck
  generalize (c.noteNewAck ackNo).sampleTsRtt = r at hview ⊢
  obtain ⟨sampled, c₁⟩ := r
  simp only at hview ⊢
  obtain ⟨popped, rest, hq, hp, hr, hv⟩ := popAcked_view ackNo now c₁.s.retx sampled c₁ rfl
  rw [hview] at hq hv
  have hv₂ := advanceUna_view (Ctx.popAcked ackNo now c₁.s.retx sampled c₁) ackNo
  rw [hv] at hv₂
  generalize (Ctx.popAcked ackNo now c₁.s.retx sampled c₁).advanceUna ackNo = c₂ at hv₂ ⊢
  have hack : AckPath c.view ackNo c₂.view := by
    rw [hv₂]
    exact ⟨.single (.ackIn c.view ackNo popped rest hq hhi hlo hp hr), rfl, .inr rfl⟩
  have hrack := hack.resend (rackDetectLossAndArmTimer_path c₂ now)
  generalize c₂.rackDetectLossAndArmTimer now = c₃ at hrack ⊢
  exact (hrack.resend (partialRetx_path c₃.refreshRto now)).resend (rearmRto_path _ now)

theorem onDupAck_path (c : Ctx) (ackNo now : UInt32) :
    AckPath c.view c.s.sndUna (c.onDupAck ackNo now).view := by
  unfold Ctx.onDupAck
  simp only
  split
  · split
    · have hlost := lostRetx_path c now
      generalize c.lostRetx now = c₁ at hlost ⊢
      rw [← updatePrrAfterAck_view c₁ c₁.s c₁.s.sackedAtSegmentStart 0] at hlost
      exact ((AckPath.refl c.view).resend hlost).resend (rackDetectLossAndArmTimer_path _ now)
    · generalize (if c.s.dupAckCount == 255 then 255 else c.s.dupAckCount + 1) = k
      have hlim := limitedTransmit_path { c with s.dupAckCount := k }
      generalize Ctx.limitedTransmit { c with s.dupAckCount := k } = c₁ at hlim ⊢
      exact (hlim.resend (fastRetransmit_path c₁ now)).resend (rackDetectLossAndArmTimer_path _ now)
  · exact (AckPath.refl c.view).resend (rackDetectLossAndArmTimer_path c now)

theorem onAck_path (c : Ctx) (ackNo now : UInt32) :
    AckPath c.view
      (if !seqLt c.s.sndNxt ackNo && !seqLe ackNo c.s.sndUna then ackNo else c.s.sndUna)
      (c.onAck ackNo now).view := by
  unfold Ctx.onAck
  cases hhi : seqLt c.s.sndNxt ackNo with
  | true =>
    have h : AckPath c.view c.s.sndUna c.view := .refl c.view
    simpa using h
  | false =>
    cases hlo : seqLe ackNo c.s.sndUna with
    | true => simpa using onDupAck_path c ackNo now
    | false => simpa using onNewAck_path c ackNo now hhi hlo

end BaleVpn.Tcp
