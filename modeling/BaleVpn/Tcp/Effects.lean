import BaleVpn.Tcp.Emissions

/-!
# What an event does to the sender

The effects of one event on the retransmit queue and the pacing state, one primitive of the source at a
time and in the stage of the event it belongs to: the SACK blocks of a segment, its ACK number, the
timers, and the rest, which every stage has in common. An invariant of every effect is one of every
event. The steps on views say the same for the stream; here nothing of the pacing state is left out.
-/

namespace BaleVpn.Tcp

open Net Relation

/-! ## Effects -/

/-- A RST carries no window, and what is not emitted has none. -/
def Action.windowless : Action → Prop
  | .emit cause _ b _ _ => cause = .rst ∧ b.window = 0
  | _ => True

/-- The queue, the pacing state and what an emission reads of the rest stay, and nothing but a RST is
emitted. -/
structure Quiet (c c' : Ctx) : Prop where
  retx : c'.s.retx = c.s.retx
  pacing : c'.s.toPacing = c.s.toPacing
  peer : c'.s.toPeerOpts = c.s.toPeerOpts
  una : c'.s.sndUna = c.s.sndUna
  wnd : c'.s.sndWnd = c.s.sndWnd ∨ ∃ w : UInt16, c'.s.sndWnd = w.toUInt32 <<< c.s.peerWscale.toUInt32
  rcvWnd : c'.s.rcvWnd = c.s.rcvWnd
  scale : c'.io.oracle.rwndScale = c.io.oracle.rwndScale
  adds : Adds c.io.trace c'.io.trace Action.windowless

/-- The pacing state without what only decides when and which segment is sent again: timestamps, RACK's
last delivery and the timers other than the RTO. -/
def Pacing.counted (p : Pacing) : Pacing :=
  { p with
    tsRecent := 0, tsClockBase := 0, tsvalAtRto := 0, curTsecrPresent := false, curTsecr := 0
    lastHeadRetxMs := 0, sackedAtSegmentStart := 0, rackXmitTs := 0, rackEndSeq := 0, rackRtt := 0
    rackReoWnd := 0, rackDsackSeen := false, rackInited := false, rackDeadlineMs := 0
    zwpDeadlineMs := 0, zwpIntervalMs := 0, tlpDeadlineMs := 0, timeWaitDeadlineMs := 0 }

/-- The part of an event an effect belongs to; `rest` is what every part has in common. -/
inductive Stage
  | dup | ack | timer | rest
  deriving DecidableEq

inductive Effect : Stage → Ctx → Ctx → Prop
  | quiet {t : Stage} {c c' : Ctx} (h : Quiet c c') : Effect t c c'
  | pace {t : Stage} (c : Ctx) (p : Pacing) (h : p.counted = c.s.toPacing.counted) :
      Effect t c { c with s.toPacing := p }
  | emitSegment {t : Stage} (c : Ctx) (cause : Cause) (hc : cause = .fastRetx → t = .dup)
      (flags : UInt8) (seq : UInt32) (payload : Bytes) (record : Bool) (options : Bytes) :
      Effect t c (c.emitSegment cause flags seq payload record options).2
  | resent {t : Stage} (c : Ctx) {idx : ℕ} {e : OutSeg} (he : c.s.retx[idx]? = some e)
      (now : UInt32) : Effect t c
        { c with s.retx := c.s.retx.set idx { e with retransmitted := true, sentMs := now } }
  | recover {t : Stage} (c : Ctx) : Effect t c { c with s := c.s.enterFastRecovery }
  | arm {t : Stage} (c : Ctx) (now : UInt32) : Effect t c (c.scheduleRto now)
  | disarm {t : Stage} (c : Ctx) : Effect t c { c with s.rtoDeadlineMs := 0 }
  | timeWait {t : Stage} (c : Ctx) (now : UInt32) : Effect t c (c.toTimeWait now)
  | prr {t : Stage} (c : Ctx) (hst : t = .dup ∨ t = .ack) (prev acked : UInt32) :
      Effect t c { c with s := c.s.updatePrrAfterAck prev acked }
  | dup (c : Ctx) : Effect .dup c
      { c with s.dupAckCount := if c.s.dupAckCount == 255 then 255 else c.s.dupAckCount + 1 }
  | dupReset (c : Ctx) : Effect .dup c { c with s.dupAckCount := 0 }
  | newAck (c : Ctx) (ackNo : UInt32) : Effect .ack c (c.noteNewAck ackNo)
  | sample (c : Ctx) {rtt : UInt32} (hpos : 0 < rtt) (hlt : rtt < 60000) :
      Effect .ack c { c with s.toPacing := c.s.toPacing.updateRtt rtt }
  | pop (c : Ctx) {head : OutSeg} {rest : List OutSeg} (h : c.s.retx = head :: rest) (now : UInt32)
      (sampled : Bool) : Effect .ack c
        (({ c with
          s.toPacing := Ctx.ackedPacing c.s.toPacing head now sampled
          s.retx := rest } : Ctx).log (.popRetx head.data))
  | una (c : Ctx) (ackNo : UInt32) : Effect .ack c { c with s.sndUna := ackNo, s.rtoRetries := 0 }
  | refresh (c : Ctx) : Effect .ack c
      { c with s.rtoMs := if c.s.rttInit then c.s.toPacing.clampedRto else c.s.rtoMs }
  | reduce (c : Ctx) (now : UInt32) : Effect .timer c (c.rtoReduce now)
  | retry (c : Ctx) : Effect .timer c { c with s.rtoRetries := c.s.rtoRetries + 1 }
  | backOff (c : Ctx) : Effect .timer c { c with s.rtoMs := Ctx.doubled c.s.rtoMs }

abbrev Effects (t : Stage) : Ctx → Ctx → Prop := ReflTransGen (Effect t)

/-- What the options of a segment do. -/
inductive SackEffect : Ctx → Ctx → Prop
  | pace (c : Ctx) (p : Pacing) (h : p.counted = c.s.toPacing.counted) :
      SackEffect c { c with s.toPacing := p }
  | block (c : Ctx) {left right : UInt32} (h : seqLt left right = true) :
      SackEffect c (c.onSackBlock left right)

abbrev SackEffects : Ctx → Ctx → Prop := ReflTransGen SackEffect

theorem Quiet.refl (c : Ctx) : Quiet c c := ⟨rfl, rfl, rfl, rfl, .inl rfl, rfl, rfl, .none⟩

theorem Quiet.trans {c c' c'' : Ctx} (h : Quiet c c') (h' : Quiet c' c'') : Quiet c c'' := by
  refine ⟨h'.retx.trans h.retx, h'.pacing.trans h.pacing, h'.peer.trans h.peer, h'.una.trans h.una, ?_,
    h'.rcvWnd.trans h.rcvWnd, h'.scale.trans h.scale, h.adds.trans h'.adds⟩
  obtain hwnd | ⟨w, hwnd⟩ := h'.wnd
  · rw [hwnd]
    exact h.wnd
  · have hscale : c'.s.peerWscale = c.s.peerWscale := congrArg PeerOpts.peerWscale h.peer
    rw [hscale] at hwnd
    exact .inr ⟨w, hwnd⟩

theorem Quiet.silent {c c' : Ctx} (hretx : c'.s.retx = c.s.retx) (hpacing : c'.s.toPacing = c.s.toPacing)
    (hpeer : c'.s.toPeerOpts = c.s.toPeerOpts) (huna : c'.s.sndUna = c.s.sndUna)
    (hwnd : c'.s.sndWnd = c.s.sndWnd) (hrcv : c'.s.rcvWnd = c.s.rcvWnd)
    (hscale : c'.io.oracle.rwndScale = c.io.oracle.rwndScale)
    (htrace : c'.io.trace = c.io.trace) : Quiet c c' :=
  ⟨hretx, hpacing, hpeer, huna, .inl hwnd, hrcv, hscale, by rw [htrace]; exact .none⟩

theorem nowMs_quiet (c : Ctx) : Quiet c c.nowMs.2 := .silent rfl rfl rfl rfl rfl rfl rfl rfl

section

variable {t : Stage}

theorem Quiet.effects {c c' : Ctx} (h : Quiet c c') : Effects t c c' := .single (.quiet h)

/-! ## Emissions -/

theorem retransmit_effects (c : Ctx) (cause : Cause) (hc : cause = .fastRetx → t = .dup) (idx : ℕ)
    (now : UInt32) : Effects t c (c.retransmit cause idx now).2 := by
  unfold Ctx.retransmit
  split
  · exact .refl
  · rename_i e he
    exact .tail (.single (.resent c he now)) (.emitSegment _ cause hc _ _ _ _ _)

theorem emitAck_effects (c : Ctx) (cause : Cause) (hc : cause ≠ .fastRetx) :
    Effects t c (c.emitAck cause) := .single (.emitSegment c cause (absurd · hc) _ _ _ _ _)

theorem sendChunk_effects (c : Ctx) (cause : Cause) (hc : cause ≠ .fastRetx) (chunk : ℕ) :
    Effects t c (c.sendChunk cause chunk).2 := by
  have hemit : Effects t c (c.emitSegment cause (TCP_ACK ||| TCP_PSH) c.s.sndNxt
      (c.s.toSendVars.next chunk) true []).2 := .single (.emitSegment c cause (absurd · hc) _ _ _ _ _)
  unfold Ctx.sendChunk
  simp only
  generalize c.emitSegment cause (TCP_ACK ||| TCP_PSH) c.s.sndNxt (c.s.toSendVars.next chunk) true []
    = r at hemit ⊢
  split
  · exact hemit.tail (.quiet (.silent rfl rfl rfl rfl rfl rfl rfl rfl))
  · exact hemit

theorem emitRst_quiet (c : Ctx) (seq ack : UInt32) : Quiet c (c.emitRst seq ack) := by
  unfold Ctx.emitRst
  simp only
  split
  · exact .refl c
  · exact ⟨rfl, rfl, rfl, rfl, .inl rfl, rfl, rfl, .one ⟨rfl, rfl⟩⟩

theorem closeHostSocket_quiet (c : Ctx) : Quiet c c.closeHostSocket := by
  unfold Ctx.closeHostSocket
  split
  · exact ⟨rfl, rfl, rfl, rfl, .inl rfl, rfl, rfl, .one trivial⟩
  · exact .refl c

theorem markClosed_quiet (c : Ctx) : Quiet c c.markClosed := by
  have hstate : Quiet c (({ c with s.state := .closed } : Ctx).log .markClosed) :=
    ⟨rfl, rfl, rfl, rfl, .inl rfl, rfl, rfl, .one trivial⟩
  exact hstate.trans (closeHostSocket_quiet _)

theorem abort_quiet (c : Ctx) : Quiet c c.abort :=
  (emitRst_quiet c c.s.sndNxt c.s.rcvNxt).trans (markClosed_quiet _)

theorem enterTimeWait_effects (c : Ctx) (now : UInt32) : Effects t c (c.enterTimeWait now) :=
  .tail (.single (.timeWait c now)) (.quiet (closeHostSocket_quiet _))

/-! ## Loss recovery -/

theorem ensureRecovery_effects (c : Ctx) : Effects t c c.ensureRecovery := by
  unfold Ctx.ensureRecovery
  split
  · exact .single (.recover c)
  · exact .refl

theorem rackEmit_effects (now : UInt32) (idxs : List ℕ) : ∀ (emitted : Bool) (c : Ctx),
    Effects t c (Ctx.rackEmit now idxs emitted c).2 := by
  induction idxs with
  | nil => exact fun _ _ => .refl
  | cons idx rest ih =>
    intro emitted c
    have hsent := (ensureRecovery_effects (t := t) c).trans (retransmit_effects c.ensureRecovery
      .rackRetx (by simp) idx now)
    unfold Ctx.rackEmit
    simp only
    split
    · exact hsent
    · exact hsent.trans (ih _ _)

theorem headRetx_effects (c : Ctx) (now : UInt32) : Effects t c { c with s.lastHeadRetxMs := now } :=
  .single (.pace c { c.s.toPacing with lastHeadRetxMs := now } rfl)

theorem rackFinish_effects (now d : UInt32) (r : Bool × Ctx) :
    Effects t r.2 (Ctx.rackFinish now d r) := by
  have hpace : Effects t r.2 { r.2 with s.rackDeadlineMs := d } :=
    .single (.pace r.2 { r.2.s.toPacing with rackDeadlineMs := d } rfl)
  unfold Ctx.rackFinish
  simp only
  split
  · exact (hpace.trans (headRetx_effects _ now)).tail (.arm _ now)
  · exact hpace

theorem rackDetectLossAndArmTimer_effects (c : Ctx) (now : UInt32) :
    Effects t c (c.rackDetectLossAndArmTimer now) := by
  unfold Ctx.rackDetectLossAndArmTimer
  split
  · exact .single (.pace c { c.s.toPacing with rackDeadlineMs := 0 } rfl)
  · refine ReflTransGen.trans (.single (.pace c { c.s.toPacing with
      rackReoWnd := c.s.toPacing.rackComputeReoWnd } rfl)) ?_
    exact (rackEmit_effects _ _ _ _).trans (rackFinish_effects _ _ _)

theorem lostRetx_effects (c : Ctx) (now : UInt32) : Effects t c (c.lostRetx now) := by
  unfold Ctx.lostRetx
  simp only
  split
  · split
    · exact (headRetx_effects c now).trans (retransmit_effects _ _ (by simp) _ _)
    · exact .refl
  · exact .refl

theorem limitedTransmit_effects (c : Ctx) : Effects t c c.limitedTransmit := by
  unfold Ctx.limitedTransmit
  simp only
  split
  · split
    · split
      · exact sendChunk_effects c _ (by simp) _
      · exact .refl
    · exact .refl
  · exact .refl

theorem partialRetx_effects (c : Ctx) (now : UInt32) : Effects t c (c.partialRetx now) := by
  unfold Ctx.partialRetx
  split
  · exact (headRetx_effects c now).trans (retransmit_effects _ _ (by simp) _ _)
  · exact .refl

theorem rearmRto_effects (c : Ctx) (now : UInt32) : Effects t c (c.rearmRto now) := by
  unfold Ctx.rearmRto
  split
  · exact .single (.arm c now)
  · exact .single (.disarm c)

end

/-! ## ACKs -/

theorem fastRetransmit_effects (c : Ctx) (now : UInt32) : Effects .dup c (c.fastRetransmit now) := by
  unfold Ctx.fastRetransmit
  simp only
  split
  · refine ReflTransGen.head (.recover c) ((retransmit_effects _ .fastRetx (fun _ => rfl) 0 now).trans ?_)
    generalize (Ctx.retransmit { c with s := c.s.enterFastRecovery } .fastRetx 0 now).2 = c₁
    exact .tail (.tail (.single (.dupReset c₁))
      (.pace _ { c₁.s.toPacing with dupAckCount := 0, lastHeadRetxMs := now } rfl)) (.arm _ now)
  · exact .refl

theorem onDupAck_effects (c : Ctx) (ackNo now : UInt32) : Effects .dup c (c.onDupAck ackNo now) := by
  unfold Ctx.onDupAck
  simp only
  split
  · split
    · refine (lostRetx_effects c now).trans
        (ReflTransGen.head (.prr _ (.inl rfl) (c.lostRetx now).s.sackedAtSegmentStart 0) ?_)
      exact rackDetectLossAndArmTimer_effects _ now
    · refine ReflTransGen.head (.dup c) ((limitedTransmit_effects _).trans ?_)
      exact (fastRetransmit_effects _ now).trans (rackDetectLossAndArmTimer_effects _ now)
  · exact rackDetectLossAndArmTimer_effects c now

theorem sampleTsRtt_effects (c : Ctx) : Effects .ack c c.sampleTsRtt.2 := by
  unfold Ctx.sampleTsRtt
  split
  · have hread : Quiet c c.currentTsval.2 := .silent rfl rfl rfl rfl rfl rfl rfl rfl
    simp only
    split
    · rename_i hrtt
      rw [Bool.and_eq_true, decide_eq_true_eq, decide_eq_true_eq] at hrtt
      exact hread.effects.tail (.sample _ hrtt.1 hrtt.2)
    · exact hread.effects
  · exact .refl

theorem popAcked_effects (ackNo now : UInt32) (l : List OutSeg) : ∀ (sampled : Bool) (c : Ctx),
    c.s.retx = l → Effects .ack c (Ctx.popAcked ackNo now l sampled c) := by
  induction l with
  | nil => exact fun _ _ _ => .refl
  | cons head rest ih =>
    intro sampled c hq
    unfold Ctx.popAcked
    split
    · exact ReflTransGen.head (.pop c hq now sampled) (ih _ _ rfl)
    · exact .refl

theorem advanceUna_effects (c : Ctx) (ackNo : UInt32) : Effects .ack c (c.advanceUna ackNo) :=
  .tail (.single (.una c ackNo)) (.prr _ (.inr rfl) _ _)

theorem refreshRto_effects (c : Ctx) : Effects .ack c c.refreshRto :=
  .tail (.single (.refresh c)) (.pace _ { c.refreshRto.s.toPacing with } rfl)

theorem noteNewAck_effects (c : Ctx) (ackNo now : UInt32) :
    Effects .ack (c.noteNewAck ackNo) (c.onNewAck ackNo now) := by
  unfold Ctx.onNewAck
  refine (sampleTsRtt_effects _).trans ?_
  simp only
  generalize (c.noteNewAck ackNo).sampleTsRtt = r
  refine (popAcked_effects ackNo now _ r.1 r.2 rfl).trans ((advanceUna_effects _ ackNo).trans ?_)
  refine (rackDetectLossAndArmTimer_effects _ now).trans ((refreshRto_effects _).trans ?_)
  exact (partialRetx_effects _ now).trans (rearmRto_effects _ now)

theorem onNewAck_effects (c : Ctx) (ackNo now : UInt32) : Effects .ack c (c.onNewAck ackNo now) :=
  .head (.newAck c ackNo) (noteNewAck_effects c ackNo now)

theorem onAck_effects (c : Ctx) (ackNo now : UInt32) :
    Effects .dup c (c.onAck ackNo now) ∨ Effects .ack c (c.onAck ackNo now) := by
  unfold Ctx.onAck
  split
  · exact .inl .refl
  · split
    · exact .inl (onDupAck_effects c ackNo now)
    · exact .inr (onNewAck_effects c ackNo now)

/-! ## SACK blocks -/

theorem sackBlocks_effects (n : ℕ) : ∀ (bytes : Bytes) (first : Bool) (c : Ctx), bytes.length ≤ n →
    SackEffects c (Ctx.sackBlocks bytes first c) := by
  induction n with
  | zero =>
    intro bytes first c hlen
    obtain rfl : bytes = [] := by simpa using hlen
    exact .refl
  | succ n ih =>
    intro bytes first c hlen
    unfold Ctx.sackBlocks
    split
    · simp only
      refine ReflTransGen.trans ?_ (ih _ _ _ (by simp at hlen; omega))
      split
      · rename_i hlt
        split
        · exact .head (.pace c { c.s.toPacing with rackDsackSeen := true } rfl)
            (.single (.block { c with s.rackDsackSeen := true } hlt))
        · exact .single (.block c hlt)
      · exact .refl
    · exact .refl

theorem parseSackBlocks_effects (c : Ctx) (opts : Bytes) : SackEffects c (c.parseSackBlocks opts) := by
  unfold Ctx.parseSackBlocks
  split
  · exact .refl
  · refine walkOptions_inv (P := SackEffects c) ?_ _ _ _ .refl
    intro kind opt c' hc'
    unfold Ctx.applySack
    split
    · exact hc'.trans (sackBlocks_effects _ _ _ _ (Nat.le_refl _))
    · exact hc'

theorem noteTimestamps_pace (c : Ctx) (opts : Bytes) (seq : UInt32) :
    (c.noteTimestamps opts seq).s.toPacing.counted = c.s.toPacing.counted ∧
      c.noteTimestamps opts seq =
        { c with s.toPacing := (c.noteTimestamps opts seq).s.toPacing } := by
  unfold Ctx.noteTimestamps
  simp only
  split
  · split
    · split <;> exact ⟨rfl, rfl⟩
    · exact ⟨rfl, rfl⟩
  · exact ⟨rfl, rfl⟩

theorem preprocess_effects (c : Ctx) (opts : Bytes) (seq : UInt32) :
    SackEffects c (c.preprocess opts seq) := by
  have hstart : SackEffects c { c with s.sackedAtSegmentStart := c.s.sackedBytes } :=
    .single (.pace c { c.s.toPacing with sackedAtSegmentStart := c.s.sackedBytes } rfl)
  unfold Ctx.preprocess
  simp only
  obtain ⟨hp, hnote⟩ := noteTimestamps_pace
    (if c.s.peerSackOk && !opts.isEmpty then
      Ctx.parseSackBlocks { c with s.sackedAtSegmentStart := c.s.sackedBytes } opts
    else { c with s.sackedAtSegmentStart := c.s.sackedBytes }) opts seq
  rw [hnote]
  refine .tail ?_ (.pace _ _ hp)
  split
  · exact hstart.trans (parseSackBlocks_effects _ opts)
  · exact hstart

/-! ## Timers -/

theorem fireTlp_effects {t : Stage} (c : Ctx) (now : UInt32) : Effects t c (c.fireTlp now) := by
  have hoff : Effects t c { c with s.tlpDeadlineMs := 0 } :=
    .single (.pace c { c.s.toPacing with tlpDeadlineMs := 0 } rfl)
  unfold Ctx.fireTlp
  simp only
  split
  · exact hoff
  · split
    · exact hoff
    · exact hoff.trans (retransmit_effects _ _ (by simp) _ _)

theorem rtoFire_effects (c : Ctx) (now : UInt32) : Effects .timer c (c.rtoFire now) := by
  unfold Ctx.rtoFire
  split
  · exact .refl
  · refine ReflTransGen.head (.reduce c now) ((retransmit_effects _ .rtoRetx (by simp) 0 now).trans ?_)
    generalize ((c.rtoReduce now).retransmit .rtoRetx 0 now).2 = c₁
    unfold Ctx.rtoRetry
    refine ReflTransGen.head (.retry c₁) ?_
    simp only
    split
    · exact (abort_quiet _).effects
    · exact .tail (.single (.backOff _)) (.arm _ now)

theorem fireZwp_effects {t : Stage} (c : Ctx) (now : UInt32) : Effects t c (c.fireZwp now) := by
  unfold Ctx.fireZwp
  refine (emitAck_effects c .zwpProbe (by simp)).tail ?_
  generalize c.emitAck .zwpProbe = c₁
  exact .pace c₁ { c₁.s.toPacing with
    zwpIntervalMs := Ctx.doubled c₁.s.zwpIntervalMs
    zwpDeadlineMs := now + Ctx.doubled c₁.s.zwpIntervalMs } rfl

theorem effects_ite {t : Stage} {c c₁ : Ctx} {b : Bool} (h : Effects t c c₁) :
    Effects t c (if b then c₁ else c) := by
  split
  · exact h
  · exact .refl

theorem tickTimers_effects {t : Stage} (c : Ctx) (now : UInt32) :
    Effects t c (c.tickTimers now) := by
  unfold Ctx.tickTimers
  simp only
  have hrack := effects_ite (t := t) (b := c.s.rackDeadlineMs != 0 && timeAfter now c.s.rackDeadlineMs)
    (rackDetectLossAndArmTimer_effects c now)
  generalize (if c.s.rackDeadlineMs != 0 && timeAfter now c.s.rackDeadlineMs then
    c.rackDetectLossAndArmTimer now else c) = c₁ at hrack ⊢
  have htlp := effects_ite (t := t) (b := c₁.s.tlpDeadlineMs != 0 && timeAfter now c₁.s.tlpDeadlineMs)
    (fireTlp_effects c₁ now)
  generalize (if c₁.s.tlpDeadlineMs != 0 && timeAfter now c₁.s.tlpDeadlineMs then c₁.fireTlp now
    else c₁) = c₂ at htlp ⊢
  exact hrack.trans (htlp.trans (effects_ite (fireZwp_effects c₂ now)))

theorem tick_effects (c : Ctx) (now : UInt32) : Effects .timer c (c.tick now).2 := by
  unfold Ctx.tick
  split
  · exact .refl
  · simp only
    have hrto := effects_ite (b := c.s.rtoDeadlineMs != 0 && timeAfter now c.s.rtoDeadlineMs)
      (rtoFire_effects c now)
    generalize (if c.s.rtoDeadlineMs != 0 && timeAfter now c.s.rtoDeadlineMs then c.rtoFire now
      else c) = c₁ at hrto ⊢
    split
    · exact hrto
    · have htimers := hrto.trans (tickTimers_effects c₁ now)
      generalize c₁.tickTimers now = c₂ at htimers ⊢
      split
      · exact htimers.trans (markClosed_quiet c₂).effects
      · exact htimers

/-! ## The data plane -/

theorem drainLoop_scale (ws : List WriteRes) : ∀ c : Ctx,
    (Ctx.drainLoop ws c).2.io.oracle.rwndScale = c.io.oracle.rwndScale := by
  induction ws with
  | nil =>
    intro c
    unfold Ctx.drainLoop
    split <;> rfl
  | cons w ws ih =>
    intro c
    unfold Ctx.drainLoop
    split
    · simp only
      match w with
      | .ok 0 => rfl
      | .ok (n + 1) => exact ih _
      | .wouldBlock => rfl
      | .interrupted => exact ih _
      | .err => exact (abort_quiet _).scale
    · rfl

theorem tryDrainToHost_scale (c : Ctx) : c.tryDrainToHost.io.oracle.rwndScale = c.io.oracle.rwndScale := by
  have hloop := drainLoop_scale c.io.oracle.writes c
  unfold Ctx.tryDrainToHost
  split
  · rfl
  · split
    · rfl
    · simp only
      split
      · exact hloop
      · exact hloop

theorem enqueueToHost_scale (c : Ctx) (data : Bytes) :
    (c.enqueueToHost data).io.oracle.rwndScale = c.io.oracle.rwndScale := by
  unfold Ctx.enqueueToHost
  simp only
  split
  · exact tryDrainToHost_scale (c.appendToHost data)
  · rfl

theorem deliverOoo_scale (l : List OooSeg) : ∀ c : Ctx,
    (Ctx.deliverOoo l c).io.oracle.rwndScale = c.io.oracle.rwndScale := by
  induction l with
  | nil => exact fun _ => rfl
  | cons head rest ih =>
    intro c
    unfold Ctx.deliverOoo
    simp only
    split
    · exact ih _
    · split
      · rfl
      · exact (ih _).trans (enqueueToHost_scale _ _)

theorem acceptData_scale (c : Ctx) (seq : UInt32) (data : Bytes) :
    (c.acceptData seq data).io.oracle.rwndScale = c.io.oracle.rwndScale := by
  unfold Ctx.acceptData
  split
  · exact (deliverOoo_scale _ _).trans (enqueueToHost_scale c data)
  · unfold Ctx.storeOoo
    split
    · rfl
    · split
      · rfl
      · simp only
        split
        · rfl
        · split <;> rfl

theorem handleDataIn_scale (c : Ctx) (seq : UInt32) (data : Bytes) :
    (c.handleDataIn seq data).io.oracle.rwndScale = c.io.oracle.rwndScale := by
  unfold Ctx.handleDataIn
  split
  · rfl
  · split
    · rfl
    · split
      · simp only
        split
        · rfl
        · exact acceptData_scale _ _ _
      · exact acceptData_scale _ _ _

theorem Action.HostSide.windowless {a : Action} (h : a.HostSide) : a.windowless := by
  cases h with
  | rst ok hb hpkt => exact ⟨rfl, by rw [hb]; rfl⟩
  | _ => trivial

theorem HostPath.quiet {c c' : Ctx} (h : HostPath c.obs c'.obs)
    (hscale : c'.io.oracle.rwndScale = c.io.oracle.rwndScale) : Quiet c c' := by
  have hframe : HostFrame c.s c'.s := h.frame
  exact ⟨hframe.retx, hframe.pacing, hframe.peer, congrArg SendVars.sndUna hframe.send,
    .inl (congrArg SendVars.sndWnd hframe.send), hframe.rcvWnd, hscale, h.adds.mono fun _ ha => ha.windowless⟩

theorem tryDrainToHost_quiet (c : Ctx) : Quiet c c.tryDrainToHost :=
  HostPath.quiet (tryDrainToHost_path c) (tryDrainToHost_scale c)

theorem handleDataIn_quiet (c : Ctx) (seq : UInt32) (data : Bytes) : Quiet c (c.handleDataIn seq data) :=
  HostPath.quiet (handleDataIn_path c seq data) (handleDataIn_scale c seq data)

section

variable {t : Stage}

theorem sendFin_effects (c : Ctx) : Effects t c c.sendFin := by
  have hnote : Quiet c c.noteFinSent := .silent rfl rfl rfl rfl rfl rfl rfl rfl
  have hemit : Effect t c.noteFinSent (c.noteFinSent.emitSegment .fin (TCP_FIN ||| TCP_ACK)
      c.s.sndNxt [] true []).2 := .emitSegment _ .fin (by simp) _ _ _ _ _
  unfold Ctx.sendFin
  generalize (c.noteFinSent.emitSegment .fin (TCP_FIN ||| TCP_ACK) c.s.sndNxt [] true []).2 = c₁
    at hemit ⊢
  exact (hnote.effects.tail hemit).tail (.quiet (.silent rfl rfl rfl rfl rfl rfl rfl rfl))

theorem segmentLoop_effects (fuel : ℕ) : ∀ c : Ctx, Effects t c (Ctx.segmentLoop fuel c) := by
  induction fuel with
  | zero => exact fun _ => .refl
  | succ fuel ih =>
    intro c
    unfold Ctx.segmentLoop
    simp only
    split
    · split
      · exact .refl
      · split
        · exact .refl
        · split
          · exact (sendChunk_effects c .data (by simp) _).trans (ih _)
          · exact sendChunk_effects c .data (by simp) _
    · exact .refl

theorem trySegmentAndEmit_effects (c : Ctx) : Effects t c c.trySegmentAndEmit := by
  unfold Ctx.trySegmentAndEmit
  refine (segmentLoop_effects c.s.pending c).trans ?_
  generalize Ctx.segmentLoop c.s.pending c = c₁
  have hresume : Quiet c₁ c₁.resumeReads := by
    unfold Ctx.resumeReads
    split
    · exact .silent rfl rfl rfl rfl rfl rfl rfl rfl
    · exact .refl _
  refine hresume.effects.trans ?_
  generalize c₁.resumeReads = c₂
  have hclear : Quiet c₂ { c₂ with s.toClient := [], s.toClientOff := 0 } :=
    .silent rfl rfl rfl rfl rfl rfl rfl rfl
  unfold Ctx.finishToClient
  split
  · simp only
    split
    · exact hclear.effects.trans (sendFin_effects _)
    · exact hclear.effects
  · exact .refl

theorem refreshZwp_effects (c : Ctx) : Effects t c c.refreshZwp := by
  have hpace : c.s.updateZwp c.nowMs.1 =
      { c.s with toPacing := (c.s.updateZwp c.nowMs.1).toPacing } ∧
      (c.s.updateZwp c.nowMs.1).toPacing.counted = c.s.toPacing.counted := by
    unfold TcpSession.updateZwp
    split
    · split <;> exact ⟨rfl, rfl⟩
    · exact ⟨rfl, rfl⟩
  show Effects t c { c.nowMs.2 with s := c.s.updateZwp c.nowMs.1 }
  rw [hpace.1]
  exact (nowMs_quiet c).effects.tail (.pace c.nowMs.2 _ hpace.2)

/-! ## Handlers -/

theorem setSndWnd_quiet (c : Ctx) (wnd : UInt16) : Quiet c (c.setSndWnd wnd) :=
  ⟨rfl, rfl, rfl, rfl, .inr ⟨wnd, rfl⟩, rfl, rfl, .none⟩

theorem shutdownWr_quiet (c : Ctx) : Quiet c c.shutdownWr := ⟨rfl, rfl, rfl, rfl, .inl rfl, rfl, rfl, .one trivial⟩

theorem openHostSocket_quiet (c : Ctx) : Quiet c c.openHostSocket.2 := by
  unfold Ctx.openHostSocket
  split
  · exact .refl c
  · split
    · exact .refl c
    · split
      · exact .refl c
      · exact ⟨rfl, rfl, rfl, rfl, .inl rfl, rfl, rfl, .one trivial⟩

theorem takePayload_effects (c : Ctx) (seq : UInt32) (payload : Bytes) :
    Effects t c (c.takePayload seq payload) := by
  unfold Ctx.takePayload
  split
  · exact .refl
  · exact (handleDataIn_quiet c seq payload).effects.trans (emitAck_effects _ _ (by simp))

theorem takeFin_effects (c : Ctx) (t' : TcpState) :
    Effects t c ({ c with s.rcvNxt := c.s.rcvNxt + 1, s.state := t' } : Ctx).emitAck := by
  have hquiet : Quiet c { c with s.rcvNxt := c.s.rcvNxt + 1, s.state := t' } :=
    .silent rfl rfl rfl rfl rfl rfl rfl rfl
  exact hquiet.effects.trans (emitAck_effects _ _ (by simp))

theorem synRcvdOpened_effects (c : Ctx) (flags : UInt8) (seq : UInt32) (payload : Bytes) :
    Effects t c (c.synRcvdOpened flags seq payload) := by
  unfold Ctx.synRcvdOpened
  simp only
  refine (takePayload_effects c seq payload).trans (ReflTransGen.trans ?_ (refreshZwp_effects _))
  generalize c.takePayload seq payload = c₁
  split
  · unfold Ctx.synRcvdFin
    split
    · exact takeFin_effects c₁ .closeWait
    · exact emitAck_effects c₁ _ (by simp)
  · exact .refl

theorem shutdownIfDrained_quiet (c : Ctx) : Quiet c c.shutdownIfDrained := by
  unfold Ctx.shutdownIfDrained
  split
  · exact shutdownWr_quiet c
  · exact .refl c

theorem establishedFin_effects (c : Ctx) (inOrder : Bool) (seq : UInt32) (payload : Bytes) :
    Effects t c (c.establishedFin inOrder seq payload) := by
  unfold Ctx.establishedFin
  split
  · refine (takeFin_effects c .closeWait).trans (Quiet.effects ?_)
    exact (tryDrainToHost_quiet _).trans (shutdownIfDrained_quiet _)
  · exact emitAck_effects c _ (by simp)

theorem finWait1Close_effects (c : Ctx) (flags : UInt8) (inOrder : Bool) (seq : UInt32)
    (payload : Bytes) : Effects t c (c.finWait1Close flags inOrder seq payload) := by
  have htake : Effects t c ({ c with s.rcvNxt := c.s.rcvNxt + 1 } : Ctx).emitAck :=
    takeFin_effects c c.s.state
  unfold Ctx.finWait1Close
  simp only
  generalize ({ c with s.rcvNxt := c.s.rcvNxt + 1 } : Ctx).emitAck = c₁ at htake ⊢
  split
  · split
    · split
      · exact (htake.trans (nowMs_quiet c₁).effects).trans (enterTimeWait_effects _ _)
      · exact htake.tail (.quiet (.silent rfl rfl rfl rfl rfl rfl rfl rfl))
    · exact .refl
  · split
    · exact Quiet.effects (.silent rfl rfl rfl rfl rfl rfl rfl rfl)
    · exact .refl

theorem finWait2Close_effects (c : Ctx) (flags : UInt8) (inOrder : Bool) (seq : UInt32)
    (payload : Bytes) : Effects t c (c.finWait2Close flags inOrder seq payload) := by
  have htake : Effects t c ({ c with s.rcvNxt := c.s.rcvNxt + 1 } : Ctx).emitAck :=
    takeFin_effects c c.s.state
  unfold Ctx.finWait2Close
  split
  · exact (htake.trans (nowMs_quiet _).effects).trans (enterTimeWait_effects _ _)
  · exact .refl

theorem processTimeWait_fin (c : Ctx) {flags : UInt8} (h : hasFlag flags TCP_FIN = true) :
    ∃ d, c.processTimeWait flags = { c.emitAck.nowMs.2 with s.timeWaitDeadlineMs := d } := by
  rw [Ctx.processTimeWait, if_pos h]
  generalize c.emitAck = c₁
  exact ⟨c₁.nowMs.1 + 30000, rfl⟩

theorem timeWaitFin_effects (c : Ctx) (flags : UInt8) : Effects t c (c.processTimeWait flags) := by
  cases hfin : hasFlag flags TCP_FIN with
  | false =>
    have hstay : c.processTimeWait flags = c := if_neg (by simp [hfin])
    rw [hstay]
  | true =>
    obtain ⟨d, hd⟩ := processTimeWait_fin c hfin
    have hack : Effects t c c.emitAck := emitAck_effects c .ack (by simp)
    rw [hd]
    generalize c.emitAck = c₁ at hack ⊢
    exact (hack.trans (nowMs_quiet c₁).effects).tail
      (.pace c₁.nowMs.2 { c₁.nowMs.2.s.toPacing with timeWaitDeadlineMs := d } rfl)

/-! ## Host events -/

theorem noteEof_quiet (c : Ctx) : Quiet c c.noteEof := ⟨rfl, rfl, rfl, rfl, .inl rfl, rfl, rfl, .one trivial⟩

theorem noteClosed_quiet (c : Ctx) : Quiet c c.noteClosed :=
  ⟨rfl, rfl, rfl, rfl, .inl rfl, rfl, rfl, .one trivial⟩

theorem pushToClient_quiet (c : Ctx) (data : Bytes) : Quiet c (c.pushToClient data) := by
  have hpush : (c.s.toSendVars.push data).sndUna = c.s.sndUna ∧
      (c.s.toSendVars.push data).sndWnd = c.s.sndWnd := by
    unfold SendVars.push
    split <;> exact ⟨rfl, rfl⟩
  exact ⟨rfl, rfl, rfl, hpush.1, .inl hpush.2, rfl, rfl, .one trivial⟩

theorem hostEof_effects (c : Ctx) : Effects t c c.hostEof := by
  unfold Ctx.hostEof
  refine (noteEof_quiet c).effects.trans ?_
  simp only
  split
  · exact sendFin_effects _
  · exact .refl

theorem readLoop_effects (rs : List ReadRes) : ∀ c : Ctx, Effects t c (Ctx.readLoop rs c).2 := by
  induction rs with
  | nil => exact fun _ => .refl
  | cons r rs ih =>
    intro c
    have hnext : Quiet c { c with io.oracle.reads := rs } := .silent rfl rfl rfl rfl rfl rfl rfl rfl
    unfold Ctx.readLoop
    refine hnext.effects.trans ?_
    generalize ({ c with io.oracle.reads := rs } : Ctx) = c₁
    rcases r with (_ | ⟨b, data⟩) | _ | _ | _
    · exact hostEof_effects c₁
    · refine (pushToClient_quiet c₁ ((b :: data).take (16 * 1024))).effects.trans ?_
      simp only
      split
      · exact Quiet.effects (.silent rfl rfl rfl rfl rfl rfl rfl rfl)
      · exact ih (c₁.pushToClient _)
    · exact .refl
    · exact ih c₁
    · exact (abort_quiet c₁).effects

theorem onHostReadable_effects (c : Ctx) : Effects t c c.onHostReadable := by
  have hread := readLoop_effects (t := t) c.io.oracle.reads c
  unfold Ctx.onHostReadable
  split
  · exact .refl
  · split
    · exact .refl
    · simp only
      generalize Ctx.readLoop c.io.oracle.reads c = r at hread ⊢
      split
      · exact hread.trans ((trySegmentAndEmit_effects r.2).trans (refreshZwp_effects _))
      · exact hread

theorem takeError_quiet (c : Ctx) : Quiet c c.takeError.2 := .silent rfl rfl rfl rfl rfl rfl rfl rfl

theorem connectFailed_quiet (c : Ctx) : Quiet c c.connectFailed.2 := by
  unfold Ctx.connectFailed
  split
  · exact takeError_quiet c
  · exact .refl c

theorem socketError_quiet (c : Ctx) (ev : HostEvent) : Quiet c (c.socketError ev).2 := by
  unfold Ctx.socketError
  split
  · exact takeError_quiet c
  · exact .refl c

theorem onHostWritable_quiet (c : Ctx) : Quiet c c.onHostWritable := by
  have hfailed := connectFailed_quiet c
  unfold Ctx.onHostWritable
  simp only
  generalize c.connectFailed = r at hfailed ⊢
  split
  · exact hfailed.trans (abort_quiet r.2)
  · have hwake : Quiet r.2 { r.2 with s.hostWritable := true } := .silent rfl rfl rfl rfl rfl rfl rfl rfl
    have hdrain := (hfailed.trans hwake).trans (tryDrainToHost_quiet _)
    unfold Ctx.writableDrained
    simp only
    split
    · exact hdrain.trans (shutdownWr_quiet _)
    · exact hdrain

theorem hostClosedEvent_effects (c : Ctx) : Effects t c c.hostClosedEvent := by
  unfold Ctx.hostClosedEvent
  refine (noteClosed_quiet c).effects.trans ?_
  simp only
  split
  · exact sendFin_effects _
  · exact .refl

theorem onHostEvent_effects (c : Ctx) (ev : HostEvent) : Effects t c (c.onHostEvent ev) := by
  have hfailed := (socketError_quiet c ev).effects (t := t)
  unfold Ctx.onHostEvent
  simp only
  generalize c.socketError ev = r at hfailed ⊢
  split
  · exact hfailed.trans (abort_quiet r.2).effects
  · refine hfailed.trans ?_
    have hwritable := effects_ite (t := t) (b := ev.isWritable) (onHostWritable_quiet r.2).effects
    generalize (if ev.isWritable then r.2.onHostWritable else r.2) = c₁ at hwritable ⊢
    have hreadable := effects_ite (t := t) (b := ev.isReadable) (onHostReadable_effects c₁)
    generalize (if ev.isReadable then c₁.onHostReadable else c₁) = c₂ at hreadable ⊢
    exact hwritable.trans (hreadable.trans (effects_ite (hostClosedEvent_effects c₂)))

theorem fanOutWindowUpdate_effects (c : Ctx) : Effects t c c.fanOutWindowUpdate := by
  unfold Ctx.fanOutWindowUpdate
  split
  · exact emitAck_effects c _ (by simp)
  · exact emitAck_effects c _ (by simp)
  · exact emitAck_effects c _ (by simp)
  · exact emitAck_effects c _ (by simp)
  · exact .refl

end

/-! ## Frames -/

/-- The session a segment is built from, with the window it advertises. -/
def Ctx.framing (c : Ctx) (flags : UInt8) : TcpSession :=
  c.s.advertise (c.s.wireWindow flags c.io.oracle.rwndScale)

/-- What handing a segment to the callback logs. -/
inductive Action.Hands (s : TcpSession) (cause : Cause) (flags : UInt8) (seq : UInt32)
    (payload options : Bytes) : Action → Prop
  | segment (ts pkt : Bytes) (ok : Bool) : Hands s cause flags seq payload options
      (.emit cause s (s.header flags seq s.rcvNxt s.advWnd.toUInt16 (options ++ ts) payload) pkt ok)
  | arm (d : UInt32) : Hands s cause flags seq payload options (.armRto d)

/-- An emission leaves the session but for pacing and queue, and logs the segment it framed. -/
structure Handed (c : Ctx) (cause : Cause) (flags : UInt8) (seq : UInt32) (payload options : Bytes)
    (c' : Ctx) : Prop where
  session : ∃ p q, c'.s = { c.s with toPacing := p, retx := q }
  oracle : c'.io.oracle = c.io.oracle
  adds : Adds c.io.trace c'.io.trace (Action.Hands (c.framing flags) cause flags seq payload options)

theorem scheduleTlp_pacing (s : TcpSession) (now : UInt32) :
    ∃ p, s.scheduleTlp now = { s with toPacing := p } := by
  unfold TcpSession.scheduleTlp
  split
  · exact ⟨{ s.toPacing with tlpDeadlineMs := 0 }, rfl⟩
  · exact ⟨{ s.toPacing with tlpDeadlineMs := _ }, rfl⟩

theorem armTlp_pacing (c : Ctx) (flags : UInt8) (now : UInt32) :
    ∃ p, c.armTlp flags now = { c with s.toPacing := p } := by
  unfold Ctx.armTlp
  split
  · obtain ⟨p, hp⟩ := scheduleTlp_pacing c.s now
    exact ⟨p, congrArg (fun s => ({ c with s := s } : Ctx)) hp⟩
  · exact ⟨c.s.toPacing, rfl⟩

theorem armIfIdle_pacing (c : Ctx) (now : UInt32) : ∃ p acts, (∀ a ∈ acts, ∃ d, a = .armRto d) ∧
    c.armIfIdle now = { c with s.toPacing := p, io.trace := c.io.trace ++ acts } := by
  unfold Ctx.armIfIdle
  split
  · exact ⟨{ c.s.toPacing with rtoDeadlineMs := now + c.s.rtoMs }, [.armRto (now + c.s.rtoMs)],
      by simp, rfl⟩
  · exact ⟨c.s.toPacing, [], by simp, by rw [List.append_nil]⟩

theorem recordForRetx_logs (c : Ctx) (flags : UInt8) (seq : UInt32) (payload options : Bytes) :
    ∃ p q n acts, (∀ a ∈ acts, ∃ d, a = .armRto d) ∧ c.recordForRetx flags seq payload options =
      { c with
        s.toPacing := p
        s.retx := q
        io.readings := n
        io.trace := c.io.trace ++ acts } := by
  unfold Ctx.recordForRetx
  simp only
  obtain ⟨e, he⟩ : ∃ e : OutSeg, ⟨seq, flags, c.nowMs.1, false, false, payload, options⟩ = e := ⟨_, rfl⟩
  rw [he]
  obtain ⟨c₁, hc₁⟩ : ∃ c₁ : Ctx, c₁ = (c.nowMs.2.pushRetx e).nowMs.2 := ⟨_, rfl⟩
  rw [← hc₁]
  generalize (c.nowMs.2.pushRetx e).nowMs.1 = now
  obtain ⟨p, acts, hacts, hidle⟩ := armIfIdle_pacing c₁ now
  rw [hidle]
  obtain ⟨p', htlp⟩ := armTlp_pacing { c₁ with s.toPacing := p, io.trace := c₁.io.trace ++ acts } flags now
  rw [htlp, hc₁]
  exact ⟨p', _, _, acts, hacts, rfl⟩

theorem countPrr_pacing (c : Ctx) (payload : Bytes) :
    ∃ p, c.countPrr payload = { c with s.toPacing := p } := by
  unfold Ctx.countPrr
  split
  · exact ⟨{ c.s.toPacing with prrOut := _ }, rfl⟩
  · exact ⟨c.s.toPacing, rfl⟩

theorem emitSegment_handed (c : Ctx) (cause : Cause) (flags : UInt8) (seq : UInt32) (payload : Bytes)
    (record : Bool) (options : Bytes) : Handed c cause flags seq payload options
      (c.emitSegment cause flags seq payload record options).2 := by
  obtain ⟨ts, n, -, hcomb⟩ := combineOptions_spec c flags options
  obtain ⟨s, hs⟩ : ∃ s, s = c.framing flags := ⟨_, rfl⟩
  have hadv : s = { c.s with advWnd := s.advWnd } := by
    rw [hs]
    exact advertise_eq _ _
  have hpacing : ∃ p, s = { c.s with toPacing := p } := ⟨{ c.s.toPacing with advWnd := s.advWnd }, hadv⟩
  have hhands : ∀ pkt ok, Action.Hands s cause flags seq payload options
      (.emit cause s (s.header flags seq s.rcvNxt s.advWnd.toUInt16 (options ++ ts) payload) pkt ok) :=
    fun pkt ok => .segment ts pkt ok
  unfold Ctx.emitSegment
  simp only [hcomb]
  rw [show c.s.advertise (c.s.wireWindow flags c.io.oracle.rwndScale) = s from hs.symm]
  generalize s.header flags seq s.rcvNxt s.advWnd.toUInt16 (options ++ ts) payload = b at hhands ⊢
  obtain ⟨p, hp⟩ := hpacing
  split
  · refine ⟨⟨p, c.s.retx, hp⟩, rfl, .none⟩
  · rename_i pkt _
    obtain ⟨ok, hok⟩ : ∃ ok, c.io.oracle.accept c.io.emits = ok := ⟨_, rfl⟩
    simp only [Ctx.emit, Ctx.log, hok]
    have hlogged : Adds c.io.trace (c.io.trace ++ [.emit cause s b pkt ok])
        (Action.Hands (c.framing flags) cause flags seq payload options) := by
      rw [← hs]
      exact .one (hhands pkt ok)
    obtain ⟨c₁, hc₁⟩ : ∃ c₁ : Ctx, c₁ = ⟨s, ⟨c.io.oracle, n, c.io.emits + 1,
      c.io.trace ++ [.emit cause s b pkt ok]⟩⟩ := ⟨_, rfl⟩
    rw [← hc₁]
    have hs₁ : c₁.s = { c.s with toPacing := p } := by rw [hc₁, ← hp]
    have horacle : c₁.io.oracle = c.io.oracle := by rw [hc₁]
    have htrace : c₁.io.trace = c.io.trace ++ [.emit cause s b pkt ok] := by rw [hc₁]
    rw [← htrace] at hlogged
    split
    · exact ⟨⟨p, c.s.retx, hs₁⟩, horacle, hlogged⟩
    · obtain ⟨p₁, hprr⟩ := countPrr_pacing c₁ payload
      rw [hprr]
      split
      · obtain ⟨p₂, q, n', acts, hacts, hrec⟩ :=
          recordForRetx_logs { c₁ with s.toPacing := p₁ } flags seq payload options
        rw [hrec]
        refine ⟨⟨p₂, q, by simp only [hs₁]⟩, horacle, hlogged.trans ⟨acts, rfl, fun a ha => ?_⟩⟩
        obtain ⟨d, rfl⟩ := hacts a ha
        exact .arm d
      · exact ⟨⟨p₁, c.s.retx, by simp only [hs₁]⟩, horacle, hlogged⟩

/-- What no effect changes; the peer's window only as its segments say. -/
structure Fixed (c c' : Ctx) : Prop where
  peer : c'.s.toPeerOpts = c.s.toPeerOpts
  wnd : c'.s.sndWnd = c.s.sndWnd ∨ ∃ w : UInt16, c'.s.sndWnd = w.toUInt32 <<< c.s.peerWscale.toUInt32
  rcvWnd : c'.s.rcvWnd = c.s.rcvWnd
  scale : c'.io.oracle.rwndScale = c.io.oracle.rwndScale

theorem Fixed.of_session {c c' : Ctx} (h : ∃ p q u, c'.s = { c.s with toPacing := p, retx := q, sndUna := u })
    (hscale : c'.io.oracle = c.io.oracle) : Fixed c c' := by
  obtain ⟨p, q, u, hs⟩ := h
  refine ⟨?_, .inl ?_, ?_, by rw [hscale]⟩
  all_goals rw [hs]

theorem updatePrrAfterAck_pacing (s : TcpSession) (prev acked : UInt32) :
    ∃ p, s.updatePrrAfterAck prev acked = { s with toPacing := p } := by
  unfold TcpSession.updatePrrAfterAck
  split
  · exact ⟨s.toPacing, rfl⟩
  · exact ⟨{ s.toPacing with prrDelivered := _, cwnd := _ }, rfl⟩

theorem noteNewAck_pacing (c : Ctx) (ackNo : UInt32) :
    ∃ p, c.noteNewAck ackNo = { c with s.toPacing := p } := by
  have hundo : ∃ p, Ctx.eifelUndo c.s = { c.s with toPacing := p } := by
    unfold Ctx.eifelUndo
    split
    · simp only
      split
      · exact ⟨{ c.s.toPacing with cwnd := _, ssthresh := _, tsvalAtRto := 0 }, rfl⟩
      · exact ⟨{ c.s.toPacing with tsvalAtRto := 0 }, rfl⟩
    · exact ⟨c.s.toPacing, rfl⟩
  have hgrow : ∀ s : TcpSession, ∃ p, Ctx.growCwnd s ackNo (ackNo - c.s.sndUna) =
      { s with toPacing := p } := by
    intro s
    unfold Ctx.growCwnd
    simp only
    split
    · split
      · exact ⟨{ s.toPacing with cwnd := _, inRecovery := _, recoveryPoint := _ }, rfl⟩
      · exact ⟨{ s.toPacing with cwnd := _ }, rfl⟩
    · split
      · exact ⟨{ s.toPacing with cwnd := _ }, rfl⟩
      · exact ⟨{ s.toPacing with cwnd := _ }, rfl⟩
  unfold Ctx.noteNewAck
  obtain ⟨p, hp⟩ := hundo
  rw [hp]
  obtain ⟨p', hp'⟩ := hgrow { c.s with toPacing := p }
  rw [hp']
  exact ⟨{ p' with lastAckSeen := ackNo, dupAckCount := 0 }, rfl⟩

theorem Effect.fixed {t : Stage} {c c' : Ctx} (h : Effect t c c') : Fixed c c' := by
  cases h with
  | quiet h => exact ⟨h.peer, h.wnd, h.rcvWnd, h.scale⟩
  | emitSegment _ cause _ flags seq payload record options =>
    have hh := emitSegment_handed c cause flags seq payload record options
    obtain ⟨p, q, hs⟩ := hh.session
    exact .of_session ⟨p, q, c.s.sndUna, hs⟩ hh.oracle
  | prr _ _ prev acked =>
    obtain ⟨p, hp⟩ := updatePrrAfterAck_pacing c.s prev acked
    exact .of_session ⟨p, c.s.retx, c.s.sndUna, hp⟩ rfl
  | newAck _ ackNo =>
    obtain ⟨p, hp⟩ := noteNewAck_pacing c ackNo
    rw [hp]
    exact .of_session ⟨p, c.s.retx, c.s.sndUna, rfl⟩ rfl
  | _ => exact ⟨rfl, .inl rfl, rfl, rfl⟩

theorem Effects.fixed {t : Stage} {c c' : Ctx} (h : Effects t c c') : Fixed c c' := by
  induction h with
  | refl => exact ⟨rfl, .inl rfl, rfl, rfl⟩
  | @tail c₁ c₂ _ heff ih =>
    have hfix := heff.fixed
    refine ⟨hfix.peer.trans ih.peer, ?_, hfix.rcvWnd.trans ih.rcvWnd, hfix.scale.trans ih.scale⟩
    obtain hwnd | ⟨w, hwnd⟩ := hfix.wnd
    · rw [hwnd]
      exact ih.wnd
    · rw [show c₁.s.peerWscale = c.s.peerWscale from congrArg PeerOpts.peerWscale ih.peer] at hwnd
      exact .inr ⟨w, hwnd⟩

/-- What an effect logs: segments framed from the session as it stood, RSTs, and what is no emission. -/
theorem Effect.adds {t : Stage} {c c' : Ctx} (h : Effect t c c') :
    Adds c.io.trace c'.io.trace fun a => a.windowless ∨ ∃ cause flags seq payload options,
      (cause = .fastRetx → t = .dup) ∧ a.Hands (c.framing flags) cause flags seq payload options := by
  cases h with
  | quiet h => exact h.adds.mono fun _ ha => .inl ha
  | emitSegment _ cause hc flags seq payload record options =>
    exact (emitSegment_handed c cause flags seq payload record options).adds.mono fun _ ha =>
      .inr ⟨cause, flags, seq, payload, options, hc, ha⟩
  | arm | pop => exact .one (.inl trivial)
  | _ => exact .none

/-! ## What the options leave -/

theorem rackUpdateFromDelivered_counted (p : Pacing) (sentMs endSeq now : UInt32) :
    (p.rackUpdateFromDelivered sentMs endSeq now).counted = p.counted := by
  unfold Pacing.rackUpdateFromDelivered
  split
  · rfl
  · simp only
    split <;> rfl

theorem rackUpdates_counted (now : UInt32) (hits : List OutSeg) : ∀ p : Pacing,
    (hits.foldl (fun (p : Pacing) (e : OutSeg) =>
      p.rackUpdateFromDelivered e.sentMs (e.seq + e.data.length.toUInt32) now) p).counted =
      p.counted := by
  induction hits with
  | nil => exact fun _ => rfl
  | cons e hits ih => exact fun p => (ih _).trans (rackUpdateFromDelivered_counted _ _ _ _)

theorem SackEffects.counted {c c' : Ctx} (h : SackEffects c c') :
    ∃ n, c'.s.toPacing.counted = { c.s.toPacing.counted with sackedBytes := n } := by
  induction h with
  | refl => exact ⟨_, rfl⟩
  | @tail c₁ c₂ _ heff ih =>
    obtain ⟨n, hn⟩ := ih
    cases heff with
    | pace p hp => exact ⟨n, hp.trans hn⟩
    | @block left right _ =>
      refine ⟨(c₁.onSackBlock left right).s.sackedBytes, ?_⟩
      have hblock : (c₁.onSackBlock left right).s.toPacing.counted =
          { c₁.s.toPacing.counted with sackedBytes := (c₁.onSackBlock left right).s.sackedBytes } := by
        obtain ⟨hits, hhits⟩ : ∃ hits, hits = c₁.s.retx.filter (Ctx.sackHits left right) := ⟨_, rfl⟩
        obtain ⟨m, hm⟩ : ∃ m, m = hits.foldl (fun n (e : OutSeg) => n + e.data.length.toUInt32)
          c₁.s.sackedBytes := ⟨_, rfl⟩
        have hpacing : (c₁.onSackBlock left right).s.toPacing = hits.foldl
            (fun (p : Pacing) (e : OutSeg) => p.rackUpdateFromDelivered e.sentMs
              (e.seq + e.data.length.toUInt32) c₁.nowMs.1) { c₁.s.toPacing with sackedBytes := m } := by
          rw [hm, hhits]
          rfl
        have hupdates := rackUpdates_counted c₁.nowMs.1 hits { c₁.s.toPacing with sackedBytes := m }
        rw [← hpacing] at hupdates
        have hcount : (c₁.onSackBlock left right).s.sackedBytes = m := congrArg Pacing.sackedBytes hupdates
        rw [hcount, hupdates]
        rfl
      rw [hblock, hn]

theorem SackEffects.oracle {c c' : Ctx} (h : SackEffects c c') : c'.io.oracle = c.io.oracle := by
  induction h with
  | refl => rfl
  | tail _ heff ih =>
    cases heff with
    | pace p _ => exact ih
    | block _ => exact ih

/-- An invariant of every effect of a stage holds after the stage. -/
theorem Effects.invariant {t : Stage} {P : Ctx → Prop}
    (hstep : ∀ c c' : Ctx, Effect t c c' → P c → P c') {c c' : Ctx} (h : Effects t c c') (hc : P c) :
    P c' := by
  induction h with
  | refl => exact hc
  | tail _ heff ih => exact hstep _ _ heff ih

end BaleVpn.Tcp
