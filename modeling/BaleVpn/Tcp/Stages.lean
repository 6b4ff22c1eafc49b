import BaleVpn.Tcp.Effects

/-!
# The stages of an event

An event of an open session is its options, its ACK number and the rest, or the timers, or the rest
alone; a session starts with the rest of its SYN. What every effect of each stage keeps holds along every
run.
-/

namespace BaleVpn.Tcp

open Net Lib Relation

/-! ## Events -/

/-- Whether the handler of the session's state hands the ACK number to `on_ack`. -/
def TcpSession.acksOn (s : TcpSession) (flags : UInt8) (ack : UInt32) : Bool :=
  match s.state with
  | .synRcvd => hasFlag flags TCP_ACK && ack == s.sndNxt
  | .established | .closeWait | .finWait1 | .closing | .lastAck => hasFlag flags TCP_ACK
  | _ => false

namespace Ctx

/-- The part of a segment that `on_ack` sees. -/
def ackStage (c : Ctx) (flags : UInt8) (ack : UInt32) : Ctx :=
  if c.s.acksOn flags ack then c.nowMs.2.onAck ack c.nowMs.1 else c

end Ctx

theorem ackIfFlagged_stage (c : Ctx) (flags : UInt8) (ack : UInt32)
    (h : c.s.acksOn flags ack = hasFlag flags TCP_ACK) :
    Effects .rest (c.ackStage flags ack) (c.ackIfFlagged flags ack) := by
  unfold Ctx.ackStage Ctx.ackIfFlagged
  rw [h]
  simp only
  split
  · exact .refl
  · exact (nowMs_quiet c).effects

theorem processSynRcvd_stage (c : Ctx) (flags : UInt8) (seq ack : UInt32) (wnd : UInt16)
    (payload : Bytes) (hstate : c.s.state = .synRcvd) :
    Effects .rest (c.ackStage flags ack) (c.processSynRcvd flags seq ack wnd payload) := by
  unfold Ctx.ackStage Ctx.processSynRcvd TcpSession.acksOn
  rw [hstate]
  cases hflag : hasFlag flags TCP_ACK with
  | false => simpa using ReflTransGen.refl
  | true =>
    by_cases hack : ack = c.s.sndNxt
    · simp only [Bool.not_true, Bool.false_eq_true, if_false, hack, bne_self_eq_false, Bool.true_and,
        beq_self_eq_true, if_true]
      generalize c.nowMs.2.onAck c.s.sndNxt c.nowMs.1 = c₁
      have hopen : Quiet c₁ { c₁.setSndWnd wnd with s.state := .established } :=
        (setSndWnd_quiet c₁ wnd).trans (.silent rfl rfl rfl rfl rfl rfl rfl rfl)
      refine ((hopen.trans (openHostSocket_quiet _)).effects).trans ?_
      split
      · exact (abort_quiet _).effects
      · exact synRcvdOpened_effects _ _ _ _
    · simpa [hack] using ReflTransGen.refl

theorem dispatchState_stage (c : Ctx) (flags : UInt8) (seq ack : UInt32) (wnd : UInt16)
    (payload : Bytes) :
    Effects .rest (c.ackStage flags ack) (c.dispatchState flags seq ack wnd payload) := by
  have hflagged : c.s.acksOn flags ack = hasFlag flags TCP_ACK →
      Effects .rest (c.ackStage flags ack) ((c.ackIfFlagged flags ack).setSndWnd wnd) := fun h =>
    (ackIfFlagged_stage c flags ack h).trans (setSndWnd_quiet _ wnd).effects
  unfold Ctx.dispatchState
  cases hstate : c.s.state with
  | synRcvd => exact processSynRcvd_stage c flags seq ack wnd payload hstate
  | established =>
    refine (hflagged (by unfold TcpSession.acksOn; rw [hstate])).trans ?_
    show Effects .rest _ (c.processEstablished flags seq ack wnd payload)
    unfold Ctx.processEstablished
    generalize (c.ackIfFlagged flags ack).setSndWnd wnd = c₁
    refine (takePayload_effects c₁ seq payload).trans ?_
    simp only
    generalize c₁.takePayload seq payload = c₂
    have hfin := effects_ite (t := .rest) (b := hasFlag flags TCP_FIN)
      (establishedFin_effects c₂ (seq == c₁.s.rcvNxt) seq payload)
    exact hfin.trans ((trySegmentAndEmit_effects _).trans (refreshZwp_effects _))
  | closeWait =>
    refine (hflagged (by unfold TcpSession.acksOn; rw [hstate])).trans ?_
    show Effects .rest _ (c.processCloseWait flags ack wnd)
    unfold Ctx.processCloseWait
    generalize (c.ackIfFlagged flags ack).setSndWnd wnd = c₁
    have hfin := effects_ite (t := .rest) (b := hasFlag flags TCP_FIN) (emitAck_effects c₁ .ack (by simp))
    exact hfin.trans ((trySegmentAndEmit_effects _).trans (refreshZwp_effects _))
  | finWait1 =>
    refine (hflagged (by unfold TcpSession.acksOn; rw [hstate])).trans ?_
    show Effects .rest _ (c.processFinWait1 flags seq ack wnd payload)
    unfold Ctx.processFinWait1
    generalize (c.ackIfFlagged flags ack).setSndWnd wnd = c₁
    exact (takePayload_effects c₁ seq payload).trans
      ((finWait1Close_effects _ _ _ _ _).trans (refreshZwp_effects _))
  | finWait2 =>
    have hstay : c.ackStage flags ack = c := by
      unfold Ctx.ackStage TcpSession.acksOn
      rw [hstate]
      rfl
    rw [hstay]
    refine (setSndWnd_quiet c wnd).effects.trans ?_
    show Effects .rest _ (c.processFinWait2 flags seq wnd payload)
    unfold Ctx.processFinWait2
    generalize c.setSndWnd wnd = c₁
    exact (takePayload_effects c₁ seq payload).trans
      ((finWait2Close_effects _ _ _ _ _).trans (refreshZwp_effects _))
  | closing =>
    refine (ackIfFlagged_stage c flags ack (by unfold TcpSession.acksOn; rw [hstate])).trans ?_
    show Effects .rest _ (c.processClosing flags ack)
    unfold Ctx.processClosing
    simp only
    generalize c.ackIfFlagged flags ack = c₁
    split
    · exact (nowMs_quiet c₁).effects.trans (enterTimeWait_effects _ _)
    · exact .refl
  | lastAck =>
    show Effects .rest _ (c.processLastAck flags ack)
    unfold Ctx.ackStage Ctx.processLastAck TcpSession.acksOn
    rw [hstate]
    simp only
    split
    · split
      · exact (markClosed_quiet _).effects
      · exact .refl
    · exact .refl
  | timeWait =>
    have hstay : c.ackStage flags ack = c := by
      unfold Ctx.ackStage TcpSession.acksOn
      rw [hstate]
      rfl
    rw [hstay]
    exact timeWaitFin_effects c flags
  | _ =>
    unfold Ctx.ackStage TcpSession.acksOn
    rw [hstate]
    exact .refl

/-- A segment whose header `on_segment` accepts. -/
def headerOk (seg : Bytes) : Bool :=
  20 ≤ seg.length && 20 ≤ TcpHeader.dataOff seg && TcpHeader.dataOff seg ≤ seg.length

def segOptions (seg : Bytes) : Bytes := (seg.take (TcpHeader.dataOff seg)).drop 20

/-- A segment's options and then its ACK number, unless it is a RST. -/
def Ctx.afterAck (c : Ctx) (seg : Bytes) : Ctx :=
  let c := c.preprocess (segOptions seg) (TcpHeader.seq seg)
  if hasFlag (TcpHeader.flags seg) TCP_RST then c
  else c.ackStage (TcpHeader.flags seg) (TcpHeader.ack seg)

/-- What an event does to a session that is not closed, stage by stage. -/
inductive EventStages (c : Ctx) : Event → Ctx → Prop
  | malformed {seg : Bytes} (h : headerOk seg = false) : EventStages c (.segment seg) c
  | segment {seg : Bytes} {c' : Ctx} (h : headerOk seg = true)
      (hr : Effects .rest (c.afterAck seg) c') : EventStages c (.segment seg) c'
  | host {ev : HostEvent} {c' : Ctx} (h : Effects .rest c c') : EventStages c (.host ev) c'
  | tick {now : UInt32} {c' : Ctx} (h : Effects .timer c c') : EventStages c (.tick now) c'
  | windowUpdate {c' : Ctx} (h : Effects .rest c c') : EventStages c .windowUpdate c'

theorem preprocess_state (c : Ctx) (opts : Bytes) (seq : UInt32) :
    (c.preprocess opts seq).s.state = c.s.state :=
  congrArg (fun v : View => v.state) (preprocess_view c opts seq)

theorem onSegment_stages (c : Ctx) (hopen : c.s.state ≠ .closed) (seg : Bytes) :
    EventStages c (.segment seg) (c.onSegment seg).2 := by
  have hstate := preprocess_state c (segOptions seg) (TcpHeader.seq seg)
  unfold Ctx.onSegment
  split
  · rename_i hlen
    exact .malformed (by simp only [headerOk]; grind)
  · rename_i hlen
    simp only
    split
    · rename_i hoff
      exact .malformed (by simp only [headerOk]; grind)
    · rename_i hoff
      refine .segment (by simp only [headerOk]; grind) ?_
      unfold Ctx.afterAck segOptions
      unfold segOptions at hstate
      generalize c.preprocess ((seg.take (TcpHeader.dataOff seg)).drop 20) (TcpHeader.seq seg) = c₁
        at hstate ⊢
      simp only
      split
      · split
        · exact (markClosed_quiet c₁).effects
        · exact .refl
      · rw [if_neg (by rw [hstate]; simpa using hopen)]
        exact dispatchState_stage c₁ _ _ _ _ _

theorem handle_stages (c : Ctx) (hopen : c.s.state ≠ .closed) (ev : Event) :
    EventStages c ev (c.handle ev) := by
  cases ev with
  | segment seg => exact onSegment_stages c hopen seg
  | host ev => exact .host (onHostEvent_effects c ev)
  | tick now => exact .tick (tick_effects c now)
  | windowUpdate => exact .windowUpdate (fanOutWindowUpdate_effects c)

/-- What every effect of every stage keeps, and every step of the options, holds after an event. -/
theorem EventStages.invariant {P : Ctx → Prop}
    (hstep : ∀ (st : Stage) (c c' : Ctx), Effect st c c' → P c → P c')
    (hsack : ∀ c c' : Ctx, SackEffect c c' → P c → P c') {c c' : Ctx} {ev : Event}
    (h : EventStages c ev c') (hc : P c) : P c' := by
  have hopts : ∀ c₁ : Ctx, SackEffects c c₁ → P c₁ := by
    intro c₁ h
    induction h with
    | refl => exact hc
    | tail _ heff ih => exact hsack _ _ heff ih
  have hack : ∀ seg, P (c.afterAck seg) := by
    intro seg
    have hpre := hopts _ (preprocess_effects c (segOptions seg) (TcpHeader.seq seg))
    unfold Ctx.afterAck Ctx.ackStage
    generalize c.preprocess (segOptions seg) (TcpHeader.seq seg) = c₁ at hpre ⊢
    simp only
    split
    · exact hpre
    · split
      · have hread : P c₁.nowMs.2 := hstep .rest _ _ (.quiet (nowMs_quiet c₁)) hpre
        obtain heff | heff := onAck_effects c₁.nowMs.2 (TcpHeader.ack seg) c₁.nowMs.1
        · exact heff.invariant (hstep .dup) hread
        · exact heff.invariant (hstep .ack) hread
      · exact hpre
  cases h with
  | malformed _ => exact hc
  | segment _ hr => exact hr.invariant (hstep .rest) (hack _)
  | host h => exact h.invariant (hstep .rest) hc
  | tick h => exact h.invariant (hstep .timer) hc
  | windowUpdate h => exact h.invariant (hstep .rest) hc

/-! ## The start -/

/-- The session between its SYN and its SYN-ACK. -/
structure BeforeSynAck (c : Ctx) : Prop where
  retx : c.s.retx = []
  trace : c.io.trace = []
  pacing : c.s.toPacing.counted = ({ cwnd := 10 * c.s.peerMss.toUInt32 } : Pacing).counted
  peer : c.s.toPeerOpts.Ok
  una : c.s.sndNxt = c.s.sndUna
  rcvWnd : c.s.rcvWnd = 1024 * 1024
  wscale : c.s.peerWscale ≤ 14
  wnd : ∃ w : UInt16, c.s.sndWnd = w.toUInt32

theorem readSyn_wscale (c : Ctx) (seg : Bytes) (h : c.s.peerWscale ≤ 14) :
    (c.readSyn seg).s.peerWscale ≤ 14 := by
  have hstart : ∀ (c : Ctx) r, (c.startTimestamps r).s.peerWscale = c.s.peerWscale := by
    intro c r
    unfold Ctx.startTimestamps
    split <;> rfl
  unfold Ctx.readSyn
  simp only
  split
  · unfold Ctx.negotiate
    rw [hstart]
    show (PeerOpts.negotiate _ _).peerWscale ≤ 14
    unfold PeerOpts.negotiate
    simp only
    split
    · rw [UInt8.le_iff_toNat_le]
      show (if _ ≤ (14 : UInt8) then _ else (14 : UInt8)).toNat ≤ 14
      split
      · rename_i hle
        exact UInt8.le_iff_toNat_le.mp hle
      · decide
    · exact h
  · exact h

theorem startTimestamps_counted (c : Ctx) (r : ParsedOpts) :
    (c.startTimestamps r).s.toPacing.counted = c.s.toPacing.counted := by
  unfold Ctx.startTimestamps
  split <;> rfl

theorem readSyn_counted (c : Ctx) (seg : Bytes) :
    (c.readSyn seg).s.toPacing.counted = c.s.toPacing.counted := by
  unfold Ctx.readSyn
  simp only
  split
  · exact startTimestamps_counted _ _
  · rfl

theorem prepareSyn_counted (c : Ctx) (seg : Bytes) :
    (c.prepareSyn seg).s.toPacing.counted =
      { c.s.toPacing.counted with cwnd := 10 * (c.prepareSyn seg).s.peerMss.toUInt32 } := by
  have hread := readSyn_counted c seg
  unfold Ctx.prepareSyn
  generalize c.readSyn seg = c₁ at hread ⊢
  rw [← hread]
  rfl

theorem preprocess_new (c : Ctx) (opts : Bytes) (seq : UInt32) (hsack : c.s.peerSackOk = false) :
    (c.preprocess opts seq).s.toPacing.counted = c.s.toPacing.counted := by
  unfold Ctx.preprocess
  simp only [hsack, Bool.false_and, Bool.false_eq_true, if_false]
  exact (noteTimestamps_pace _ opts seq).1

theorem sendSynAck_effects (c : Ctx) (opts : Bytes) : Effects .rest c (c.sendSynAck opts) := by
  have hemit : Effect .rest c (c.emitSegment .synAck (TCP_SYN ||| TCP_ACK) c.s.sndUna [] true opts).2 :=
    .emitSegment c .synAck (by simp) _ _ _ _ _
  unfold Ctx.sendSynAck
  generalize (c.emitSegment .synAck (TCP_SYN ||| TCP_ACK) c.s.sndUna [] true opts).2 = c₁ at hemit ⊢
  have hquiet : Quiet c₁ ({ c₁ with s.sndNxt := c₁.s.sndUna + 1 } : Ctx).nowMs.2 :=
    .silent rfl rfl rfl rfl rfl rfl rfl rfl
  exact .tail (.tail (.single hemit) (.quiet hquiet)) (.arm _ _)

theorem Accepted.effects {key : FlowKey} {c₀ : Ctx} (h : Accepted key c₀) :
    ∃ c, BeforeSynAck c ∧ Effects .rest c c₀ := by
  obtain ⟨-, syn, o, rfl, hstate⟩ := h
  obtain ⟨opts, seq, hstart⟩ := start_accepts key syn o hstate
  have hload : (Ctx.load { s := .new key } o).view = Ctx.view { s := .new key } := rfl
  have hview := (preprocess_view (Ctx.load { s := .new key } o) opts seq).trans hload
  have hcounted := preprocess_new (Ctx.load { s := .new key } o) opts seq rfl
  rw [hstart] at hstate ⊢
  generalize (Ctx.load { s := .new key } o).preprocess opts seq = c at hview hcounted hstate ⊢
  have hclosed : c.s.state = .closed := congrArg (fun v : View => v.state) hview
  unfold Ctx.acceptInitialSyn at hstate ⊢
  simp only at hstate ⊢
  split at hstate
  · rw [hclosed] at hstate
    cases hstate
  · rename_i hflags
    rw [if_neg hflags]
    obtain ⟨isn, rcv, wnd, peer, hp, hprepared⟩ := prepareSyn_view c syn hview
    have hpacing := prepareSyn_counted c syn
    have hwscale : (c.prepareSyn syn).s.peerWscale ≤ 14 := readSyn_wscale c syn (by
      rw [show c.s.peerWscale = 0 from congrArg (fun v : View => v.peer.peerWscale) hview]
      decide)
    have hwnd : (c.prepareSyn syn).s.sndWnd = (TcpHeader.window syn).toUInt32 := rfl
    obtain ⟨sopts, n, -, hopts⟩ := synAckOptions_spec (c.prepareSyn syn)
    generalize c.prepareSyn syn = c₁ at hprepared hpacing hwscale hwnd hopts ⊢
    simp only [hopts]
    refine ⟨{ c₁ with io.readings := n }, ⟨?_, ?_, ?_, ?_, ?_, ?_, hwscale, ?_⟩,
      sendSynAck_effects _ sopts⟩
    · exact List.map_eq_nil_iff.mp (congrArg (fun v : View => v.queue) hprepared)
    · exact congrArg View.trace hprepared
    · rw [hcounted] at hpacing
      exact hpacing
    · rw [show c₁.s.toPeerOpts = peer from congrArg (fun v : View => v.peer) hprepared]
      exact hp
    · have hsend : c₁.s.toSendVars = { sndUna := isn, sndNxt := isn, sndWnd := wnd } :=
        congrArg (fun v : View => v.send) hprepared
      exact (congrArg SendVars.sndNxt hsend).trans (congrArg SendVars.sndUna hsend).symm
    · exact congrArg (fun v : View => v.recv.rcvWnd) hprepared
    · exact ⟨_, hwnd⟩

/-! ## Rules -/

theorem step_stages {c : Ctx} (hopen : c.s.state ≠ .closed) (i : Input) :
    EventStages (c.load i.oracle) i.event (c.step i) := by
  rw [step_open hopen]
  exact handle_stages (c.load i.oracle) hopen i.event

/-- The rule for runs whose events all meet a condition, by the stages of the events. -/
theorem run_stages {c₀ : Ctx} {P : Ctx → Prop} {Q : Ctx → Input → Prop} (hstart : P c₀)
    (hstep : ∀ (c : Ctx) (i : Input), c.s.state ≠ .closed →
      EventStages (c.load i.oracle) i.event (c.step i) → Q c i → P c → P (c.step i))
    {inputs : List Input} (hQ : Each (fun pre i => Q (c₀.run pre) i) inputs) :
    P (c₀.run inputs) :=
  run_induction hstart (fun c i hopen _ hq hc => hstep c i hopen (step_stages hopen i) hq hc) hQ

end BaleVpn.Tcp
