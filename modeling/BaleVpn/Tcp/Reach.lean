import BaleVpn.Lib.Log
import BaleVpn.Tcp.Outcome
import Mathlib.Data.List.Induction

/-!
# Reachable sessions

What a session looks like after its SYN, and the induction over the events of a run that every
invariant below uses.
-/

namespace BaleVpn.Tcp

open Net Lib Relation

/-! ## The start -/

/-- What the handshake can negotiate. -/
structure PeerOpts.Ok (p : PeerOpts) : Prop where
  mssPos : 0 < p.peerMss.toNat
  mssLe : p.peerMss.toNat ≤ ownMss.toNat
  wscale : p.ownWscale = if p.peerWsOk then 4 else 0

/-- The session between its SYN and its SYN-ACK. -/
def synCore (key : FlowKey) (isn rcv wnd : UInt32) (peer : PeerOpts) : Core where
  key
  state := .synRcvd
  send := { sndUna := isn, sndNxt := isn, sndWnd := wnd }
  recv := { rcvNxt := rcv }
  peer
  host := {}
  queue := []

/-- The options of a SYN-ACK. -/
def SynOptions (opts : Bytes) : Prop := opts.length ≤ 24 ∧ opts.length % 4 = 0

/-- The view after the SYN: the SYN-ACK is on its way, or was lost to the callback. -/
inductive Started (key : FlowKey) : View → Prop
  | lost {isn rcv wnd : UInt32} {peer : PeerOpts} {opts : Bytes} {s : TcpSession} {b : TcpBuild}
      (acts : List Action) (d : UInt32) (hp : peer.Ok) (ho : SynOptions opts)
      (hf : Framed (synCore key isn rcv wnd peer) (TCP_SYN ||| TCP_ACK) isn [] opts s b)
      (ha : (buildTcp 1564 b = none ∧ acts = []) ∨
        ∃ pkt, buildTcp 1564 b = some pkt ∧ acts = [.emit .synAck s b pkt false]) :
      Started key
        { synCore key isn rcv wnd peer with
          send.sndNxt := isn + 1
          rto := d
          trace := acts ++ [.armRto d] }
  | sent {isn rcv wnd : UInt32} {peer : PeerOpts} {opts : Bytes} {s : TcpSession} {b : TcpBuild}
      {pkt : Bytes} (d d' : UInt32) (hp : peer.Ok) (ho : SynOptions opts)
      (hf : Framed (synCore key isn rcv wnd peer) (TCP_SYN ||| TCP_ACK) isn [] opts s b)
      (hb : buildTcp 1564 b = some pkt) :
      Started key
        { synCore key isn rcv wnd peer with
          send.sndNxt := isn + 1
          queue := [.fresh isn (TCP_SYN ||| TCP_ACK) [] opts]
          rto := d'
          trace := [.emit .synAck s b pkt true, .armRto d, .armRto d'] }

theorem PeerOpts.negotiate_mss (p : PeerOpts) (r : ParsedOpts) (h : 0 < p.peerMss.toNat) :
    0 < (p.negotiate r).peerMss.toNat := by
  unfold PeerOpts.negotiate
  simp only [bne_iff_ne, ne_eq]
  split
  · rename_i hne
    have : r.mss.toNat ≠ 0 := fun h0 => hne (UInt16.toNat_inj.mp h0)
    omega
  · exact h

theorem uint16_toNat_min (a b : UInt16) : (min a b).toNat = min a.toNat b.toNat := by
  show (if a ≤ b then a else b).toNat = _
  split
  all_goals
    rename_i h
    rw [UInt16.le_iff_toNat_le] at h
    omega

theorem PeerOpts.clamp_ok (p : PeerOpts) (h : 0 < p.peerMss.toNat) (hw : p.ownWscale = 0) :
    p.clamp.Ok := by
  have hmss : p.clamp.peerMss.toNat = min p.peerMss.toNat ownMss.toNat := uint16_toNat_min _ _
  have hown : ownMss.toNat = 960 := rfl
  refine ⟨by omega, by omega, ?_⟩
  unfold PeerOpts.clamp
  rw [hw]

theorem startTimestamps_view (c : Ctx) (r : ParsedOpts) : (c.startTimestamps r).view = c.view := by
  unfold Ctx.startTimestamps
  split <;> rfl

theorem readSyn_view (c : Ctx) (seg : Bytes) : ∃ isn peer,
    (c.readSyn seg).view = { c.view with
      send.sndUna := isn
      send.sndNxt := isn
      recv.rcvNxt := TcpHeader.seq seg + 1
      peer := peer } ∧
    peer.ownWscale = c.s.ownWscale ∧ (0 < c.s.peerMss.toNat → 0 < peer.peerMss.toNat) := by
  have hseq : (c.initSequence seg).view = { c.view with
      send.sndUna := c.nowMs.1
      send.sndNxt := c.nowMs.1
      recv.rcvNxt := TcpHeader.seq seg + 1 } := rfl
  have hpeer : (c.initSequence seg).s.toPeerOpts = c.s.toPeerOpts := rfl
  unfold Ctx.readSyn
  simp only
  generalize c.initSequence seg = c₁ at hseq hpeer ⊢
  split
  · generalize parseOptions ((seg.take (TcpHeader.dataOff seg)).drop 20) = r
    refine ⟨c.nowMs.1, c.s.toPeerOpts.negotiate r, ?_, rfl, PeerOpts.negotiate_mss _ _⟩
    unfold Ctx.negotiate
    rw [startTimestamps_view, hpeer]
    exact congrArg (fun v : View => { v with peer := c.s.toPeerOpts.negotiate r }) hseq
  · exact ⟨c.nowMs.1, c.s.toPeerOpts, hseq, rfl, id⟩

theorem prepareSyn_view (c : Ctx) (seg : Bytes) {key : FlowKey}
    (h : c.view = Ctx.view { s := .new key }) : ∃ isn rcv wnd peer, peer.Ok ∧
      (c.prepareSyn seg).view = { synCore key isn rcv wnd peer with rto := 0, trace := [] } := by
  obtain ⟨isn, peer, hview, hw, hmss⟩ := readSyn_view c seg
  have hpeer : c.s.toPeerOpts = {} := congrArg (fun v : View => v.peer) h
  rw [hpeer] at hw hmss
  refine ⟨isn, TcpHeader.seq seg + 1, (TcpHeader.window seg).toUInt32, peer.clamp,
    PeerOpts.clamp_ok peer (hmss (by decide)) hw, ?_⟩
  unfold Ctx.prepareSyn
  generalize c.readSyn seg = c₁ at hview ⊢
  have hlast : (let c := { c₁ with s.toPeerOpts := c₁.s.toPeerOpts.clamp }
      ({ c with
        s.cwnd := 10 * c.s.peerMss.toUInt32
        s.sndWnd := (TcpHeader.window seg).toUInt32
        s.state := .synRcvd } : Ctx)).view = { c₁.view with
          peer := c₁.view.peer.clamp
          send.sndWnd := (TcpHeader.window seg).toUInt32
          state := .synRcvd } := rfl
  rw [hlast, hview, h]
  rfl

theorem synAckOptions_spec (c : Ctx) : ∃ opts n, SynOptions opts ∧
    c.synAckOptions = (opts, { c with io.readings := n }) := by
  unfold Ctx.synAckOptions
  simp only
  split
  · refine ⟨_, c.io.readings + 1, ?_, rfl⟩
    unfold SynOptions
    split <;> split <;> simp [TcpSession.tsOption, putBe32]
  · refine ⟨_, c.io.readings, ?_, rfl⟩
    unfold SynOptions
    split <;> split <;> simp

theorem sendSynAck_started {c : Ctx} {key : FlowKey} {isn rcv wnd : UInt32} {peer : PeerOpts}
    (hv : c.view = { synCore key isn rcv wnd peer with rto := 0, trace := [] }) (hp : peer.Ok)
    {opts : Bytes} (ho : SynOptions opts) : Started key (c.sendSynAck opts).view := by
  have hcore : c.s.core = synCore key isn rcv wnd peer := congrArg View.toCore hv
  have huna : c.s.sndUna = isn := congrArg (fun v : Core => v.send.sndUna) hcore
  obtain ⟨s, b, -, hf, hem⟩ :=
    emitSegment_emitted c .synAck (TCP_SYN ||| TCP_ACK) c.s.sndUna [] true opts
  rw [hcore, huna] at hf
  unfold Ctx.sendSynAck
  rw [huna] at hem ⊢
  generalize c.emitSegment .synAck (TCP_SYN ||| TCP_ACK) isn [] true opts = r at hem ⊢
  obtain ⟨ok, c'⟩ := r
  simp only at hem ⊢
  have hlast : ∀ d, (Ctx.nowMs { c' with s.sndNxt := c'.s.sndUna + 1 }).1 + c'.s.rtoMs = d →
      (Ctx.scheduleRto (Ctx.nowMs { c' with s.sndNxt := c'.s.sndUna + 1 }).2
        (Ctx.nowMs { c' with s.sndNxt := c'.s.sndUna + 1 }).1).view = { c'.view with
          send.sndNxt := c'.view.send.sndUna + 1
          rto := d
          trace := c'.view.trace ++ [.armRto d] } := by
    rintro d rfl
    rfl
  rw [hlast _ rfl]
  generalize (Ctx.nowMs { c' with s.sndNxt := c'.s.sndUna + 1 }).1 + c'.s.rtoMs = d
  generalize c'.view = v at hem ⊢
  cases hem with
  | unbuilt hb =>
    rw [hv]
    exact .lost [] d hp ho hf (.inl ⟨hb, rfl⟩)
  | refused hb =>
    rw [hv]
    exact .lost _ d hp ho hf (.inr ⟨_, hb, rfl⟩)
  | passed _ hr => cases hr
  | recorded d' hb _ =>
    rw [hv]
    exact .sent d' d hp ho hf hb

theorem acceptInitialSyn_started {c : Ctx} {key : FlowKey} (hv : c.view = Ctx.view { s := .new key })
    (seg : Bytes) (h : (c.acceptInitialSyn seg).2.s.state = .synRcvd) :
    Started key (c.acceptInitialSyn seg).2.view := by
  have hclosed : c.s.state = .closed := congrArg (fun v : View => v.state) hv
  unfold Ctx.acceptInitialSyn at h ⊢
  simp only at h ⊢
  split at h
  · rw [hclosed] at h
    cases h
  · rename_i hflags
    rw [if_neg hflags]
    obtain ⟨isn, rcv, wnd, peer, hp, hview⟩ := prepareSyn_view c seg hv
    obtain ⟨opts, n, ho, hopts⟩ := synAckOptions_spec (c.prepareSyn seg)
    generalize c.prepareSyn seg = c₁ at hview hopts ⊢
    have hv₁ : ({ c₁ with io.readings := n } : Ctx).view = c₁.view := rfl
    have hstarted := sendSynAck_started (hv₁.trans hview) hp ho
    generalize ({ c₁ with io.readings := n } : Ctx) = c₂ at hopts hstarted
    simp only [hopts]
    exact hstarted

theorem start_accepts (key : FlowKey) (syn : Bytes) (o : Oracle)
    (h : (start key syn o).s.state = .synRcvd) : ∃ opts seq, start key syn o =
      (((Ctx.load { s := .new key } o).preprocess opts seq).acceptInitialSyn syn).2 := by
  obtain ⟨c, hc⟩ : ∃ c : Ctx, c = Ctx.load { s := .new key } o := ⟨_, rfl⟩
  have hclosed : c.s.state = .closed := by rw [hc]; rfl
  refine ⟨(syn.take (TcpHeader.dataOff syn)).drop 20, TcpHeader.seq syn, ?_⟩
  unfold start at h ⊢
  rw [← hc] at h ⊢
  unfold Ctx.onSegment at h ⊢
  split at h
  · rw [hclosed] at h
    cases h
  · rename_i hlen
    rw [if_neg hlen]
    simp only at h ⊢
    split at h
    · rw [hclosed] at h
      cases h
    · rename_i hhdr
      rw [if_neg hhdr]
      have hpre := preprocess_view c ((syn.take (TcpHeader.dataOff syn)).drop 20) (TcpHeader.seq syn)
      generalize c.preprocess ((syn.take (TcpHeader.dataOff syn)).drop 20) (TcpHeader.seq syn) = c₁
        at hpre h ⊢
      have hclosed₁ : c₁.s.state = .closed :=
        (congrArg (fun v : View => v.state) hpre).trans hclosed
      split at h
      · split at h
        · rw [markClosed_state] at h
          cases h
        · rw [hclosed₁] at h
          cases h
      · rename_i hrst
        simp only [hrst, hclosed₁, beq_self_eq_true, if_true, if_false, Bool.false_eq_true]

theorem start_started (key : FlowKey) (syn : Bytes) (o : Oracle)
    (h : (start key syn o).s.state = .synRcvd) : Started key (start key syn o).view := by
  obtain ⟨opts, seq, hstart⟩ := start_accepts key syn o h
  have hload : (Ctx.load { s := .new key } o).view = Ctx.view { s := .new key } := rfl
  have hview := (preprocess_view (Ctx.load { s := .new key } o) opts seq).trans hload
  rw [hstart] at h ⊢
  generalize (Ctx.load { s := .new key } o).preprocess opts seq = c at hview h ⊢
  exact acceptInitialSyn_started hview syn h

/-! ## Runs -/

theorem Accepted.started {key : FlowKey} {c₀ : Ctx} (h : Accepted key c₀) : Started key c₀.view := by
  obtain ⟨-, syn, o, rfl, hstate⟩ := h
  exact start_started key syn o hstate

theorem Ctx.run_snoc (c : Ctx) (inputs : List Input) (i : Input) :
    c.run (inputs ++ [i]) = (c.run inputs).step i := by
  simp only [Ctx.run, List.foldl_append, List.foldl_cons, List.foldl_nil]

theorem step_closed {c : Ctx} (h : c.s.state = .closed) (i : Input) : c.step i = c :=
  if_pos (by simpa using h)

theorem step_open {c : Ctx} (h : c.s.state ≠ .closed) (i : Input) :
    c.step i = (c.load i.oracle).handle i.event := if_neg (by simpa using h)

/-- The rule for runs whose events all meet a condition: what holds at the start, and is kept by
every such event of a session that is not closed, holds at the end. -/
theorem run_induction {c₀ : Ctx} {P : Ctx → Prop} {Q : Ctx → Input → Prop} (hstart : P c₀)
    (hstep : ∀ (c : Ctx) (i : Input), c.s.state ≠ .closed →
      Outcome (c.load i.oracle) i.event (c.step i) → Q c i → P c → P (c.step i))
    {inputs : List Input} (hQ : Each (fun pre i => Q (c₀.run pre) i) inputs) :
    P (c₀.run inputs) := by
  induction inputs using List.reverseRecOn with
  | nil => exact hstart
  | append_singleton inputs i ih =>
    obtain ⟨hpre, hi⟩ := each_snoc.mp hQ
    have hc := ih hpre
    rw [Ctx.run_snoc]
    generalize c₀.run inputs = c at hc hi ⊢
    by_cases hclosed : c.s.state = .closed
    · rw [step_closed hclosed]
      exact hc
    · have hout := handle_outcome (c.load i.oracle) hclosed i.event
      rw [← step_open hclosed] at hout
      exact hstep c i hclosed hout hi hc

theorem sampleStart_accepted (window : UInt16) (options : Bytes)
    (h : (sampleStart window options).s.state = .synRcvd) :
    Accepted sampleKey (sampleStart window options) :=
  ⟨by decide, _, _, rfl, h⟩

theorem Accepted.reachable {key : FlowKey} {c₀ : Ctx} (h : Accepted key c₀) (inputs : List Input) :
    Reachable key (c₀.run inputs) := ⟨c₀, inputs, h, rfl⟩

/-! ## Invariants on views -/

def Obs.view (x : Obs) : View where
  toCore := x.s.core
  rto := x.s.rtoDeadlineMs
  trace := x.trace

/-- A property of views that everything keeps which leaves the session open. -/
structure Kept (I : View → Prop) : Prop where
  micro : ∀ {v v' : View}, Micro v v' → I v → I v'
  host : ∀ {x y : Obs}, HostStep x y → I x.view → I y.view
  wake : ∀ v : View, I v → I { v with host.hostWritable := true }

namespace Kept

variable {I : View → Prop} (hI : Kept I)

include hI

theorem path {v v' : View} (h : Path v v') (hv : I v) : I v' := by
  induction h with
  | refl => exact hv
  | tail _ hstep ih => exact hI.micro hstep ih

theorem hostPath {x y : Obs} (h : HostPath x y) (hx : I x.view) : I y.view := by
  induction h with
  | refl => exact hx
  | tail _ hstep ih => exact hI.host hstep ih

theorem moves {w : Bool} {c c' : Ctx} (h : Moves w c c') (hc : I c.view) : I c'.view := by
  induction h with
  | refl => exact hc
  | tail _ hmove ih =>
    cases hmove with
    | path hpath => exact hI.path hpath ih
    | drain => exact hI.hostPath (tryDrainToHost_path _) ih
    | wake _ => exact hI.hostPath (tryDrainToHost_path _) (hI.wake _ ih)

theorem work {took : Bool} {c c' : Ctx} {seq : UInt32} {data : Bytes} (h : Work took seq data c c')
    (hc : I c.view) : I c'.view := by
  obtain ⟨c₁, c₂, hpre, htaken, hmoves⟩ := h
  have h₁ := hI.path hpre.path hc
  cases htaken with
  | skip => exact hI.moves hmoves h₁
  | data _ _ =>
    have hdata := hI.hostPath (handleDataIn_path c₁ seq data) h₁
    exact hI.moves ((emitAck_moves _).trans hmoves) hdata

/-- It holds after an event, unless that closed the session or left it in `TimeWait`. -/
theorem outcome {c c' : Ctx} {ev : Event} (h : Outcome c ev c') (hc : I c.view) :
    c'.s.state = .closed ∨ c'.s.state = .timeWait ∨ I c'.view := by
  have hend : ∀ {P : Prop} {c₁ : Ctx}, Ending P c₁ c' → I c₁.view →
      c'.s.state = .closed ∨ c'.s.state = .timeWait ∨ I c'.view := by
    intro P c₁ he h₁
    cases he with
    | stay => exact .inr (.inr h₁)
    | abort => exact .inl (abort_state c₁)
    | abortClosed => exact .inl (abort_state c₁)
    | close _ => exact .inl (markClosed_state c₁)
    | timeWait _ now hv =>
      refine .inr (.inl ?_)
      rw [show c'.s.state = (c₁.enterTimeWait now).s.state from congrArg (fun v : View => v.state) hv]
      exact enterTimeWait_state c₁ now
  cases h with
  | segment h he => exact hend he (hI.work h hc)
  | host h he => exact hend he (hI.moves h hc)
  | tick h he => exact hend he (hI.path h hc)
  | windowUpdate h => exact .inr (.inr (hI.path h hc))

end Kept

/-- A property of views that everything a session does keeps. -/
structure Stable (I : View → Prop) : Prop where
  micro : ∀ {v v' : View}, Micro v v' → I v → I v'
  host : ∀ {x y : Obs}, HostStep x y → I x.view → I y.view
  wake : ∀ v : View, I v → I { v with host.hostWritable := true }
  rst : ∀ (x : Obs) (acts : List Action), RstActs x.s acts → I x.view →
    I (Obs.view ⟨x.s, x.trace ++ acts⟩)
  closed : ∀ x : Obs, I x.view → I x.closed.view
  timeWait : ∀ (v : View) (acts : List Action),
    (acts = [] ∨ ∃ s : TcpSession, s.core = { v.toCore with state := .timeWait } ∧
      acts = [.dropHost s]) → I v →
    I { v with state := .timeWait, rto := 0, host.host := false, trace := v.trace ++ acts }

namespace Stable

variable {I : View → Prop} (hI : Stable I)

include hI

theorem kept : Kept I where
  micro := hI.micro
  host := hI.host
  wake := hI.wake

theorem markClosed (c : Ctx) (hc : I c.view) : I c.markClosed.view := by
  rw [show c.markClosed.view = c.markClosed.obs.view from rfl, markClosed_obs]
  exact hI.closed c.obs hc

theorem abort (c : Ctx) (hc : I c.view) : I c.abort.view := by
  obtain ⟨acts, hacts, hobs⟩ := abort_obs c
  rw [show c.abort.view = c.abort.obs.view from rfl, hobs]
  exact hI.closed _ (hI.rst c.obs acts hacts hc)

theorem ending {P : Prop} {c c' : Ctx} (h : Ending P c c') (hc : I c.view) : I c'.view := by
  cases h with
  | stay => exact hc
  | abort => exact hI.abort c hc
  | abortClosed => exact hI.micro (.eof c.abort.view .hostClosed (.inr rfl)) (hI.abort c hc)
  | close _ => exact hI.markClosed c hc
  | timeWait _ now hv =>
    rw [hv, show (c.enterTimeWait now).view = (c.enterTimeWait now).obs.view from rfl,
      show (c.enterTimeWait now).obs = _ from closeHostSocket_obs (c.toTimeWait now)]
    refine hI.timeWait c.view (dropActs (c.toTimeWait now).s) ?_ hc
    unfold dropActs
    split
    · exact .inr ⟨(c.toTimeWait now).s, rfl, rfl⟩
    · exact .inl rfl

theorem outcome {c c' : Ctx} {ev : Event} (h : Outcome c ev c') (hc : I c.view) : I c'.view := by
  cases h with
  | segment h he => exact hI.ending he (hI.kept.work h hc)
  | host h he => exact hI.ending he (hI.kept.moves h hc)
  | tick h he => exact hI.ending he (hI.kept.path h hc)
  | windowUpdate h => exact hI.kept.path h hc

/-- A stable property that holds at the start holds along every run. -/
theorem run {c₀ : Ctx} (h₀ : I c₀.view) (inputs : List Input) : I (c₀.run inputs).view :=
  run_induction (P := fun c => I c.view) (Q := fun _ _ => True) h₀
    (fun _ _ _ hout _ hc => hI.outcome hout hc) (each_const.mpr fun _ _ => trivial)

theorem reachable {key : FlowKey} (hstart : ∀ v, Started key v → I v) {c : Ctx}
    (h : Reachable key c) : I c.view := by
  obtain ⟨c₀, inputs, h₀, rfl⟩ := h
  exact hI.run (hstart _ h₀.started) inputs

end Stable

end BaleVpn.Tcp
