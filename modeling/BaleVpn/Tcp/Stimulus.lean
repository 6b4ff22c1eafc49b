import BaleVpn.Tcp.Driven

/-!
# Pending data and what restarts the sender

New data leaves the session only from the handlers of ACKs and of host reads. Bytes that stay behind
in `to_client` therefore need something in flight, whose ACK or timeout comes back. The code leaves
them stranded in four ways: the callback refuses the first segment of an idle sender; the peer shuts
its window, which is then probed with a bare ACK that needs no answer; the deadline of the RTO falls
on the zero that means "not armed"; or an undone timeout wraps the congestion window to zero.
-/

namespace BaleVpn.Tcp

open Net Lib

/-! ## The property -/

/-- A segment that the peer has to answer: it carries payload, or its sequence number is before the one the
peer expects. -/
def TcpSession.Answerable (s : TcpSession) (b : TcpBuild) : Prop :=
  b.payload ≠ [] ∨ seqLt b.seq s.sndNxt = true

/-- Something restarts the session: a segment in flight under an armed RTO, or a window probe that
the peer has to answer. -/
def Ctx.Stimulus (c : Ctx) : Prop :=
  (c.s.sndWnd ≠ 0 ∧ c.s.retx ≠ [] ∧ c.s.rtoDeadlineMs ≠ 0) ∨
    (c.s.sndWnd = 0 ∧ c.s.zwpDeadlineMs ≠ 0 ∧ ∀ (o : Oracle) (now : UInt32) s b pkt ok,
      .emit .zwpProbe s b pkt ok ∈ newActs c ((c.load o).tick now).2 → c.s.Answerable b)

/-- Data of the host waits in a state in which the session sends it. -/
def Ctx.Waiting (c : Ctx) : Prop :=
  (c.s.state = .established ∨ c.s.state = .closeWait) ∧ c.s.toClientOff < c.s.toClient.length

/-! ## The condition -/

/-- The session once the ACK number of `seg` is processed. -/
def Ctx.acked (c : Ctx) (seg : Bytes) : Ctx :=
  (c.preprocess ((seg.take (TcpHeader.dataOff seg)).drop 20) (TcpHeader.seq seg)).ackIfFlagged
    (TcpHeader.flags seg) (TcpHeader.ack seg)

/-- An event that leaves the sender a way on: a window of zero finds nothing pending, bytes of the
host are read with the window open, and no timeout in recovery finds the congestion window within an
MSS of `2^32`. -/
structure Ctx.Fed (c : Ctx) (i : Input) : Prop where
  window : ∀ seg, i.event = .segment seg →
    (TcpHeader.window seg).toUInt32 <<< c.s.peerWscale.toUInt32 = 0 →
    ((c.load i.oracle).acked seg).s.pending = 0
  bytes : c.s.sndWnd = 0 → ∀ data, .read data ∉ newActs c (c.step i)
  timeout : ∀ now, i.event = .tick now → c.s.inRecovery = true →
    c.s.cwnd.toNat + ownMss.toNat < 2 ^ 32

/-! ## Segments -/

theorem ackIfFlagged_lively {c : Ctx} (h : Lively c) (flags : UInt8) (ack : UInt32) :
    Lively (c.ackIfFlagged flags ack) := by
  refine h.sends (ackIfFlagged_path c flags ack).path ?_
  unfold Ctx.ackIfFlagged
  simp only
  split
  · exact Sound.onAck (c := c.nowMs.2) h.sound ack c.nowMs.1
  · exact h.sound

/-- The session is past its handshake, and `c` is it with the sender untouched. -/
structure Sideways (c c' : Ctx) : Prop where
  lively : Lively c'
  send : c'.s.toSendVars = c.s.toSendVars
  state : c'.s.state = c.s.state ∨ c'.s.state = .closeWait ∨ c'.s.state = .closed

theorem Sideways.trans {c c' c'' : Ctx} (h : Sideways c c') (h' : Sideways c' c'') :
    Sideways c c'' := by
  refine ⟨h'.lively, h'.send.trans h.send, ?_⟩
  obtain hs | hs := h'.state
  · rw [hs]
    exact h.state
  · exact .inr hs

theorem Sideways.open {c c' : Ctx} (h : Sideways c c') (hs : c.s.state ≠ .synRcvd) :
    c'.s.state ≠ .synRcvd := by
  rcases h.state with hst | hst | hst
  · rwa [hst]
  all_goals simp [hst]

theorem emitAck_sideways {c : Ctx} (h : Lively c) : Sideways c c.emitAck := by
  have hcore := emitAck_core c
  have hlively : Lively c.emitAck := emitAck_lively h .ack (.inl rfl)
  generalize c.emitAck = c₁ at hcore hlively ⊢
  exact ⟨hlively, congrArg Core.send hcore, .inl (congrArg Core.state hcore)⟩

theorem HostPath.sideways {c c' : Ctx} (hpath : HostPath c.obs c'.obs) (h : Lively c)
    (hs : c.s.state ≠ .synRcvd) : Sideways c c' := by
  have hf : HostFrame c.s c'.s := hpath.frame
  exact ⟨h.silent hs hpath.silent, hf.send, hf.state.imp id .inr⟩

theorem takePayload_sideways {c : Ctx} (h : Lively c) (hs : c.s.state ≠ .synRcvd) (seq : UInt32)
    (payload : Bytes) : Sideways c (c.takePayload seq payload) := by
  unfold Ctx.takePayload
  split
  · exact ⟨h, rfl, .inl rfl⟩
  · have hdata := (handleDataIn_path c seq payload).sideways h hs
    exact hdata.trans (emitAck_sideways hdata.lively)

theorem finTaken_sideways {c : Ctx} (h : Lively c) (hs : c.s.state ≠ .synRcvd) :
    Sideways c ({ c with s.rcvNxt := c.s.rcvNxt + 1, s.state := .closeWait } : Ctx).emitAck := by
  have hmoved : Sideways c { c with s.rcvNxt := c.s.rcvNxt + 1, s.state := .closeWait } :=
    ⟨h.silent hs ⟨rfl, rfl, rfl, rfl, rfl, rfl, rfl, List.prefix_refl _⟩, rfl, .inr (.inl rfl)⟩
  exact hmoved.trans (emitAck_sideways hmoved.lively)

theorem shutdownWr_sideways {c : Ctx} (h : Lively c) (hs : c.s.state ≠ .synRcvd) :
    Sideways c c.shutdownWr :=
  ⟨h.silent hs ⟨rfl, rfl, rfl, rfl, rfl, rfl, rfl, List.prefix_append _ _⟩, rfl, .inl rfl⟩

theorem establishedFin_sideways {c : Ctx} (h : Lively c) (hs : c.s.state ≠ .synRcvd)
    (inOrder : Bool) (seq : UInt32) (payload : Bytes) :
    Sideways c (c.establishedFin inOrder seq payload) := by
  unfold Ctx.establishedFin
  split
  · have htaken := finTaken_sideways h hs
    simp only
    generalize Ctx.emitAck { c with s.rcvNxt := c.s.rcvNxt + 1, s.state := .closeWait } = c₁
      at htaken ⊢
    have hdrained := (tryDrainToHost_path c₁).sideways htaken.lively (htaken.open hs)
    have hboth := htaken.trans hdrained
    generalize c₁.tryDrainToHost = c₂ at hboth ⊢
    unfold Ctx.shutdownIfDrained
    split
    · exact hboth.trans (shutdownWr_sideways hboth.lively (hboth.open hs))
    · exact hboth
  · exact emitAck_sideways h

/-- The invariant of a run. -/
structure Ongoing (c : Ctx) : Prop where
  driven : Driven c
  unopened : c.s.state = .synRcvd → c.s.host = false ∧ c.s.toClient.length ≤ c.s.toClientOff

theorem finish_ongoing {c : Ctx} (h : Lively c) (hs : c.s.state ≠ .synRcvd)
    (hflow : Unstranded c.io.trace → c.s.Flows)
    (hearly : c.trySegmentAndEmit.refreshZwp.s.state.early = true) :
    Ongoing c.trySegmentAndEmit.refreshZwp := by
  have hstate := refreshZwp_state c.trySegmentAndEmit
  rw [hstate] at hearly
  obtain hend | ⟨hst, hdriven⟩ := trySegmentAndEmit_driven h hs hflow
  · rw [hend] at hearly
    cases hearly
  · refine ⟨hdriven.refreshZwp, fun hsyn => ?_⟩
    rw [hstate, hst] at hsyn
    exact absurd hsyn hs

theorem setSndWnd_lively {c : Ctx} (h : Lively c) (hs : c.s.state ≠ .synRcvd) (wnd : UInt16) :
    Lively (c.setSndWnd wnd) :=
  h.silent hs ⟨rfl, rfl, rfl, rfl, rfl, rfl, rfl, List.prefix_refl _⟩

theorem pending_eq_zero (s : TcpSession) : s.pending = 0 ↔ s.toClient.length ≤ s.toClientOff := by
  unfold TcpSession.pending
  omega

theorem setSndWnd_flows {c : Ctx} {wnd : UInt16}
    (h : wnd.toUInt32 <<< c.s.peerWscale.toUInt32 = 0 → c.s.pending = 0) :
    (c.setSndWnd wnd).s.Flows := by
  by_cases hz : wnd.toUInt32 <<< c.s.peerWscale.toUInt32 = 0
  · exact .inr ((pending_eq_zero c.s).mp (h hz))
  · exact .inl hz

theorem TcpSession.Flows.congr {s s' : TcpSession} (h : s.Flows)
    (hsend : s'.toSendVars = s.toSendVars) : s'.Flows := by
  unfold TcpSession.Flows
  rw [hsend]
  exact h

theorem windowed_lively {c : Ctx} (h : Lively c) (hs : c.s.state ≠ .synRcvd) {flags : UInt8}
    {ack : UInt32} {wnd : UInt16}
    (hwnd : wnd.toUInt32 <<< c.s.peerWscale.toUInt32 = 0 →
      (c.ackIfFlagged flags ack).s.pending = 0) :
    Lively ((c.ackIfFlagged flags ack).setSndWnd wnd) ∧
      ((c.ackIfFlagged flags ack).setSndWnd wnd).s.state ≠ .synRcvd ∧
      ((c.ackIfFlagged flags ack).setSndWnd wnd).s.Flows := by
  have hacked := ackIfFlagged_lively h flags ack
  have hframe := (ackIfFlagged_path c flags ack).path.frame
  have hstate : (c.ackIfFlagged flags ack).s.state ≠ .synRcvd := by
    rw [show (c.ackIfFlagged flags ack).s.state = c.s.state from hframe.state]
    exact hs
  rw [show c.s.peerWscale = (c.ackIfFlagged flags ack).s.peerWscale from
    (congrArg PeerOpts.peerWscale hframe.peer).symm] at hwnd
  exact ⟨setSndWnd_lively hacked hstate wnd, hstate, setSndWnd_flows hwnd⟩

theorem processEstablished_ongoing {c : Ctx} (h : Lively c) (hs : c.s.state ≠ .synRcvd)
    {flags : UInt8} {seq ack : UInt32} {wnd : UInt16} {payload : Bytes}
    (hwnd : wnd.toUInt32 <<< c.s.peerWscale.toUInt32 = 0 →
      (c.ackIfFlagged flags ack).s.pending = 0)
    (hearly : (c.processEstablished flags seq ack wnd payload).s.state.early = true) :
    Ongoing (c.processEstablished flags seq ack wnd payload) := by
  obtain ⟨hset, hstate, hflow⟩ := windowed_lively h hs hwnd
  unfold Ctx.processEstablished at hearly ⊢
  simp only at hearly ⊢
  generalize (c.ackIfFlagged flags ack).setSndWnd wnd = c₁ at hset hstate hflow hearly ⊢
  have htake := takePayload_sideways hset hstate seq payload
  generalize c₁.takePayload seq payload = c₂ at htake hearly ⊢
  have hfin : Sideways c₁ (if hasFlag flags TCP_FIN then
      c₂.establishedFin (seq == c₁.s.rcvNxt) seq payload else c₂) := by
    split
    · exact htake.trans (establishedFin_sideways htake.lively (htake.open hstate) _ seq payload)
    · exact htake
  generalize (if hasFlag flags TCP_FIN then
    c₂.establishedFin (seq == c₁.s.rcvNxt) seq payload else c₂) = c₃ at hfin hearly ⊢
  exact finish_ongoing hfin.lively (hfin.open hstate) (fun _ => hflow.congr hfin.send) hearly

theorem processCloseWait_ongoing {c : Ctx} (h : Lively c) (hs : c.s.state ≠ .synRcvd)
    {flags : UInt8} {ack : UInt32} {wnd : UInt16}
    (hwnd : wnd.toUInt32 <<< c.s.peerWscale.toUInt32 = 0 →
      (c.ackIfFlagged flags ack).s.pending = 0)
    (hearly : (c.processCloseWait flags ack wnd).s.state.early = true) :
    Ongoing (c.processCloseWait flags ack wnd) := by
  obtain ⟨hset, hstate, hflow⟩ := windowed_lively h hs hwnd
  unfold Ctx.processCloseWait at hearly ⊢
  simp only at hearly ⊢
  generalize (c.ackIfFlagged flags ack).setSndWnd wnd = c₁ at hset hstate hflow hearly ⊢
  have hfin : Sideways c₁ (if hasFlag flags TCP_FIN then c₁.emitAck else c₁) := by
    split
    · exact emitAck_sideways hset
    · exact ⟨hset, rfl, .inl rfl⟩
  generalize (if hasFlag flags TCP_FIN then c₁.emitAck else c₁) = c₂ at hfin hearly ⊢
  exact finish_ongoing hfin.lively (hfin.open hstate) (fun _ => hflow.congr hfin.send) hearly

/-! ## The handshake -/

theorem SendPath.drained {v v' : View} (h : SendPath v v')
    (hd : v.send.toClient.length ≤ v.send.toClientOff) :
    v'.send.toClient.length ≤ v'.send.toClientOff := by
  induction h with
  | refl => exact hd
  | tail _ hstep ih =>
    cases hstep with
    | resend h =>
      rw [h.core]
      exact ih
    | refuse hk hf hb => exact ih
    | @send cause s b pkt chunk d hk hf hb =>
      have hbounds := hk.bounds
      have hpos := hk.1
      have hsend : s.toSendVars = _ := congrArg Core.send hf.snap
      unfold TcpSession.pending at hbounds
      rw [hsend] at hbounds
      omega
    | ackIn a popped rest hq hhi hlo hp hr => exact ih

theorem handshake_covered {c : Ctx} (h : Lively c)
    (hd : c.s.toClient.length ≤ c.s.toClientOff) (now : UInt32) :
    Covered (c.onAck c.s.sndNxt now).s.core := by
  have hpath := onAck_path c c.s.sndNxt now
  have hsound := h.sound.onAck c.s.sndNxt now
  have hself : seqLt c.s.sndNxt c.s.sndNxt = false := by simp [seqLt]
  have hnxt : (c.onAck c.s.sndNxt now).s.sndNxt = c.s.sndNxt :=
    hpath.nxt.resolve_left (Nat.not_lt.mpr hd)
  refine hsound.covered.resolve_right fun hun => ?_
  have huna : (c.onAck c.s.sndNxt now).s.sndUna = _ := hpath.una
  have hopen : (c.onAck c.s.sndNxt now).s.sndNxt = (c.onAck c.s.sndNxt now).s.sndUna + 1 := hun.nxt
  rw [hnxt, huna, hself] at hopen
  cases hlo : seqLe c.s.sndNxt c.s.sndUna with
  | false =>
    rw [hlo] at hopen
    simp at hopen
  | true =>
    rw [hlo] at hopen
    simp only [Bool.not_false, Bool.not_true, Bool.and_false, Bool.false_eq_true, if_false] at hopen
    rw [hopen] at hlo
    obtain heq | hfar := (seqLe_iff _ _).mp hlo
    · simp at heq
    · rw [UInt32.add_comm, UInt32.add_sub_cancel] at hfar
      simp at hfar

theorem synRcvdFin_sideways {c : Ctx} (h : Lively c) (hs : c.s.state ≠ .synRcvd) (inOrder : Bool)
    (seq : UInt32) (payload : Bytes) : Sideways c (c.synRcvdFin inOrder seq payload) := by
  unfold Ctx.synRcvdFin
  split
  · exact finTaken_sideways h hs
  · exact emitAck_sideways h

theorem synRcvdOpened_ongoing {c : Ctx} (h : Lively c) (hs : c.s.state ≠ .synRcvd)
    (hd : c.s.toClient.length ≤ c.s.toClientOff) (flags : UInt8) (seq : UInt32) (payload : Bytes) :
    Ongoing (c.synRcvdOpened flags seq payload) := by
  have htake := takePayload_sideways h hs seq payload
  unfold Ctx.synRcvdOpened
  simp only
  generalize c.takePayload seq payload = c₁ at htake ⊢
  have hfin : Sideways c (if hasFlag flags TCP_FIN then
      c₁.synRcvdFin (seq == c.s.rcvNxt) seq payload else c₁) := by
    split
    · exact htake.trans (synRcvdFin_sideways htake.lively (htake.open hs) _ seq payload)
    · exact htake
  generalize (if hasFlag flags TCP_FIN then
    c₁.synRcvdFin (seq == c.s.rcvNxt) seq payload else c₁) = c₂ at hfin ⊢
  have hd₂ : c₂.s.toClient.length ≤ c₂.s.toClientOff := by
    rw [show c₂.s.toClient = c.s.toClient from congrArg SendVars.toClient hfin.send,
      show c₂.s.toClientOff = c.s.toClientOff from congrArg SendVars.toClientOff hfin.send]
    exact hd
  have hdriven : Driven c₂ := ⟨hfin.lively, .of_drained hd₂⟩
  refine ⟨hdriven.refreshZwp, fun hsyn => ?_⟩
  rw [refreshZwp_state] at hsyn
  exact absurd hsyn (hfin.open hs)

theorem opened_lively {c : Ctx} (h : Lively c) (hcov : Covered c.s.core)
    (hd : c.s.toClient.length ≤ c.s.toClientOff) (wnd : UInt16) :
    let r := ({ c.setSndWnd wnd with s.state := .established } : Ctx).openHostSocket
    Lively r.2 ∧ r.2.s.state = .established ∧ r.2.s.toClient.length ≤ r.2.s.toClientOff := by
  have hest : Lively { c.setSndWnd wnd with s.state := .established } := by
    refine ⟨⟨.inl (hcov.congr rfl rfl rfl), h.sound.paced, h.sound.mssPos, h.sound.mssLe⟩, ?_, h.key⟩
    exact h.armed
  have hstate : ({ c.setSndWnd wnd with s.state := .established } : Ctx).s.state = .established :=
    rfl
  have hd' : ({ c.setSndWnd wnd with s.state := .established } : Ctx).s.toClient.length ≤
    ({ c.setSndWnd wnd with s.state := .established } : Ctx).s.toClientOff := hd
  generalize ({ c.setSndWnd wnd with s.state := .established } : Ctx) = c₁ at hest hstate hd' ⊢
  unfold Ctx.openHostSocket
  split
  · exact ⟨hest, hstate, hd'⟩
  · split
    · exact ⟨hest, hstate, hd'⟩
    · split
      · exact ⟨hest, hstate, hd'⟩
      · refine ⟨hest.silent (by simp [hstate]) ?_, hstate, hd'⟩
        exact ⟨rfl, rfl, rfl, rfl, rfl, rfl, rfl, List.prefix_append _ _⟩

theorem processSynRcvd_ongoing {c : Ctx} (h : Ongoing c) (hs : c.s.state = .synRcvd)
    {flags : UInt8} {seq ack : UInt32} {wnd : UInt16} {payload : Bytes}
    (hearly : (c.processSynRcvd flags seq ack wnd payload).s.state.early = true) :
    Ongoing (c.processSynRcvd flags seq ack wnd payload) := by
  obtain ⟨-, hd⟩ := h.unopened hs
  unfold Ctx.processSynRcvd at hearly ⊢
  split
  · exact h
  · split
    · exact h
    · rename_i hflag hack
      obtain rfl : ack = c.s.sndNxt := by simpa using hack
      rw [if_neg hflag, if_neg hack] at hearly
      have hread : Lively c.nowMs.2 := h.driven.lively.congr rfl rfl
      have hlively : Lively (c.nowMs.2.onAck c.s.sndNxt c.nowMs.1) :=
        hread.sends (onAck_path c.nowMs.2 c.s.sndNxt c.nowMs.1).path (hread.sound.onAck _ _)
      have hcov := handshake_covered hread hd c.nowMs.1
      have hd₁ := (onAck_path c.nowMs.2 c.s.sndNxt c.nowMs.1).path.drained hd
      simp only at hearly ⊢
      change Covered (c.nowMs.2.onAck c.s.sndNxt c.nowMs.1).s.core at hcov
      generalize c.nowMs.2.onAck c.s.sndNxt c.nowMs.1 = c₁ at hlively hcov hd₁ hearly ⊢
      have hopened := opened_lively hlively hcov hd₁ wnd
      simp only at hopened
      generalize Ctx.openHostSocket { c₁.setSndWnd wnd with s.state := .established } = r
        at hopened hearly ⊢
      obtain ⟨ok, c₂⟩ := r
      simp only at hopened hearly ⊢
      obtain ⟨hlively₂, hstate₂, hd₂⟩ := hopened
      split
      · rename_i hok
        rw [if_pos hok, abort_state] at hearly
        cases hearly
      · exact synRcvdOpened_ongoing hlively₂ (by simp [hstate₂]) hd₂ flags seq payload

/-! ## Host events -/

theorem Path.adds {v v' : View} (h : Path v v') : Adds v.trace v'.trace Action.Legit := by
  induction h with
  | refl => exact .none
  | tail _ hstep ih => exact ih.trans hstep.adds

theorem Adds.isPre {t t' : List Action} {P : Action → Prop} (h : Adds t t' P) : t <+: t' := by
  obtain ⟨acts, rfl, -⟩ := h
  exact List.prefix_append t acts

/-- Reading from the host: the FIN or an error ends the sending states; otherwise the window is as it
was, and the sender too unless bytes were read. -/
structure ReadFrom (c c' : Ctx) : Prop where
  lively : Lively c'
  state : c'.s.state = c.s.state
  sndWnd : c'.s.sndWnd = c.s.sndWnd
  trace : c.io.trace <+: c'.io.trace
  send : c'.s.toSendVars = c.s.toSendVars ∨ ∃ data, .read data ∈ newActs c c'

theorem mem_newActs {c c' : Ctx} {acts : List Action} {a : Action}
    (h : c.io.trace ++ acts <+: c'.io.trace) (ha : a ∈ acts) : a ∈ newActs c c' := by
  obtain ⟨rest, hrest⟩ := h
  unfold newActs
  rw [← hrest, List.append_assoc, List.drop_left]
  exact List.mem_append_left rest ha

theorem newActs_mono {c c₁ c₂ c' : Ctx} (h : c.io.trace <+: c₁.io.trace)
    (h₁ : c₁.io.trace <+: c₂.io.trace) (h₂ : c₂.io.trace <+: c'.io.trace) {a : Action}
    (ha : a ∈ newActs c₁ c₂) : a ∈ newActs c c' := by
  obtain ⟨before, hbefore⟩ := h
  obtain ⟨acts, hacts⟩ := h₁
  unfold newActs at ha
  rw [← hacts, List.drop_left] at ha
  have hadded : c.io.trace ++ (before ++ acts) <+: c'.io.trace := by
    rw [← List.append_assoc, hbefore, hacts]
    exact h₂
  exact mem_newActs hadded (List.mem_append_right before ha)

theorem hostEof_reads {c : Ctx} (h : Lively c) (hs : c.s.state ≠ .synRcvd) :
    c.hostEof.s.state.early = false ∨ ReadFrom c c.hostEof := by
  unfold Ctx.hostEof
  simp only
  split
  · exact .inl (sendFin_late _)
  · right
    have hpre : c.io.trace <+: c.noteEof.io.trace := List.prefix_append _ _
    exact ⟨h.silent hs ⟨rfl, rfl, rfl, rfl, rfl, rfl, rfl, hpre⟩, rfl, rfl, hpre, .inl rfl⟩

theorem pushToClient_reads {c : Ctx} (h : Lively c) (hs : c.s.state ≠ .synRcvd) (data : Bytes) :
    Lively (c.pushToClient data) ∧ (c.pushToClient data).s.sndWnd = c.s.sndWnd := by
  have hpush : (c.s.toSendVars.push data).sndUna = c.s.sndUna ∧
      (c.s.toSendVars.push data).sndNxt = c.s.sndNxt ∧
      (c.s.toSendVars.push data).sndWnd = c.s.sndWnd := by
    unfold SendVars.push
    split <;> exact ⟨rfl, rfl, rfl⟩
  refine ⟨h.silent hs ?_, hpush.2.2⟩
  exact ⟨hpush.1, hpush.2.1, rfl, rfl, rfl, rfl, rfl, List.prefix_append _ _⟩

theorem readLoop_reads (rs : List ReadRes) : ∀ {c : Ctx}, Lively c → c.s.state ≠ .synRcvd →
    (Ctx.readLoop rs c).2.s.state.early = false ∨ ReadFrom c (Ctx.readLoop rs c).2 := by
  induction rs with
  | nil => exact fun h _ => .inr ⟨h, rfl, rfl, List.prefix_refl _, .inl rfl⟩
  | cons r rs ih =>
    intro c h hs
    obtain ⟨c₀, hc₀⟩ : ∃ c₀ : Ctx, c₀ = { c with io.oracle.reads := rs } := ⟨_, rfl⟩
    have hs₀ : c₀.s = c.s := by rw [hc₀]
    have htrace₀ : c₀.io.trace = c.io.trace := by rw [hc₀]
    have hlively₀ : Lively c₀ := by
      rw [hc₀]
      exact h.congr rfl rfl
    have hstate₀ : c₀.s.state ≠ .synRcvd := by rw [hs₀]; exact hs
    have hback : ∀ c' : Ctx, ReadFrom c₀ c' → ReadFrom c c' := by
      intro c' hr
      have hsend := hr.send
      have hnew : newActs c₀ c' = newActs c c' := by
        unfold newActs
        rw [htrace₀]
      rw [hs₀, hnew] at hsend
      exact ⟨hr.lively, by rw [hr.state, hs₀], by rw [hr.sndWnd, hs₀], by rw [← htrace₀]; exact hr.trace,
        hsend⟩
    unfold Ctx.readLoop
    simp only
    rw [← hc₀]
    match r with
    | .ok [] => exact (hostEof_reads hlively₀ hstate₀).imp id (hback _)
    | .ok (x :: xs) =>
      obtain ⟨hpushed, hwnd⟩ := pushToClient_reads hlively₀ hstate₀ ((x :: xs).take (16 * 1024))
      have hstate₁ : (c₀.pushToClient ((x :: xs).take (16 * 1024))).s.state = c₀.s.state := rfl
      have htrace₁ : (c₀.pushToClient ((x :: xs).take (16 * 1024))).io.trace =
        c₀.io.trace ++ [.read ((x :: xs).take (16 * 1024))] := rfl
      simp only
      generalize c₀.pushToClient ((x :: xs).take (16 * 1024)) = c₁
        at hpushed hwnd hstate₁ htrace₁ ⊢
      have hopen₁ : c₁.s.state ≠ .synRcvd := by rw [hstate₁]; exact hstate₀
      have hfound : ∀ c' : Ctx, c₁.io.trace <+: c'.io.trace →
          ∃ data, .read data ∈ newActs c c' := by
        intro c' hpre
        rw [htrace₁, htrace₀] at hpre
        exact ⟨_, mem_newActs hpre (List.mem_singleton.mpr rfl)⟩
      have hpre₁ : c.io.trace <+: c₁.io.trace := by
        rw [htrace₁, htrace₀]
        exact List.prefix_append _ _
      split
      · refine .inr ⟨hpushed.silent hopen₁ ⟨rfl, rfl, rfl, rfl, rfl, rfl, rfl, List.prefix_refl _⟩,
          by rw [← hs₀]; exact hstate₁, by rw [← hs₀]; exact hwnd, hpre₁,
          .inr (hfound _ (List.prefix_refl _))⟩
      · obtain hend | hr := ih hpushed hopen₁
        · exact .inl hend
        · refine .inr ⟨hr.lively, ?_, ?_, hpre₁.trans hr.trace, .inr (hfound _ hr.trace)⟩
          · rw [hr.state, hstate₁, hs₀]
          · rw [hr.sndWnd, hwnd, hs₀]
    | .wouldBlock => exact .inr (hback c₀ ⟨hlively₀, rfl, rfl, List.prefix_refl _, .inl rfl⟩)
    | .interrupted => exact (ih hlively₀ hstate₀).imp id (hback _)
    | .err =>
      left
      rw [abort_state]
      rfl

/-- Past the handshake, the invariant is that of the sender and that pending data moves. -/
theorem Ongoing.of_driven {c : Ctx} (h : Driven c) (hs : c.s.state ≠ .synRcvd) : Ongoing c :=
  ⟨h, fun hsyn => absurd hsyn hs⟩

theorem onHostReadable_ongoing {c : Ctx} (h : Driven c) (hs : c.s.state ≠ .synRcvd)
    (hbytes : c.s.sndWnd = 0 → ∀ data, .read data ∉ newActs c c.onHostReadable)
    (hearly : c.onHostReadable.s.state.early = true) :
    Driven c.onHostReadable ∧ c.onHostReadable.s.state ≠ .synRcvd := by
  unfold Ctx.onHostReadable at hbytes hearly ⊢
  split
  · exact ⟨h, hs⟩
  · rename_i hhost
    rw [if_neg hhost] at hbytes hearly
    split
    · exact ⟨h, hs⟩
    · rename_i hpaused
      rw [if_neg hpaused] at hbytes hearly
      have hread := readLoop_reads c.io.oracle.reads h.lively hs
      have hfail : (Ctx.readLoop c.io.oracle.reads c).1 = false →
          (Ctx.readLoop c.io.oracle.reads c).2.s.state = .closed := by
        obtain ⟨c₁, -, hres | hres⟩ := readLoop_path c.io.oracle.reads c (by simpa using hhost)
        · simp [hres]
        · simp [hres, abort_state]
      generalize Ctx.readLoop c.io.oracle.reads c = r at hread hfail hbytes hearly ⊢
      obtain ⟨ok, c₁⟩ := r
      simp only at hread hfail hbytes hearly ⊢
      obtain hend | hread := hread
      · exfalso
        revert hearly
        split
        · rw [trySegmentAndEmit_late hend]
          simp
        · rw [hend]
          simp
      · have hs₁ : c₁.s.state ≠ .synRcvd := by rw [hread.state]; exact hs
        have hkeep : c₁.io.trace <+: c₁.trySegmentAndEmit.refreshZwp.io.trace := by
          rw [show c₁.trySegmentAndEmit.refreshZwp.io.trace = c₁.trySegmentAndEmit.io.trace from
            congrArg View.trace (refreshZwp_view _)]
          exact (trySegmentAndEmit_path c₁).adds.isPre
        cases ok with
        | false =>
          exfalso
          simp only [Bool.false_eq_true, if_false, hfail] at hearly
          cases hearly
        | true =>
          simp only [if_true] at hbytes hearly ⊢
          have hflow : Unstranded c₁.io.trace → c₁.s.Flows := by
            intro hun
            by_cases hz : c.s.sndWnd = 0
            · have hsame : c₁.s.toSendVars = c.s.toSendVars := by
                refine hread.send.resolve_right fun ⟨data, hdata⟩ => hbytes hz data ?_
                obtain ⟨acts, hacts⟩ := hread.trace
                unfold newActs at hdata
                rw [← hacts, List.drop_left] at hdata
                rw [← hacts] at hkeep
                exact mem_newActs hkeep hdata
              refine .inr ?_
              rw [show c₁.s.toClient = c.s.toClient from congrArg SendVars.toClient hsame,
                show c₁.s.toClientOff = c.s.toClientOff from congrArg SendVars.toClientOff hsame]
              obtain ⟨acts, hacts⟩ := hread.trace
              rw [← hacts] at hun
              exact Nat.not_lt.mp fun hlt => (h.moving hun.of_append hlt).1 hz
            · exact .inl (by rw [hread.sndWnd]; exact hz)
          have hdone := finish_ongoing hread.lively hs₁ hflow hearly
          refine ⟨hdone.driven, ?_⟩
          rw [refreshZwp_state]
          obtain hst | ⟨-, -, -, hst⟩ := (trySegmentAndEmit_later c₁).2
          · rw [hst]
            exact hs₁
          · rw [hst]
            split <;> simp

theorem hostClosedEvent_driven {c : Ctx} (h : Driven c) (hs : c.s.state ≠ .synRcvd)
    (hearly : c.hostClosedEvent.s.state.early = true) :
    Driven c.hostClosedEvent ∧ c.hostClosedEvent.s.state ≠ .synRcvd := by
  unfold Ctx.hostClosedEvent at hearly ⊢
  simp only at hearly ⊢
  split
  · rename_i hfin
    rw [if_pos hfin, sendFin_late] at hearly
    cases hearly
  · have hpre : c.io.trace <+: c.noteClosed.io.trace := List.prefix_append _ _
    exact ⟨⟨h.lively.silent hs ⟨rfl, rfl, rfl, rfl, rfl, rfl, rfl, hpre⟩,
      h.moving.congr rfl id hpre⟩, hs⟩

theorem writableDrained_eq {c c₁ : Ctx} (h : c.setWritable.tryDrainToHost = c₁) :
    c.writableDrained = if c₁.s.toHostOff ≥ c₁.s.toHost.length && c₁.s.host && !c₁.s.hostWrShut &&
      (c₁.s.state == .closeWait || c₁.s.state == .lastAck) then c₁.shutdownWr else c₁ := by
  rw [← h]
  rfl

theorem onHostWritable_driven {c : Ctx} (h : Driven c) (hs : c.s.state ≠ .synRcvd)
    (hearly : c.onHostWritable.s.state.early = true) :
    Driven c.onHostWritable ∧ c.onHostWritable.s.state ≠ .synRcvd ∧
      c.io.trace <+: c.onHostWritable.io.trace ∧ c.onHostWritable.s.sndWnd = c.s.sndWnd := by
  have hs₁ : c.connectFailed.2.s = c.s ∧ c.connectFailed.2.io.trace = c.io.trace := by
    unfold Ctx.connectFailed
    split <;> exact ⟨rfl, rfl⟩
  unfold Ctx.onHostWritable at hearly ⊢
  generalize c.connectFailed = r at hs₁ hearly ⊢
  obtain ⟨failed, c₁⟩ := r
  simp only at hs₁ hearly ⊢
  obtain ⟨hsame, htrace⟩ := hs₁
  split
  · rename_i hfailed
    rw [if_pos hfailed, abort_state] at hearly
    cases hearly
  · have hset : Silent c c₁.setWritable := by
      refine ⟨?_, ?_, ?_, ?_, ?_, ?_, ?_, by rw [← htrace]; exact List.prefix_refl _⟩
      all_goals
        rw [← hsame]
        rfl
    have hlively := h.lively.silent hs hset
    have hst : c₁.setWritable.s.state ≠ .synRcvd := by
      show c₁.s.state ≠ .synRcvd
      rw [hsame]
      exact hs
    have hpath := tryDrainToHost_path c₁.setWritable
    have hside := hpath.sideways hlively hst
    have hsend : c₁.setWritable.tryDrainToHost.s.toSendVars = c.s.toSendVars := by
      rw [hside.send, ← hsame]
      rfl
    have hretx : c₁.setWritable.tryDrainToHost.s.retx = c.s.retx :=
      hpath.silent.retx.trans hset.retx
    have hpre : c.io.trace <+: c₁.setWritable.tryDrainToHost.io.trace :=
      hset.trace.trans hpath.silent.trace
    have hopen := hside.open hst
    have hdrained : Driven c₁.setWritable.tryDrainToHost :=
      ⟨hside.lively, h.moving.congr hsend (by rw [hretx]; exact id) hpre⟩
    generalize hc₂ : c₁.setWritable.tryDrainToHost = c₂ at hsend hpre hopen hdrained
    rw [writableDrained_eq hc₂]
    have hwnd : c₂.s.sndWnd = c.s.sndWnd := congrArg SendVars.sndWnd hsend
    split
    · have hshut : c₂.io.trace <+: c₂.shutdownWr.io.trace := List.prefix_append _ _
      exact ⟨⟨(shutdownWr_sideways hdrained.lively hopen).lively,
        hdrained.moving.congr rfl id hshut⟩, hopen, hpre.trans hshut, hwnd⟩
    · exact ⟨hdrained, hopen, hpre, hwnd⟩

theorem onHostEvent_unopened {c : Ctx} (hs : c.s.state = .synRcvd) (hh : c.s.host = false)
    (ev : HostEvent) : (c.onHostEvent ev).s.state = .synRcvd ∧ (c.onHostEvent ev).s.host = false ∧
      (c.onHostEvent ev).s.toSendVars = c.s.toSendVars ∧ Silent c (c.onHostEvent ev) := by
  have hrefl : ∀ c : Ctx, Silent c c := fun c =>
    ⟨rfl, rfl, rfl, rfl, rfl, rfl, rfl, List.prefix_refl _⟩
  have herr : c.socketError ev = (false, c) := by
    unfold Ctx.socketError
    rw [hh, Bool.and_false]
    rfl
  have hwr : c.onHostWritable = c.setWritable := by
    have hconn : c.connectFailed = (false, c) := by
      unfold Ctx.connectFailed
      rw [hh, Bool.and_false]
      rfl
    have hdrain : c.setWritable.tryDrainToHost = c.setWritable := by
      unfold Ctx.tryDrainToHost
      rw [show c.setWritable.s.host = false from hh]
      rfl
    unfold Ctx.onHostWritable
    rw [hconn]
    simp only [Bool.false_eq_true, if_false]
    rw [writableDrained_eq hdrain, if_neg]
    simp [show c.setWritable.s.host = false from hh]
  have hwritten : ∃ c₁ : Ctx, (if ev.isWritable then c.onHostWritable else c) = c₁ ∧
      c₁.s.state = .synRcvd ∧ c₁.s.host = false ∧ c₁.s.toSendVars = c.s.toSendVars ∧
      Silent c c₁ := by
    refine ⟨_, rfl, ?_⟩
    split
    · rw [hwr]
      exact ⟨hs, hh, rfl, ⟨rfl, rfl, rfl, rfl, rfl, rfl, rfl, List.prefix_refl _⟩⟩
    · exact ⟨hs, hh, rfl, hrefl c⟩
  obtain ⟨c₁, hc₁, hs₁, hh₁, hsend₁, hq₁⟩ := hwritten
  have hrd : (if ev.isReadable then c₁.onHostReadable else c₁) = c₁ := by
    unfold Ctx.onHostReadable
    rw [hh₁]
    split <;> rfl
  unfold Ctx.onHostEvent
  rw [herr]
  simp only [Bool.false_eq_true, if_false]
  rw [hc₁, hrd]
  split
  · have hclosed : c₁.hostClosedEvent = c₁.noteClosed := by
      have hst : c₁.noteClosed.s.state = .synRcvd := hs₁
      unfold Ctx.hostClosedEvent Ctx.canFin
      simp [hst]
    rw [hclosed]
    exact ⟨hs₁, hh₁, hsend₁, hq₁.una, hq₁.nxt, hq₁.peer, hq₁.congestion, hq₁.rto, hq₁.retx, hq₁.key,
      hq₁.trace.trans (List.prefix_append _ _)⟩
  · exact ⟨hs₁, hh₁, hsend₁, hq₁⟩

theorem onHostReadable_trace (c : Ctx) : c.io.trace <+: c.onHostReadable.io.trace := by
  unfold Ctx.onHostReadable
  split
  · exact List.prefix_refl _
  · rename_i hhost
    split
    · exact List.prefix_refl _
    · obtain ⟨c₁, hpath, hres⟩ := readLoop_path c.io.oracle.reads c (by simpa using hhost)
      have hread : c.io.trace <+: c₁.io.trace := hpath.adds.isPre
      obtain hres | hres := hres
      · rw [hres]
        simp only [if_true]
        rw [show c₁.trySegmentAndEmit.refreshZwp.io.trace = c₁.trySegmentAndEmit.io.trace from
          congrArg View.trace (refreshZwp_view _)]
        exact hread.trans (trySegmentAndEmit_path c₁).adds.isPre
      · rw [hres]
        exact hread.trans (abort_silent c₁).trace

theorem readable_ongoing {c : Ctx} (h : Driven c) (hs : c.s.state ≠ .synRcvd) (ev : HostEvent)
    {c₁ c₂ : Ctx} (hc₁ : c₁ = if ev.isReadable then c.onHostReadable else c)
    (hc₂ : c₂ = if ev.isReadClosed || ev.isWriteClosed then c₁.hostClosedEvent else c₁)
    (hbytes : c.s.sndWnd = 0 → ∀ data, .read data ∉ newActs c c₂)
    (hearly : c₂.s.state.early = true) : Ongoing c₂ := by
  have hpre₁ : c.io.trace <+: c₁.io.trace := by
    rw [hc₁]
    split
    · exact onHostReadable_trace c
    · exact List.prefix_refl _
  have hpre₂ : c₁.io.trace <+: c₂.io.trace := by
    rw [hc₂]
    split
    · exact (hostClosedEvent_path c₁).adds.isPre
    · exact List.prefix_refl _
  have hearly₁ : c₁.s.state.early = true := by
    by_contra hlate
    rw [hc₂] at hearly
    split at hearly
    · rw [hostClosedEvent_late (by simpa using hlate)] at hearly
      cases hearly
    · exact hlate hearly
  have hread : Driven c₁ ∧ c₁.s.state ≠ .synRcvd := by
    have hbytes₁ : c.s.sndWnd = 0 → ∀ data, .read data ∉ newActs c c₁ := fun hz data hdata =>
      hbytes hz data (newActs_mono (List.prefix_refl _) hpre₁ hpre₂ hdata)
    by_cases hreadable : ev.isReadable = true
    · rw [if_pos hreadable] at hc₁
      rw [hc₁] at hbytes₁ hearly₁ ⊢
      exact onHostReadable_ongoing h hs hbytes₁ hearly₁
    · rw [if_neg hreadable] at hc₁
      rw [hc₁]
      exact ⟨h, hs⟩
  by_cases hclosed : (ev.isReadClosed || ev.isWriteClosed) = true
  · rw [if_pos hclosed] at hc₂
    rw [hc₂] at hearly ⊢
    obtain ⟨hdriven, hopen⟩ := hostClosedEvent_driven hread.1 hread.2 hearly
    exact .of_driven hdriven hopen
  · rw [if_neg hclosed] at hc₂
    rw [hc₂]
    exact .of_driven hread.1 hread.2

theorem onHostEvent_ongoing {c : Ctx} (h : Ongoing c) (ev : HostEvent)
    (hbytes : c.s.sndWnd = 0 → ∀ data, .read data ∉ newActs c (c.onHostEvent ev))
    (hearly : (c.onHostEvent ev).s.state.early = true) : Ongoing (c.onHostEvent ev) := by
  by_cases hsyn : c.s.state = .synRcvd
  · obtain ⟨hhost, hd⟩ := h.unopened hsyn
    obtain ⟨hst, hh, hsend, hq⟩ := onHostEvent_unopened hsyn hhost ev
    have hd' : (c.onHostEvent ev).s.toClient.length ≤ (c.onHostEvent ev).s.toClientOff := by
      rw [show (c.onHostEvent ev).s.toClient = c.s.toClient from congrArg SendVars.toClient hsend,
        show (c.onHostEvent ev).s.toClientOff = c.s.toClientOff from
          congrArg SendVars.toClientOff hsend]
      exact hd
    exact ⟨⟨h.driven.lively.unopened (hst.trans hsyn.symm) hsend hq, .of_drained hd'⟩,
      fun _ => ⟨hh, hd'⟩⟩
  · have hs₁ : (c.socketError ev).2.s = c.s ∧ (c.socketError ev).2.io.trace = c.io.trace := by
      unfold Ctx.socketError
      split <;> exact ⟨rfl, rfl⟩
    unfold Ctx.onHostEvent at hbytes hearly ⊢
    generalize c.socketError ev = r at hs₁ hbytes hearly ⊢
    obtain ⟨failed, c₁⟩ := r
    simp only at hs₁ hbytes hearly ⊢
    obtain ⟨hsame, htrace⟩ := hs₁
    split
    · rename_i hfailed
      rw [if_pos hfailed, abort_state] at hearly
      cases hearly
    · rename_i hok
      rw [if_neg hok] at hbytes hearly
      have hdriven₁ : Driven c₁ := by
        refine ⟨h.driven.lively.silent hsyn ?_, h.driven.moving.congr ?_ ?_ ?_⟩
        · refine ⟨?_, ?_, ?_, ?_, ?_, ?_, ?_, by rw [htrace]⟩
          all_goals rw [hsame]
        · rw [hsame]
        · rw [hsame]
          exact id
        · rw [htrace]
      have hopen₁ : c₁.s.state ≠ .synRcvd := by rw [hsame]; exact hsyn
      have hw : (if ev.isWritable then c₁.onHostWritable else c₁).s.state.early = true →
          Driven (if ev.isWritable then c₁.onHostWritable else c₁) ∧
          (if ev.isWritable then c₁.onHostWritable else c₁).s.state ≠ .synRcvd ∧
          c₁.io.trace <+: (if ev.isWritable then c₁.onHostWritable else c₁).io.trace ∧
          (if ev.isWritable then c₁.onHostWritable else c₁).s.sndWnd = c₁.s.sndWnd := by
        intro hearly
        split
        · rename_i hwritable
          rw [if_pos hwritable] at hearly
          exact onHostWritable_driven hdriven₁ hopen₁ hearly
        · exact ⟨hdriven₁, hopen₁, List.prefix_refl _, rfl⟩
      generalize (if ev.isWritable then c₁.onHostWritable else c₁) = c₂ at hw hbytes hearly ⊢
      have hearly₂ : c₂.s.state.early = true := by
        by_contra hlate
        have hr : (if ev.isReadable then c₂.onHostReadable else c₂).s.state.early = false := by
          split
          · exact onHostReadable_late (by simpa using hlate)
          · simpa using hlate
        split at hearly
        · rw [hostClosedEvent_late hr] at hearly
          cases hearly
        · rw [hr] at hearly
          cases hearly
      obtain ⟨hdriven₂, hopen₂, hpre₂, hwnd₂⟩ := hw hearly₂
      rw [htrace] at hpre₂
      have hwnd : c₂.s.sndWnd = c.s.sndWnd := by rw [hwnd₂, hsame]
      refine readable_ongoing hdriven₂ hopen₂ ev rfl rfl (fun hz data hdata => ?_) hearly
      rw [hwnd] at hz
      refine hbytes hz data (newActs_mono hpre₂ ?_ (List.prefix_refl _) hdata)
      have hread : c₂.io.trace <+: (if ev.isReadable then c₂.onHostReadable else c₂).io.trace := by
        split
        · exact onHostReadable_trace c₂
        · exact List.prefix_refl _
      generalize (if ev.isReadable then c₂.onHostReadable else c₂) = c₃ at hread ⊢
      split
      · exact hread.trans (hostClosedEvent_path c₃).adds.isPre
      · exact hread

/-! ## Ticks -/

theorem Ongoing.same {c c' : Ctx} (h : Ongoing c) (hlively : Lively c')
    (hcore : c'.s.core = c.s.core) (hpre : c.io.trace <+: c'.io.trace) : Ongoing c' := by
  have hsend : c'.s.toSendVars = c.s.toSendVars := congrArg Core.send hcore
  refine ⟨⟨hlively, h.driven.moving.congr hsend ?_ hpre⟩, fun hsyn => ?_⟩
  · intro hne hnil
    have hq : c.s.core.queue = [] := by
      rw [← hcore]
      exact congrArg (List.map OutSeg.core) hnil
    exact hne (by simpa [TcpSession.core] using hq)
  · rw [show c'.s.state = c.s.state from congrArg Core.state hcore] at hsyn
    obtain ⟨hhost, hd⟩ := h.unopened hsyn
    refine ⟨?_, ?_⟩
    · rw [show c'.s.host = c.s.host from congrArg (fun v : Core => v.host.host) hcore]
      exact hhost
    · rw [show c'.s.toClient = c.s.toClient from congrArg SendVars.toClient hsend,
        show c'.s.toClientOff = c.s.toClientOff from congrArg SendVars.toClientOff hsend]
      exact hd

theorem rtoFire_lively {c : Ctx} (h : Lively c) (now : UInt32)
    (hcwnd : c.s.inRecovery = true → c.s.cwnd.toNat + ownMss.toNat < 2 ^ 32) :
    (c.rtoFire now).s.state = .closed ∨ Lively (c.rtoFire now) := by
  unfold Ctx.rtoFire
  split
  · exact .inr h
  · have hreduced : Lively (c.rtoReduce now) :=
      h.sends .refl (h.sound.rtoReduce now hcwnd)
    have hretx := hreduced.resends (retransmit_path (c.rtoReduce now) .rtoRetx rfl 0 now)
      (retransmit_congestion (c.rtoReduce now) .rtoRetx 0 now)
    generalize ((c.rtoReduce now).retransmit .rtoRetx 0 now).2 = c₁ at hretx ⊢
    unfold Ctx.rtoRetry
    simp only
    split
    · exact .inl (abort_state _)
    · right
      exact hretx.resends (.single (.arm c₁.view _)) rfl

theorem tick_ongoing {c : Ctx} (h : Ongoing c) (now : UInt32)
    (hcwnd : c.s.inRecovery = true → c.s.cwnd.toNat + ownMss.toNat < 2 ^ 32)
    (hearly : (c.tick now).2.s.state.early = true) : Ongoing (c.tick now).2 := by
  have hpath : ResendPath c.view (c.tick now).2.view := by
    refine (tick_core c now).resolve_left fun hclosed => ?_
    rw [hclosed] at hearly
    cases hearly
  have hlively : Lively (c.tick now).2 := by
    have hfire := rtoFire_lively h.driven.lively now hcwnd
    revert hearly
    unfold Ctx.tick
    split
    · exact fun _ => h.driven.lively
    · have hrto : Lively (if c.s.rtoDeadlineMs != 0 && timeAfter now c.s.rtoDeadlineMs then
          c.rtoFire now else c) ∨ (if c.s.rtoDeadlineMs != 0 && timeAfter now c.s.rtoDeadlineMs then
          c.rtoFire now else c).s.state = .closed := by
        split
        · exact hfire.symm
        · exact .inl h.driven.lively
      simp only [beq_iff_eq]
      generalize (if c.s.rtoDeadlineMs != 0 && timeAfter now c.s.rtoDeadlineMs then c.rtoFire now
        else c) = c₁ at hrto ⊢
      split
      · rename_i hclosed
        intro hearly
        rw [hclosed] at hearly
        cases hearly
      · rename_i hopen
        have hl := hrto.resolve_right hopen
        have htimers := hl.sends (tickTimers_path c₁ now).send (hl.sound.tickTimers now)
        generalize c₁.tickTimers now = c₂ at htimers ⊢
        split
        · intro hearly
          rw [markClosed_state] at hearly
          cases hearly
        · exact fun _ => htimers
  have hcore : (c.tick now).2.s.core = c.s.core := hpath.core
  exact h.same hlively hcore hpath.send.adds.isPre

/-! ## Runs -/

theorem onSegment_ongoing {c : Ctx} (h : Ongoing c) (hs : c.s.state.early = true) (seg : Bytes)
    (hwnd : (TcpHeader.window seg).toUInt32 <<< c.s.peerWscale.toUInt32 = 0 →
      (c.acked seg).s.pending = 0)
    (hearly : (c.onSegment seg).2.s.state.early = true) : Ongoing (c.onSegment seg).2 := by
  unfold Ctx.onSegment at hearly ⊢
  split
  · exact h
  · rename_i hlen
    rw [if_neg hlen] at hearly
    simp only at hearly ⊢
    split
    · exact h
    · rename_i hhdr
      rw [if_neg hhdr] at hearly
      unfold Ctx.acked at hwnd
      have hview := preprocess_view c ((seg.take (TcpHeader.dataOff seg)).drop 20) (TcpHeader.seq seg)
      have hcong := preprocess_congestion c ((seg.take (TcpHeader.dataOff seg)).drop 20)
        (TcpHeader.seq seg)
      generalize c.preprocess ((seg.take (TcpHeader.dataOff seg)).drop 20) (TcpHeader.seq seg) = c₁
        at hview hcong hwnd hearly ⊢
      have hcore : c₁.s.core = c.s.core := congrArg View.toCore hview
      have hongoing : Ongoing c₁ := by
        refine h.same (h.driven.lively.congr hview hcong) hcore ?_
        rw [show c₁.io.trace = c.io.trace from congrArg View.trace hview]
      have hstate : c₁.s.state = c.s.state := congrArg Core.state hcore
      rw [← show c₁.s.peerWscale = c.s.peerWscale from
        congrArg (fun v : Core => v.peer.peerWscale) hcore] at hwnd
      split
      · rename_i hrst
        rw [if_pos hrst] at hearly
        split
        · rename_i hin
          rw [if_pos hin] at hearly
          exact absurd hearly (by simp [markClosed_state, TcpState.early])
        · exact hongoing
      · rename_i hrst
        rw [if_neg hrst] at hearly
        have hopen : ¬ (c₁.s.state == .closed) = true := by
          rw [hstate]
          intro hclosed
          rw [show c.s.state = .closed by simpa using hclosed] at hs
          cases hs
        rw [if_neg hopen] at hearly ⊢
        simp only at hearly ⊢
        rw [← hstate] at hs
        unfold Ctx.dispatchState at hearly ⊢
        split
        all_goals rename_i hst
        all_goals try rw [hst] at hs
        · simp only [hst] at hearly
          exact processSynRcvd_ongoing hongoing hst hearly
        · simp only [hst] at hearly
          exact processEstablished_ongoing hongoing.driven.lively (by simp [hst]) hwnd hearly
        · simp only [hst] at hearly
          exact processCloseWait_ongoing hongoing.driven.lively (by simp [hst]) hwnd hearly
        all_goals first | cases hs | exact hongoing

theorem handle_ongoing {c : Ctx} (h : Ongoing c) (hs : c.s.state.early = true) {i : Input}
    (hfed : c.Fed i) (hopen : c.s.state ≠ .closed) (hearly : (c.step i).s.state.early = true) :
    Ongoing (c.step i) := by
  have hload : Ongoing (c.load i.oracle) :=
    h.same (h.driven.lively.congr rfl rfl) rfl (List.prefix_refl _)
  have hbytes := hfed.bytes
  rw [step_open hopen] at hbytes hearly ⊢
  cases hev : i.event with
  | segment seg =>
    rw [hev] at hearly
    exact onSegment_ongoing hload hs seg (hfed.window seg hev) hearly
  | host ev =>
    rw [hev] at hearly hbytes
    exact onHostEvent_ongoing hload ev hbytes hearly
  | tick now =>
    rw [hev] at hearly
    exact tick_ongoing hload now (hfed.timeout now hev) hearly
  | windowUpdate =>
    show Ongoing (c.load i.oracle).fanOutWindowUpdate
    generalize c.load i.oracle = c₁ at hload ⊢
    have hack : Ongoing c₁.emitAck := by
      have hlively := emitAck_lively hload.driven.lively .ack (.inl rfl)
      have hcore := emitAck_core c₁
      have hpre := (emitAck_path c₁ (.inl rfl)).send.adds.isPre
      generalize c₁.emitAck = c₂ at hlively hcore hpre ⊢
      exact hload.same hlively hcore hpre
    unfold Ctx.fanOutWindowUpdate
    split
    · exact hack
    · exact hack
    · exact hack
    · exact hack
    · exact hload

/-! ## The start -/

theorem prepareSyn_congestion (c : Ctx) (seg : Bytes) :
    (c.prepareSyn seg).s.toPacing.congestion = { c.s.toPacing.congestion with
      cwnd := 10 * (c.prepareSyn seg).s.peerMss.toUInt32 } := by
  have hread : (c.readSyn seg).s.toPacing.congestion = c.s.toPacing.congestion := by
    unfold Ctx.readSyn Ctx.negotiate Ctx.startTimestamps
    simp only
    split
    · split <;> rfl
    · rfl
  rw [← hread]
  rfl

theorem sendSynAck_congestion (c : Ctx) (opts : Bytes) :
    (c.sendSynAck opts).s.toPacing.congestion = c.s.toPacing.congestion := by
  have h := emitSegment_congestion c .synAck (TCP_SYN ||| TCP_ACK) c.s.sndUna [] true opts
  unfold Ctx.sendSynAck
  generalize c.emitSegment .synAck (TCP_SYN ||| TCP_ACK) c.s.sndUna [] true opts = r at h ⊢
  rw [← h]
  rfl

theorem sendSynAck_peer (c : Ctx) (opts : Bytes) :
    (c.sendSynAck opts).s.toPeerOpts = c.s.toPeerOpts := by
  obtain ⟨s, b, -, -, hem⟩ :=
    emitSegment_emitted c .synAck (TCP_SYN ||| TCP_ACK) c.s.sndUna [] true opts
  unfold Ctx.sendSynAck
  generalize c.emitSegment .synAck (TCP_SYN ||| TCP_ACK) c.s.sndUna [] true opts = r at hem ⊢
  obtain ⟨ok, c'⟩ := r
  have hpeer : c'.view.peer = c.view.peer := by
    simp only at hem
    generalize c'.view = v at hem ⊢
    cases hem <;> rfl
  exact hpeer

theorem start_congestion (key : FlowKey) (syn : Bytes) (o : Oracle)
    (h : (start key syn o).s.state = .synRcvd) :
    (start key syn o).s.toPacing.congestion =
      ⟨10 * (start key syn o).s.peerMss.toUInt32, 0xFFFFFFFF, false, 0, 0⟩ := by
  obtain ⟨opts, seq, hstart⟩ := start_accepts key syn o h
  have hpre := preprocess_congestion (Ctx.load { s := .new key } o) opts seq
  have hclosed := congrArg (fun v : View => v.state)
    (preprocess_view (Ctx.load { s := .new key } o) opts seq)
  rw [hstart] at h ⊢
  generalize (Ctx.load { s := .new key } o).preprocess opts seq = c at hpre hclosed h ⊢
  unfold Ctx.acceptInitialSyn at h ⊢
  simp only at h ⊢
  split at h
  · rw [show c.s.state = .closed from hclosed] at h
    cases h
  · rename_i hflags
    rw [if_neg hflags]
    have hprepared := prepareSyn_congestion c syn
    obtain ⟨sopts, n, -, hopts⟩ := synAckOptions_spec (c.prepareSyn syn)
    generalize c.prepareSyn syn = c₁ at hprepared hopts ⊢
    have hs : ({ c₁ with io.readings := n } : Ctx).s = c₁.s := rfl
    generalize ({ c₁ with io.readings := n } : Ctx) = c₂ at hopts hs
    simp only [hopts]
    rw [sendSynAck_congestion, sendSynAck_peer, hs, hprepared, hpre]
    rfl

theorem Started.opening {key : FlowKey} (hkey : key.IsV4) {v : View} (h : Started key v) :
    (Covered v.toCore ∨ Unanswered v.toCore) ∧ Armed v ∧ v.peer.Ok ∧ v.key = key ∧
      v.host.host = false ∧ v.send.toClient.length ≤ v.send.toClientOff := by
  have hinv := h.queueInv hkey
  cases h with
  | lost acts d hp ho hf ha =>
    exact ⟨.inr ⟨rfl, rfl, rfl, Nat.le_refl 0⟩, fun _ hne => absurd rfl hne, hp, rfl, rfl,
      Nat.le_refl 0⟩
  | sent d d' hp ho hf hb =>
    refine ⟨.inl (hinv.2 ?_), ?_, hp, rfl, rfl, Nat.le_refl 0⟩
    · intro a ha
      simp only [List.mem_cons, List.not_mem_nil, or_false] at ha
      rcases ha with rfl | rfl | rfl <;> rfl
    · intro hun _
      have harm := hun (.armRto d') (by simp)
      simpa [Action.strands] using harm

theorem Accepted.ongoing {key : FlowKey} {c₀ : Ctx} (h : Accepted key c₀) : Ongoing c₀ := by
  obtain ⟨hcov, harmed, hpeer, hkey, hhost, hd⟩ := h.started.opening h.1
  obtain ⟨hv4, syn, o, rfl, hstate⟩ := h
  have hcong := start_congestion key syn o hstate
  generalize start key syn o = c at hcov harmed hpeer hkey hhost hd hstate hcong ⊢
  have hmss : (10 * c.s.peerMss.toUInt32).toNat = 10 * c.s.peerMss.toNat := by
    have : c.s.peerMss.toNat ≤ ownMss.toNat := hpeer.mssLe
    have : ownMss.toNat = 960 := rfl
    rw [UInt32.toNat_mul, UInt16.toNat_toUInt32]
    exact Nat.mod_eq_of_lt (by show 10 * c.s.peerMss.toNat < 2 ^ 32; omega)
  have hpaced : Paced c.s.toPacing.congestion c.s.core.queue := by
    rw [hcong]
    have hthresh : 0 < (0xFFFFFFFF : UInt32).toNat := by decide
    have hundo : (0 : UInt32).toNat + ownMss.toNat < 2 ^ 32 := by decide
    refine ⟨fun _ => ?_, fun hrec => (by cases hrec), hthresh, hundo⟩
    have hpos : 0 < c.s.peerMss.toNat := hpeer.mssPos
    have hle : c.s.peerMss.toNat ≤ ownMss.toNat := hpeer.mssLe
    have hcap : 10 * ownMss.toNat ≤ cwndCap := by decide
    simp only [hmss]
    omega
  have hd' : c.s.toClient.length ≤ c.s.toClientOff := hd
  refine ⟨⟨⟨⟨hcov, hpaced, hpeer.mssPos, hpeer.mssLe⟩, harmed, ?_⟩, .of_drained hd'⟩,
    fun _ => ⟨hhost, hd'⟩⟩
  rw [show c.s.key = key from hkey]
  exact hv4

theorem run_ongoing {key : FlowKey} {c₀ : Ctx} (h₀ : Accepted key c₀) {inputs : List Input}
    (hfed : Each (fun pre i => (c₀.run pre).Fed i) inputs)
    (hearly : (c₀.run inputs).s.state.early = true) : Ongoing (c₀.run inputs) := by
  refine run_induction (P := fun c => c.s.state.early = true → Ongoing c) (Q := Ctx.Fed)
    (fun _ => h₀.ongoing) ?_ hfed hearly
  intro c i hopen _ hstep hc hend
  by_cases hs : c.s.state.early = true
  · exact handle_ongoing (hc hs) hs hstep hopen hend
  · have hlate : (c.load i.oracle).s.state.early = false := eq_false_of_ne_true hs
    rw [step_open hopen, handle_late hlate hopen] at hend
    cases hend

/-- In every run whose events leave the sender a way on, and in which the callback refuses no segment
of an idle sender and no RTO falls on zero, waiting data has something that restarts the session. -/
theorem waiting_has_stimulus {key : FlowKey} {c₀ : Ctx} (h₀ : Accepted key c₀)
    (inputs : List Input) (hfed : Each (fun pre i => (c₀.run pre).Fed i) inputs)
    (hun : Unstranded (c₀.run inputs).io.trace) (hw : (c₀.run inputs).Waiting) :
    (c₀.run inputs).Stimulus := by
  obtain ⟨hstate, hpend⟩ := hw
  have hearly : (c₀.run inputs).s.state.early = true := by
    rcases hstate with hst | hst <;> rw [hst] <;> rfl
  have hongoing := run_ongoing h₀ hfed hearly
  obtain ⟨hwnd, hretx⟩ := hongoing.driven.moving hun hpend
  refine .inl ⟨hwnd, hretx, hongoing.driven.lively.armed hun ?_⟩
  intro hnil
  exact hretx (by simpa [Ctx.view, TcpSession.core] using hnil)

/-- The host sends more than the window takes. -/
def overfull : List Input :=
  [sampleAck 10, ⟨.host { isReadable := true }, { reads := [.ok (List.replicate 12 7)] }⟩]

theorem waiting_behind_full_window :
    ((sampleStart 10 []).run overfull).Waiting ∧ ((sampleStart 10 []).run overfull).Stimulus := by
  have hwait : ((sampleStart 10 []).run overfull).Waiting := by
    refine ⟨.inl ?_, ?_⟩ <;> decide +kernel
  refine ⟨hwait, waiting_has_stimulus (sampleStart_accepted _ _ (by decide)) _ ?_ ?_ hwait⟩
  · refine each_cons.mpr ⟨⟨?_, ?_, ?_⟩, each_cons.mpr ⟨⟨?_, ?_, ?_⟩, each_nil _⟩⟩
    · intro seg hseg hz
      obtain rfl := Event.segment.inj hseg
      exact absurd hz (by decide +kernel)
    · exact fun hz => absurd hz (by decide +kernel)
    · exact fun now hnow => absurd hnow (by simp [sampleAck])
    · exact fun seg hseg => absurd hseg (by simp)
    · exact fun hz => absurd hz (by decide +kernel)
    · exact fun now hnow => absurd hnow (by simp)
  · decide +kernel

/-- The callback refuses the only byte of the host, with nothing in flight. -/
def refusedByte : List Input :=
  [sampleAck 1000,
    ⟨.host { isReadable := true }, { reads := [.ok [7]], accept := fun _ => false }⟩]

/-- Nothing restarts the session: the queue is empty and no timer but those of the queue runs. -/
theorem refused_byte_stranded :
    ¬ ∀ (key : FlowKey) (c : Ctx), Reachable key c → c.Waiting → c.Stimulus := by
  intro hall
  have hreach : Reachable sampleKey ((sampleStart 1000 []).run refusedByte) :=
    (sampleStart_accepted _ _ (by decide)).reachable _
  have hwait : ((sampleStart 1000 []).run refusedByte).Waiting := by
    refine ⟨.inl ?_, ?_⟩ <;> decide +kernel
  obtain ⟨-, hne, -⟩ | ⟨hz, -⟩ := hall _ _ hreach hwait
  · exact hne (by decide +kernel)
  · exact absurd hz (by decide +kernel)

/-- The window is shut when the byte of the host comes. -/
def shutWindow : List Input :=
  [sampleAck 0, ⟨.host { isReadable := true }, { reads := [.ok [7]] }⟩]

/-- A window probe that needs no answer. -/
def Action.vainProbe (nxt : UInt32) : Action → Bool
  | .emit .zwpProbe _ b _ _ => b.payload.isEmpty && !seqLt b.seq nxt
  | _ => false

/-- The probe of a shut window is a bare ACK at `snd_nxt`. -/
theorem shut_window_probed_in_vain :
    ((sampleStart 1000 []).run shutWindow).Waiting ∧
      ((sampleStart 1000 []).run shutWindow).s.zwpDeadlineMs ≠ 0 ∧
      ¬ ((sampleStart 1000 []).run shutWindow).Stimulus := by
  have hprobe : ∃ a ∈ newActs ((sampleStart 1000 []).run shutWindow)
      ((((sampleStart 1000 []).run shutWindow).load {}).tick 250).2,
        a.vainProbe ((sampleStart 1000 []).run shutWindow).s.sndNxt = true := by
    rw [← List.any_eq_true]
    decide +kernel
  refine ⟨⟨.inl (by decide +kernel), by decide +kernel⟩, by decide +kernel, ?_⟩
  rintro (⟨hwnd, -⟩ | ⟨-, -, hanswer⟩)
  · exact hwnd (by decide +kernel)
  · obtain ⟨a, ha, hvain⟩ := hprobe
    unfold Action.vainProbe at hvain
    split at hvain
    · rename_i s b pkt ok
      simp only [Bool.and_eq_true, List.isEmpty_iff, Bool.not_eq_true'] at hvain
      obtain hpay | hseq := hanswer {} 250 s b pkt ok ha
      · exact hpay hvain.1
      · rw [hvain.2] at hseq
        cases hseq
    · cases hvain

end BaleVpn.Tcp
