import BaleVpn.Tcp.HostSide
import BaleVpn.Tcp.Refine

/-!
# The session refines the abstract session: events

Every event of a session, whatever the outside answers, is an `Outcome`: moves of the abstract
session, with a close at most at the end.
-/

namespace BaleVpn.Tcp

open Net Relation

/-! ## What the sender leaves alone -/

/-- The fields no sender step changes. -/
structure SameFrame (v v' : View) : Prop where
  key : v'.key = v.key
  state : v'.state = v.state
  recv : v'.recv = v.recv
  peer : v'.peer = v.peer
  host : v'.host = v.host
  sndWnd : v'.send.sndWnd = v.send.sndWnd
  sentFin : v'.send.sentFin = v.send.sentFin
  toClient : v'.send.toClient = v.send.toClient

theorem Sender.frame {v v' : View} (h : Sender v v') : SameFrame v v' := by
  cases h with
  | resend h =>
    obtain ⟨core, rto, trace⟩ := v'
    obtain rfl : core = v.toCore := h.core
    exact ⟨rfl, rfl, rfl, rfl, rfl, rfl, rfl, rfl⟩
  | _ => exact ⟨rfl, rfl, rfl, rfl, rfl, rfl, rfl, rfl⟩

theorem SendPath.frame {v v' : View} (h : SendPath v v') : SameFrame v v' := by
  induction h with
  | refl => exact ⟨rfl, rfl, rfl, rfl, rfl, rfl, rfl, rfl⟩
  | tail _ hstep ih =>
    have hf := hstep.frame
    exact ⟨hf.key.trans ih.key, hf.state.trans ih.state, hf.recv.trans ih.recv,
      hf.peer.trans ih.peer, hf.host.trans ih.host, hf.sndWnd.trans ih.sndWnd,
      hf.sentFin.trans ih.sentFin, hf.toClient.trans ih.toClient⟩

theorem SendPath.path {v v' : View} (h : SendPath v v') : Path v v' :=
  ReflTransGen.mono (fun _ _ => Micro.sender) _ _ h

/-! ## Towards the client -/

theorem advanceFin_view (c : Ctx) :
    c.advanceFin.view = { c.view with
      send.sndNxt := c.view.send.sndNxt + 1
      state := if c.view.state == .closeWait then .lastAck else .finWait1 } := rfl

theorem sendFin_path (c : Ctx) (hs : c.s.sentFin = false) (he : c.s.hostReadEof = true)
    (hd : c.s.toClient.length ≤ c.s.toClientOff) : Path c.view c.sendFin.view := by
  have hview : c.noteFinSent.view = { c.view with send.sentFin := true } := rfl
  have hcore : c.noteFinSent.s.core = { c.s.core with send.sentFin := true } := rfl
  obtain ⟨s, b, -, hf, hem⟩ :=
    emitSegment_emitted c.noteFinSent .fin (TCP_FIN ||| TCP_ACK) c.s.sndNxt [] true []
  unfold Ctx.sendFin
  generalize c.noteFinSent.emitSegment .fin (TCP_FIN ||| TCP_ACK) c.s.sndNxt [] true [] = r
    at hem ⊢
  obtain ⟨ok, c'⟩ := r
  simp only at hem ⊢
  rw [advanceFin_view]
  generalize c'.view = v' at hem ⊢
  rw [hcore] at hf
  cases hem with
  | unbuilt hb =>
    have h := Micro.finLost c.view [] hs he hd hf (.inl ⟨hb, rfl⟩)
    rw [List.append_nil] at h
    exact .single h
  | @refused pkt hb => exact .single (.finLost c.view _ hs he hd hf (.inr ⟨pkt, hb, rfl⟩))
  | passed _ hr => cases hr
  | recorded d hb _ =>
    have h := Micro.fin c.view d hs he hd hf hb
    rw [List.append_cons c.view.trace] at h
    exact .single h

theorem resumeReads_path (c : Ctx) : Path c.view c.resumeReads.view := by
  unfold Ctx.resumeReads
  split
  · exact .single (.pause c.view false)
  · exact .refl

theorem finishToClient_path (c : Ctx) : Path c.view c.finishToClient.view := by
  unfold Ctx.finishToClient
  simp only
  split
  · rename_i hdrained
    have hclear : Path c.view ({ c with s.toClient := [], s.toClientOff := 0 } : Ctx).view :=
      .single (.clear c.view hdrained)
    split
    · rename_i hfin
      simp only [Bool.and_eq_true, Bool.not_eq_true'] at hfin
      exact hclear.trans (sendFin_path _ hfin.1.2 hfin.1.1 (Nat.le_refl 0))
    · exact hclear
  · exact .refl

theorem trySegmentAndEmit_path (c : Ctx) : Path c.view c.trySegmentAndEmit.view :=
  ((segmentLoop_path c.s.pending c).path.trans (resumeReads_path _)).trans (finishToClient_path _)

theorem hostEof_path (c : Ctx) : Path c.view c.hostEof.view := by
  have heof : Path c.view c.noteEof.view := .single (.eof c.view .readEof (.inl rfl))
  have hread : c.noteEof.s.hostReadEof = true := rfl
  unfold Ctx.hostEof
  generalize c.noteEof = c₁ at heof hread ⊢
  simp only
  split
  · rename_i h
    simp only [Bool.and_eq_true, decide_eq_true_eq, Bool.not_eq_true'] at h
    exact heof.trans (sendFin_path c₁ h.2 hread h.1)
  · exact heof

theorem hostClosedEvent_path (c : Ctx) : Path c.view c.hostClosedEvent.view := by
  have heof : Path c.view c.noteClosed.view := .single (.eof c.view .hostClosed (.inr rfl))
  have hread : c.noteClosed.s.hostReadEof = true := rfl
  unfold Ctx.hostClosedEvent
  generalize c.noteClosed = c₁ at heof hread ⊢
  simp only
  split
  · rename_i h
    simp only [Bool.and_eq_true, decide_eq_true_eq, Bool.not_eq_true'] at h
    exact heof.trans (sendFin_path c₁ h.1.1 hread h.1.2)
  · exact heof

theorem pushToClient_path (c : Ctx) (data : Bytes) (hh : c.s.host = true) (hd : data ≠ []) :
    Path c.view (c.pushToClient data).view := .single (.read c.view data hh hd)

theorem readLoop_path (rs : List ReadRes) : ∀ c : Ctx, c.s.host = true → ∃ c₁ : Ctx,
    Path c.view c₁.view ∧
      (Ctx.readLoop rs c = (true, c₁) ∨ Ctx.readLoop rs c = (false, c₁.abort)) := by
  induction rs with
  | nil => exact fun c _ => ⟨c, .refl, .inl rfl⟩
  | cons r rs ih =>
    intro c hhost
    obtain ⟨c₀, hc₀⟩ : ∃ c₀ : Ctx, c₀ = { c with io.oracle.reads := rs } := ⟨_, rfl⟩
    have hview : c₀.view = c.view := by rw [hc₀]; rfl
    have hhost₀ : c₀.s.host = true := by rw [hc₀]; exact hhost
    rw [← hview]
    unfold Ctx.readLoop
    simp only
    rw [← hc₀]
    match r with
    | .ok [] => exact ⟨_, hostEof_path c₀, .inl rfl⟩
    | .ok (x :: xs) =>
      have hstep := pushToClient_path c₀ ((x :: xs).take (16 * 1024)) hhost₀ (by simp)
      have hhost₁ : (c₀.pushToClient ((x :: xs).take (16 * 1024))).s.host = true := hhost₀
      simp only
      generalize c₀.pushToClient ((x :: xs).take (16 * 1024)) = c₁ at hstep hhost₁ ⊢
      split
      · exact ⟨_, hstep.tail (.pause c₁.view true), .inl rfl⟩
      · obtain ⟨c₂, hpath, hres⟩ := ih c₁ hhost₁
        exact ⟨c₂, hstep.trans hpath, hres⟩
    | .wouldBlock => exact ⟨c₀, .refl, .inl rfl⟩
    | .interrupted => exact ih c₀ hhost₀
    | .err => exact ⟨c₀, .refl, .inr rfl⟩

theorem updateZwp_core (s : TcpSession) (now : UInt32) :
    (s.updateZwp now).core = s.core ∧ (s.updateZwp now).rtoDeadlineMs = s.rtoDeadlineMs := by
  unfold TcpSession.updateZwp
  split
  · split <;> exact ⟨rfl, rfl⟩
  · exact ⟨rfl, rfl⟩

theorem refreshZwp_view (c : Ctx) : c.refreshZwp.view = c.view :=
  have h := updateZwp_core c.s c.nowMs.1
  view_congr c.nowMs.2 h.1 h.2

/-! ## Inbound segments -/

theorem walkOptions_inv {σ : Type} {P : σ → Prop} {f : UInt8 → Bytes → σ → σ}
    (hf : ∀ kind opt r, P r → P (f kind opt r)) (fuel : ℕ) :
    ∀ (opts : Bytes) (r : σ), P r → P (walkOptions f fuel opts r) := by
  induction fuel with
  | zero => exact fun _ _ h => h
  | succ fuel ih =>
    intro opts r h
    cases opts with
    | nil => exact h
    | cons kind rest =>
      unfold walkOptions
      split
      · exact h
      · split
        · exact ih rest r h
        · split
          · exact h
          · split
            · exact h
            · exact ih _ _ (hf _ _ _ h)

theorem rackUpdates_rtoDeadlineMs (now : UInt32) (hits : List OutSeg) : ∀ p : Pacing,
    (hits.foldl (fun (p : Pacing) (e : OutSeg) =>
      p.rackUpdateFromDelivered e.sentMs (e.seq + e.data.length.toUInt32) now) p).rtoDeadlineMs =
      p.rtoDeadlineMs := by
  induction hits with
  | nil => exact fun _ => rfl
  | cons e hits ih =>
    intro p
    rw [List.foldl_cons, ih, rackUpdateFromDelivered_rtoDeadlineMs]

theorem map_core_sacked (left right : UInt32) (l : List OutSeg) :
    (l.map fun e => if Ctx.sackHits left right e then { e with sacked := true } else e).map
      OutSeg.core = l.map OutSeg.core := by
  rw [List.map_map]
  apply List.map_congr_left
  intro e _
  simp only [Function.comp_apply]
  split <;> rfl

theorem onSackBlock_view (c : Ctx) (left right : UInt32) :
    (c.onSackBlock left right).view = c.view := by
  apply view_congr c.nowMs.2
  · exact congrArg (fun q => { c.s.core with queue := q }) (map_core_sacked left right c.s.retx)
  · exact rackUpdates_rtoDeadlineMs _ _ _

theorem sackBlocks_view (n : ℕ) : ∀ (bytes : Bytes) (first : Bool) (c : Ctx), bytes.length ≤ n →
    (Ctx.sackBlocks bytes first c).view = c.view := by
  induction n with
  | zero =>
    intro bytes first c hlen
    rw [List.length_eq_zero_iff.mp (Nat.le_zero.mp hlen)]
    rfl
  | succ n ih =>
    intro bytes first c hlen
    unfold Ctx.sackBlocks
    split
    · rename_i a b c' d e f g h rest
      rw [ih rest _ _ (by simp only [List.length_cons] at hlen; omega)]
      simp only
      split
      · rw [onSackBlock_view]
        split <;> rfl
      · rfl
    · rfl

theorem parseSackBlocks_view (c : Ctx) (opts : Bytes) : (c.parseSackBlocks opts).view = c.view := by
  unfold Ctx.parseSackBlocks
  split
  · rfl
  · apply walkOptions_inv (P := fun c' : Ctx => c'.view = c.view)
    · intro kind opt r hr
      unfold Ctx.applySack
      split
      · rw [sackBlocks_view _ _ _ _ (Nat.le_refl _), hr]
      · exact hr
    · rfl

theorem noteTimestamps_view (c : Ctx) (opts : Bytes) (seq : UInt32) :
    (c.noteTimestamps opts seq).view = c.view := by
  unfold Ctx.noteTimestamps
  simp only
  split
  · split
    · split <;> rfl
    · rfl
  · rfl

theorem preprocess_view (c : Ctx) (opts : Bytes) (seq : UInt32) :
    (c.preprocess opts seq).view = c.view := by
  unfold Ctx.preprocess
  simp only
  rw [noteTimestamps_view]
  split
  · exact parseSackBlocks_view _ opts
  · rfl

variable {w : Bool}

theorem Moves.of_path {c c' : Ctx} (h : Path c.view c'.view) : Moves w c c' := .single (.path h)

theorem Moves.of_view {c c' : Ctx} (h : c'.view = c.view) : Moves w c c' :=
  Moves.of_path (h ▸ .refl)

theorem emitAck_moves (c : Ctx) : Moves w c c.emitAck :=
  Moves.of_path (emitAck_path c (.inl rfl)).send.path

theorem emitAck_core (c : Ctx) : c.emitAck.s.core = c.s.core := (emitAck_path c (.inl rfl)).core

theorem ackIfFlagged_path (c : Ctx) (flags : UInt8) (ack : UInt32) :
    AckPath c.view (c.s.unaAfter flags ack) (c.ackIfFlagged flags ack).view := by
  have h : AckPath c.view
      (if !seqLt c.s.sndNxt ack && !seqLe ack c.s.sndUna then ack else c.s.sndUna)
      (c.nowMs.2.onAck ack c.nowMs.1).view := onAck_path c.nowMs.2 ack c.nowMs.1
  unfold Ctx.ackIfFlagged TcpSession.unaAfter
  simp only
  cases hasFlag flags TCP_ACK with
  | true => simpa using h
  | false => exact .refl c.view

theorem setSndWnd_prelude {c c₁ : Ctx} (h : SendPath c.view c₁.view) (wnd : UInt16) :
    Prelude c (c₁.setSndWnd wnd) :=
  ⟨h.path.tail (.window c₁.view _), h.frame.recv, .inr ⟨h.frame.host, h.frame.state⟩⟩

theorem Prelude.refl (c : Ctx) : Prelude c c := ⟨.refl, rfl, .inr ⟨rfl, rfl⟩⟩

theorem Work.of_moves {c c' : Ctx} {seq : UInt32} {data : Bytes} (h : Moves false c c') :
    Work false seq data c c' := ⟨c, c, .refl c, .skip, h⟩

theorem Work.tail {took : Bool} {c c₁ c₂ : Ctx} {seq : UInt32} {data : Bytes}
    (h : Work took seq data c c₁) (hm : Moves false c₁ c₂) : Work took seq data c c₂ := by
  obtain ⟨d₁, d₂, hpre, htaken, hmoves⟩ := h
  exact ⟨d₁, d₂, hpre, htaken, hmoves.trans hm⟩

theorem Work.take {c c₁ : Ctx} (h : Prelude c c₁) (hs : c₁.s.state.takesData = true) (seq : UInt32)
    (data : Bytes) : Work (!data.isEmpty) seq data c (c₁.takePayload seq data) := by
  unfold Ctx.takePayload
  split
  · rename_i hempty
    rw [hempty]
    exact ⟨c₁, c₁, h, .skip, .refl⟩
  · rename_i hne
    rw [eq_false_of_ne_true hne]
    exact ⟨c₁, _, h, .data (by simpa using hne) hs, .refl⟩

theorem takePayload_send (c : Ctx) (seq : UInt32) (data : Bytes) :
    (c.takePayload seq data).s.toSendVars = c.s.toSendVars := by
  unfold Ctx.takePayload
  split
  · rfl
  · have hkept := (handleDataIn_path c seq data).frame.send
    generalize c.handleDataIn seq data = c₁ at hkept ⊢
    have hsend := congrArg Core.send (emitAck_core c₁)
    generalize c₁.emitAck = c₂ at hsend ⊢
    exact hsend.trans hkept

theorem finIn_moves (c : Ctx) {st : TcpState} (h : st = c.s.state ∨ st = .closeWait) :
    Moves w c ({ c with s.rcvNxt := c.s.rcvNxt + 1, s.state := st } : Ctx).emitAck :=
  (Moves.of_path (.single (.finIn c.view st h))).trans (emitAck_moves _)

theorem refreshZwp_moves (c : Ctx) : Moves w c c.refreshZwp := Moves.of_view (refreshZwp_view c)

theorem closeHostSocket_host (c : Ctx) : c.closeHostSocket.s.host = false :=
  congrArg (fun x : Obs => x.s.host) (closeHostSocket_obs c)

theorem closeHostSocket_state (c : Ctx) : c.closeHostSocket.s.state = c.s.state :=
  congrArg (fun x : Obs => x.s.state) (closeHostSocket_obs c)

theorem abort_host (c : Ctx) : c.abort.s.host = false := closeHostSocket_host _

theorem markClosed_state (c : Ctx) : c.markClosed.s.state = .closed := closeHostSocket_state _

theorem abort_state (c : Ctx) : c.abort.s.state = .closed := markClosed_state _

theorem enterTimeWait_state (c : Ctx) (now : UInt32) : (c.enterTimeWait now).s.state = .timeWait :=
  closeHostSocket_state _

/-! ## The handlers -/

/-- The outcome of a handler. -/
def Handled (final : Bool → Prop) (seq : UInt32) (data : Bytes) (c c' : Ctx) : Prop :=
  ∃ took c₁, Work took seq data c c₁ ∧ Ending (final took) c₁ c'

theorem Handled.of_work {final : Bool → Prop} {took : Bool} {seq : UInt32} {data : Bytes} {c c' : Ctx}
    (h : Work took seq data c c') : Handled final seq data c c' := ⟨took, c', h, .stay⟩

theorem synRcvdFin_moves (c : Ctx) (inOrder : Bool) (seq : UInt32) (payload : Bytes) :
    Moves w c (c.synRcvdFin inOrder seq payload) := by
  unfold Ctx.synRcvdFin
  split
  · exact finIn_moves c (.inr rfl)
  · exact emitAck_moves c

theorem synRcvdOpened_work {c c₁ : Ctx} (h : Prelude c c₁) (hs : c₁.s.state.takesData = true)
    (flags : UInt8) (seq : UInt32) (payload : Bytes) :
    Work (!payload.isEmpty) seq payload c (c₁.synRcvdOpened flags seq payload) := by
  have htake := Work.take h hs seq payload
  unfold Ctx.synRcvdOpened
  simp only
  split
  · exact (htake.tail (synRcvdFin_moves _ _ _ _)).tail (refreshZwp_moves _)
  · exact htake.tail (refreshZwp_moves _)

theorem openHostSocket_path (c : Ctx) (h : c.s.state = .established) :
    Path c.view c.openHostSocket.2.view ∧ c.openHostSocket.2.s.toRecvVars = c.s.toRecvVars ∧
      c.openHostSocket.2.s.state = .established := by
  unfold Ctx.openHostSocket
  split
  · exact ⟨.refl, rfl, h⟩
  · split
    · exact ⟨.refl, rfl, h⟩
    · rename_i hallowed
      split
      · exact ⟨.refl, rfl, h⟩
      · exact ⟨.single (.openHost c.view h (Bool.eq_false_iff.mpr hallowed)), rfl, h⟩

theorem processSynRcvd_handled {final : Bool → Prop} (c : Ctx) (h : c.s.state = .synRcvd) (flags : UInt8)
    (seq ack : UInt32) (wnd : UInt16) (payload : Bytes) :
    Handled final seq payload c (c.processSynRcvd flags seq ack wnd payload) := by
  unfold Ctx.processSynRcvd
  split
  · exact .of_work (.of_moves .refl)
  · split
    · exact .of_work (.of_moves .refl)
    · have hack := (onAck_path c.nowMs.2 ack c.nowMs.1).path
      have hstate : (c.nowMs.2.onAck ack c.nowMs.1).s.state = .synRcvd := hack.frame.state.trans h
      simp only
      generalize c.nowMs.2.onAck ack c.nowMs.1 = c₁ at hack hstate ⊢
      have hwnd := setSndWnd_prelude (c := c) hack wnd
      generalize hc₂ : ({ c₁.setSndWnd wnd with s.state := .established } : Ctx) = c₂
      have hest : Path c.view c₂.view := by
        rw [← hc₂]
        exact hwnd.path.tail (.establish _ hstate)
      have hopen := openHostSocket_path c₂ (by rw [← hc₂])
      have hrecv : c₂.s.toRecvVars = c.s.toRecvVars := by
        rw [← hc₂]
        exact hwnd.recv
      generalize c₂.openHostSocket = r at hopen ⊢
      obtain ⟨ok, c₃⟩ := r
      simp only at hopen ⊢
      have hpath := hest.trans hopen.1
      split
      · exact ⟨false, c₃, .of_moves (Moves.of_path hpath), .abort⟩
      · refine .of_work (synRcvdOpened_work ⟨hpath, hopen.2.1.trans hrecv, .inl h⟩ ?_ flags seq payload)
        rw [hopen.2.2]
        rfl

theorem shutdownWr_moves (c : Ctx) : Moves w c c.shutdownWr :=
  Moves.of_path (.single (.shutdownWr c.view))

theorem shutdownIfDrained_moves (c : Ctx) : Moves w c c.shutdownIfDrained := by
  unfold Ctx.shutdownIfDrained
  split
  · exact shutdownWr_moves c
  · exact .refl

theorem establishedFin_moves (c : Ctx) (inOrder : Bool) (seq : UInt32) (payload : Bytes) :
    Moves w c (c.establishedFin inOrder seq payload) := by
  unfold Ctx.establishedFin
  split
  · exact ((finIn_moves c (.inr rfl)).tail (.drain _)).trans (shutdownIfDrained_moves _)
  · exact emitAck_moves c

theorem trySegmentAndEmit_moves (c : Ctx) : Moves w c c.trySegmentAndEmit.refreshZwp :=
  (Moves.of_path (trySegmentAndEmit_path c)).trans (refreshZwp_moves _)

theorem takesData_of_ack {c c₁ : Ctx} (h : SendPath c.view c₁.view) (wnd : UInt16)
    (hs : c.s.state.takesData = true) : (c₁.setSndWnd wnd).s.state.takesData = true := by
  rw [show (c₁.setSndWnd wnd).s.state = c.s.state from h.frame.state]
  exact hs

theorem processEstablished_work (c : Ctx) (h : c.s.state = .established) (flags : UInt8)
    (seq ack : UInt32) (wnd : UInt16) (payload : Bytes) :
    Work (!payload.isEmpty) seq payload c (c.processEstablished flags seq ack wnd payload) := by
  have hack := (ackIfFlagged_path c flags ack).path
  have htake := Work.take (setSndWnd_prelude hack wnd) (takesData_of_ack hack wnd (by rw [h]; rfl))
    seq payload
  unfold Ctx.processEstablished
  simp only
  split
  · exact (htake.tail (establishedFin_moves _ _ _ _)).tail (trySegmentAndEmit_moves _)
  · exact htake.tail (trySegmentAndEmit_moves _)

theorem processCloseWait_moves (c : Ctx) (flags : UInt8) (ack : UInt32) (wnd : UInt16) :
    Moves w c (c.processCloseWait flags ack wnd) := by
  have hack := Moves.of_path (w := w)
    (setSndWnd_prelude (ackIfFlagged_path c flags ack).path wnd).path
  unfold Ctx.processCloseWait
  simp only
  split
  · exact (hack.trans (emitAck_moves _)).trans (trySegmentAndEmit_moves _)
  · exact hack.trans (trySegmentAndEmit_moves _)

theorem timeWait_handled {final : Bool → Prop} {took : Bool} (hf : final took) {seq : UInt32}
    {data : Bytes} {c c₁ c' : Ctx} (h : Work took seq data c c₁)
    (hv : c'.view = (c₁.nowMs.2.enterTimeWait c₁.nowMs.1).view) : Handled final seq data c c' :=
  ⟨took, c₁.nowMs.2, h.tail (Moves.of_view rfl), .timeWait hf _ hv⟩

theorem finAckedBy_of_ourFinAcked {c c₁ c₂ : Ctx} {seg : Bytes}
    (hack : AckPath c.view (c.s.unaAfter (TcpHeader.flags seg) (TcpHeader.ack seg)) c₁.view)
    (hsend : c₂.s.sndUna = c₁.s.sndUna ∧ c₂.s.sndNxt = c₁.s.sndNxt) (h : c₂.ourFinAcked = true) :
    c.s.finAckedBy seg = true := by
  unfold Ctx.ourFinAcked at h
  rw [hsend.1, hsend.2, show c₁.s.sndUna = _ from hack.una] at h
  unfold TcpSession.finAckedBy
  rw [Bool.or_eq_true]
  obtain hpending | hnxt := hack.nxt
  · right
    have : c.s.pending ≠ 0 := Nat.sub_ne_zero_of_lt hpending
    simpa using this
  · left
    rw [show c₁.s.sndNxt = c.s.sndNxt from hnxt] at h
    exact h

theorem finWait1Close_handled {final : Bool → Prop} {took : Bool} {c c₁ : Ctx} {inOrder : Bool}
    {seq : UInt32} {payload : Bytes} (flags : UInt8) (h : Work took seq payload c c₁)
    (hf : hasFlag flags TCP_FIN = true → inOrder = true → c₁.ourFinAcked = true → final took) :
    Handled final seq payload c (c₁.finWait1Close flags inOrder seq payload).refreshZwp := by
  have hfin := finIn_moves (w := false) c₁ (.inl rfl)
  unfold Ctx.finWait1Close
  simp only
  split
  · rename_i hflag
    split
    · rename_i horder
      generalize Ctx.emitAck { c₁ with s.rcvNxt := c₁.s.rcvNxt + 1, s.state := c₁.s.state } = c₂
        at hfin ⊢
      split
      · rename_i hacked
        simp only [Ctx.finInOrder, Bool.and_eq_true] at horder
        exact timeWait_handled (hf hflag horder.1 hacked) (h.tail hfin) (refreshZwp_view _)
      · have hclosing : Moves false c₂ { c₂ with s.state := .closing } :=
          Moves.of_path (.single (.settle c₂.view _ (.inr rfl)))
        exact .of_work (((h.tail hfin).tail hclosing).tail (refreshZwp_moves _))
    · exact .of_work (h.tail (refreshZwp_moves _))
  · split
    · have hsettle : Moves false c₁ { c₁ with s.state := .finWait2 } :=
        Moves.of_path (.single (.settle c₁.view _ (.inl rfl)))
      exact .of_work ((h.tail hsettle).tail (refreshZwp_moves _))
    · exact .of_work (h.tail (refreshZwp_moves _))

theorem processFinWait1_handled (c : Ctx) (h : c.s.state = .finWait1) (seg : Bytes)
    (wnd : UInt16) (payload : Bytes) :
    Handled (c.s.Completes seg payload) (TcpHeader.seq seg) payload c
      (c.processFinWait1 (TcpHeader.flags seg) (TcpHeader.seq seg) (TcpHeader.ack seg) wnd
        payload) := by
  have hack := ackIfFlagged_path c (TcpHeader.flags seg) (TcpHeader.ack seg)
  unfold Ctx.processFinWait1
  generalize c.ackIfFlagged (TcpHeader.flags seg) (TcpHeader.ack seg) = c₁ at hack ⊢
  have hwnd := setSndWnd_prelude (c := c) hack.path wnd
  have hsend := takePayload_send (c₁.setSndWnd wnd) (TcpHeader.seq seg) payload
  have htake := Work.take hwnd (takesData_of_ack hack.path wnd (by rw [h]; rfl)) (TcpHeader.seq seg)
    payload
  refine finWait1Close_handled _ htake fun hflag horder hacked => ?_
  have hrcv : (c₁.setSndWnd wnd).s.rcvNxt = c.s.rcvNxt := congrArg RecvVars.rcvNxt hwnd.recv
  have hfin := @finAckedBy_of_ourFinAcked c c₁ _ seg hack
    ⟨(congrArg SendVars.sndUna hsend).trans rfl, (congrArg SendVars.sndNxt hsend).trans rfl⟩ hacked
  rw [hrcv] at horder
  exact ⟨by simp only [TcpSession.completesClose, h, hflag, horder, hfin, Bool.and_self],
    by simp [TcpSession.takesLast, h]⟩

theorem finWait2Close_handled {final : Bool → Prop} {took : Bool} {c c₁ : Ctx} {inOrder : Bool}
    {seq : UInt32} {payload : Bytes} (flags : UInt8) (h : Work took seq payload c c₁)
    (hf : hasFlag flags TCP_FIN = true → inOrder = true → final took) :
    Handled final seq payload c (c₁.finWait2Close flags inOrder seq payload).refreshZwp := by
  have hfin := finIn_moves (w := false) c₁ (.inl rfl)
  unfold Ctx.finWait2Close
  simp only
  generalize Ctx.emitAck { c₁ with s.rcvNxt := c₁.s.rcvNxt + 1, s.state := c₁.s.state } = c₂ at hfin ⊢
  split
  · rename_i hflag
    simp only [Ctx.finInOrder, Bool.and_eq_true] at hflag
    exact timeWait_handled (hf hflag.1 hflag.2.1) (h.tail hfin) (refreshZwp_view _)
  · exact .of_work (h.tail (refreshZwp_moves _))

theorem processFinWait2_handled (c : Ctx) (h : c.s.state = .finWait2) (seg : Bytes)
    (wnd : UInt16) (payload : Bytes) :
    Handled (c.s.Completes seg payload) (TcpHeader.seq seg) payload c
      (c.processFinWait2 (TcpHeader.flags seg) (TcpHeader.seq seg) wnd payload) := by
  have hwnd := @setSndWnd_prelude c c .refl wnd
  have htake := Work.take hwnd (takesData_of_ack .refl wnd (by rw [h]; rfl)) (TcpHeader.seq seg)
    payload
  refine finWait2Close_handled _ htake fun hflag horder => ?_
  have hrcv : (c.setSndWnd wnd).s.rcvNxt = c.s.rcvNxt := rfl
  rw [hrcv] at horder
  exact ⟨by simp only [TcpSession.completesClose, h, hflag, horder, Bool.and_self],
    by simp [TcpSession.takesLast, h]⟩

theorem processClosing_handled (c : Ctx) (h : c.s.state = .closing) (seg payload : Bytes) :
    Handled (c.s.Completes seg payload) (TcpHeader.seq seg) payload c
      (c.processClosing (TcpHeader.flags seg) (TcpHeader.ack seg)) := by
  have hack := ackIfFlagged_path c (TcpHeader.flags seg) (TcpHeader.ack seg)
  unfold Ctx.processClosing
  generalize c.ackIfFlagged (TcpHeader.flags seg) (TcpHeader.ack seg) = c₁ at hack ⊢
  have hwork : Work false (TcpHeader.seq seg) payload c c₁ :=
    .of_moves (Moves.of_path hack.path.path)
  simp only
  split
  · rename_i hacked
    have hfin := finAckedBy_of_ourFinAcked hack ⟨rfl, rfl⟩ hacked
    have hdone : c.s.Completes seg payload false :=
      ⟨by simp only [TcpSession.completesClose, h, hfin], by simp [TcpSession.takesLast, h]⟩
    exact timeWait_handled hdone hwork rfl
  · exact .of_work hwork

theorem processLastAck_handled (c : Ctx) (h : c.s.state = .lastAck) (seg payload : Bytes) :
    Handled (c.s.Completes seg payload) (TcpHeader.seq seg) payload c
      (c.processLastAck (TcpHeader.flags seg) (TcpHeader.ack seg)) := by
  have hack := ackIfFlagged_path c (TcpHeader.flags seg) (TcpHeader.ack seg)
  unfold Ctx.processLastAck
  unfold Ctx.ackIfFlagged at hack
  split
  · rename_i hflag
    simp only [hflag, if_true] at hack ⊢
    generalize c.nowMs.2.onAck (TcpHeader.ack seg) c.nowMs.1 = c₁ at hack ⊢
    have hwork : Work false (TcpHeader.seq seg) payload c c₁ :=
      .of_moves (Moves.of_path hack.path.path)
    split
    · rename_i hacked
      have hfin := finAckedBy_of_ourFinAcked hack ⟨rfl, rfl⟩ hacked
      exact ⟨false, c₁, hwork,
        .close ⟨by simp only [TcpSession.completesClose, h, hflag, hfin, Bool.and_self],
          by simp [TcpSession.takesLast, h]⟩⟩
    · exact .of_work hwork
  · exact .of_work (.of_moves .refl)

theorem processTimeWait_moves (c : Ctx) (flags : UInt8) : Moves w c (c.processTimeWait flags) := by
  have hack := emitAck_moves (w := w) c
  unfold Ctx.processTimeWait
  generalize c.emitAck = c₁ at hack ⊢
  have hview : ∀ d, ({ c₁.nowMs.2 with s.timeWaitDeadlineMs := d } : Ctx).view = c₁.view :=
    fun _ => rfl
  split
  · exact hack.trans (Moves.of_view (hview _))
  · exact .refl

theorem dispatchState_handled (c : Ctx) (seg : Bytes) (wnd : UInt16) (payload : Bytes) :
    Handled (c.s.Completes seg payload) (TcpHeader.seq seg) payload c
      (c.dispatchState (TcpHeader.flags seg) (TcpHeader.seq seg) (TcpHeader.ack seg) wnd
        payload) := by
  unfold Ctx.dispatchState
  split
  · rename_i h
    exact processSynRcvd_handled c h _ _ _ wnd payload
  · rename_i h
    exact .of_work (processEstablished_work c h _ _ _ wnd payload)
  · exact .of_work (.of_moves (processCloseWait_moves c _ _ wnd))
  · rename_i h
    exact processFinWait1_handled c h seg wnd payload
  · rename_i h
    exact processFinWait2_handled c h seg wnd payload
  · rename_i h
    exact processClosing_handled c h seg payload
  · rename_i h
    exact processLastAck_handled c h seg payload
  · exact .of_work (.of_moves (processTimeWait_moves c _))
  · exact .of_work (.of_moves .refl)

theorem completesClose_congr {s s' : TcpSession} (h : s'.core = s.core) (seg : Bytes) :
    s'.completesClose seg = s.completesClose seg := by
  have hstate : s'.state = s.state := congrArg Core.state h
  have hsend : s'.toSendVars = s.toSendVars := congrArg Core.send h
  have hrecv : s'.toRecvVars = s.toRecvVars := congrArg Core.recv h
  have hfin : s'.finAckedBy seg = s.finAckedBy seg := by
    unfold TcpSession.finAckedBy TcpSession.unaAfter TcpSession.pending
    rw [hsend]
  unfold TcpSession.completesClose
  rw [hstate, hfin, hrecv]

theorem TcpSession.Completes.congr {s s' : TcpSession} {seg payload : Bytes} {took : Bool}
    (h : s'.Completes seg payload took) (hcore : s'.core = s.core) : s.Completes seg payload took := by
  have hstate : s'.state = s.state := congrArg Core.state hcore
  refine ⟨(completesClose_congr hcore seg).symm.trans h.1, h.2.trans ?_⟩
  unfold TcpSession.takesLast
  rw [hstate]

theorem Handled.of_view {final : Bool → Prop} {seq : UInt32} {data : Bytes} {c c₁ c' : Ctx}
    (h : Handled final seq data c₁ c') (hv : c₁.view = c.view) : Handled final seq data c c' := by
  obtain ⟨took, c₂, ⟨d₁, d₂, hpre, htaken, hmoves⟩, hend⟩ := h
  have hr : c₁.s.toRecvVars = c.s.toRecvVars := congrArg (fun v : View => v.recv) hv
  have hh : c₁.s.toHostVars = c.s.toHostVars := congrArg (fun v : View => v.host) hv
  have hs : c₁.s.state = c.s.state := congrArg (fun v : View => v.state) hv
  have hpre' : Prelude c d₁ :=
    ⟨hv ▸ hpre.path, hpre.recv.trans hr,
      hpre.kept.imp hs.symm.trans fun h => ⟨h.1.trans hh, h.2.trans hs⟩⟩
  exact ⟨took, c₂, ⟨d₁, d₂, hpre', htaken, hmoves⟩, hend⟩

theorem Ending.mono {P Q : Prop} {c c' : Ctx} (h : Ending P c c') (hpq : P → Q) :
    Ending Q c c' := by
  cases h with
  | stay => exact .stay
  | abort => exact .abort
  | abortClosed => exact .abortClosed
  | close h => exact .close (hpq h)
  | timeWait h now hv => exact .timeWait (hpq h) now hv

theorem onSegment_outcome (c : Ctx) (h : c.s.state ≠ .closed) (seg : Bytes) :
    Outcome c (.segment seg) (c.onSegment seg).2 := by
  have hstay : Outcome c (.segment seg) c := .segment (.of_moves .refl) .stay
  unfold Ctx.onSegment
  split
  · exact hstay
  · simp only
    split
    · exact hstay
    · have hview := preprocess_view c ((seg.take (TcpHeader.dataOff seg)).drop 20) (TcpHeader.seq seg)
      generalize c.preprocess ((seg.take (TcpHeader.dataOff seg)).drop 20) (TcpHeader.seq seg) = c₁
        at hview ⊢
      have hcore : c₁.s.core = c.s.core := congrArg View.toCore hview
      have hpre : Moves false c c₁ := Moves.of_view hview
      have hstate : c₁.s.state ≠ .closed := by
        rw [show c₁.s.state = c.s.state from congrArg Core.state hcore]
        exact h
      split
      · rename_i hrst
        split
        · exact .segment (.of_moves hpre) (.close (.inl hrst))
        · exact .segment (.of_moves hpre) .stay
      · rw [if_neg (by simpa using hstate)]
        obtain ⟨took, c₂, hwork, hend⟩ := (dispatchState_handled c₁ seg (TcpHeader.window seg)
          (seg.drop (TcpHeader.dataOff seg))).of_view hview
        exact .segment hwork (hend.mono fun h => .inr (h.congr hcore))

/-! ## Host events -/

theorem connectFailed_view (c : Ctx) : c.connectFailed.2.view = c.view := by
  unfold Ctx.connectFailed
  split <;> rfl

theorem socketError_view (c : Ctx) (ev : HostEvent) : (c.socketError ev).2.view = c.view := by
  unfold Ctx.socketError
  split <;> rfl

theorem writableDrained_moves (c : Ctx) : Moves true c c.writableDrained := by
  have hdrain : Moves true c c.setWritable.tryDrainToHost := .single (.wake rfl c)
  show Moves true c (if _ then c.setWritable.tryDrainToHost.shutdownWr else c.setWritable.tryDrainToHost)
  generalize c.setWritable.tryDrainToHost = c₁ at hdrain ⊢
  simp only
  split
  · exact hdrain.trans (shutdownWr_moves c₁)
  · exact hdrain

/-- Moves that may end in an abort: what the readiness handlers do. -/
def MovesOrAbort (c c' : Ctx) : Prop := Moves true c c' ∨ ∃ c₁, Moves true c c₁ ∧ c' = c₁.abort

theorem onHostWritable_moves (c : Ctx) : MovesOrAbort c c.onHostWritable := by
  have hview := connectFailed_view c
  unfold Ctx.onHostWritable
  generalize c.connectFailed = r at hview ⊢
  obtain ⟨failed, c₁⟩ := r
  have hc₁ : Moves true c c₁ := Moves.of_view hview
  simp only
  split
  · exact .inr ⟨c₁, hc₁, rfl⟩
  · exact .inl (hc₁.trans (writableDrained_moves c₁))

theorem onHostReadable_moves (c : Ctx) : MovesOrAbort c c.onHostReadable := by
  unfold Ctx.onHostReadable
  split
  · exact .inl .refl
  · rename_i hhost
    split
    · exact .inl .refl
    · obtain ⟨c₁, hpath, hres | hres⟩ := readLoop_path c.io.oracle.reads c (by simpa using hhost)
      · rw [hres]
        exact .inl ((Moves.of_path hpath).trans (trySegmentAndEmit_moves c₁))
      · rw [hres]
        exact .inr ⟨c₁, Moves.of_path hpath, rfl⟩

theorem abort_onHostReadable (c : Ctx) : c.abort.onHostReadable = c.abort := by
  unfold Ctx.onHostReadable
  rw [abort_host]
  rfl

theorem abort_hostClosedEvent (c : Ctx) : c.abort.hostClosedEvent = c.abort.noteClosed := by
  have hstate : c.abort.noteClosed.s.state = .closed := abort_state c
  unfold Ctx.hostClosedEvent Ctx.canFin
  simp [hstate]

theorem onHostEvent_outcome (c : Ctx) (ev : HostEvent) :
    Outcome c (.host ev) (c.onHostEvent ev) := by
  have hview := socketError_view c ev
  unfold Ctx.onHostEvent
  generalize c.socketError ev = r at hview ⊢
  obtain ⟨failed, c₁⟩ := r
  have hc₁ : Moves true c c₁ := Moves.of_view hview
  simp only
  split
  · exact .host hc₁ .abort
  · have hw : MovesOrAbort c (if ev.isWritable then c₁.onHostWritable else c₁) := by
      split
      · obtain h | ⟨c₂, h, heq⟩ := onHostWritable_moves c₁
        · exact .inl (hc₁.trans h)
        · exact .inr ⟨c₂, hc₁.trans h, heq⟩
      · exact .inl hc₁
    generalize (if ev.isWritable then c₁.onHostWritable else c₁) = c₂ at hw ⊢
    have hr : MovesOrAbort c (if ev.isReadable then c₂.onHostReadable else c₂) := by
      split
      · obtain hm | ⟨c₃, hm, rfl⟩ := hw
        · obtain h | ⟨c₃, h, heq⟩ := onHostReadable_moves c₂
          · exact .inl (hm.trans h)
          · exact .inr ⟨c₃, hm.trans h, heq⟩
        · exact .inr ⟨c₃, hm, abort_onHostReadable c₃⟩
      · exact hw
    generalize (if ev.isReadable then c₂.onHostReadable else c₂) = c₃ at hr ⊢
    obtain hm | ⟨c₄, hm, rfl⟩ := hr
    · split
      · exact .host (hm.trans (Moves.of_path (hostClosedEvent_path c₃))) .stay
      · exact .host hm .stay
    · split
      · rw [abort_hostClosedEvent]
        exact .host hm .abortClosed
      · exact .host hm .abort

/-! ## Ticks and window updates -/

theorem rtoReduce_view (c : Ctx) (now : UInt32) : (c.rtoReduce now).view = c.view := rfl

theorem rtoFire_path (c : Ctx) (now : UInt32) : ResendPath c.view (c.rtoFire now).view ∨
    ∃ c₁ : Ctx, ResendPath c.view c₁.view ∧ c.rtoFire now = c₁.abort := by
  unfold Ctx.rtoFire
  split
  · exact .inl .refl
  · have hpath := retransmit_path (c.rtoReduce now) .rtoRetx rfl 0 now
    rw [rtoReduce_view] at hpath
    generalize ((c.rtoReduce now).retransmit .rtoRetx 0 now).2 = c₁ at hpath ⊢
    unfold Ctx.rtoRetry
    simp only
    split
    · exact .inr ⟨{ c₁ with s.rtoRetries := c₁.s.rtoRetries + 1 }, hpath, rfl⟩
    · exact .inl (hpath.tail (.arm c₁.view _))

theorem tickTimers_path (c : Ctx) (now : UInt32) : ResendPath c.view (c.tickTimers now).view := by
  have hrack : ResendPath c.view
      (if c.s.rackDeadlineMs != 0 && timeAfter now c.s.rackDeadlineMs then
        c.rackDetectLossAndArmTimer now
      else c).view := by
    split
    · exact rackDetectLossAndArmTimer_path c now
    · exact .refl
  unfold Ctx.tickTimers
  generalize (if c.s.rackDeadlineMs != 0 && timeAfter now c.s.rackDeadlineMs then
    c.rackDetectLossAndArmTimer now else c) = c₁ at hrack ⊢
  have htlp : ResendPath c.view
      (if c₁.s.tlpDeadlineMs != 0 && timeAfter now c₁.s.tlpDeadlineMs then c₁.fireTlp now
      else c₁).view := by
    split
    · exact hrack.trans (fireTlp_path c₁ now)
    · exact hrack
  simp only
  generalize (if c₁.s.tlpDeadlineMs != 0 && timeAfter now c₁.s.tlpDeadlineMs then c₁.fireTlp now
    else c₁) = c₂ at htlp ⊢
  split
  · exact htlp.trans (fireZwp_path c₂ now)
  · exact htlp

theorem tick_outcome (c : Ctx) (now : UInt32) : Outcome c (.tick now) (c.tick now).2 := by
  have hrto : ResendPath c.view
      (if c.s.rtoDeadlineMs != 0 && timeAfter now c.s.rtoDeadlineMs then c.rtoFire now else c).view ∨
      ∃ c₁ : Ctx, ResendPath c.view c₁.view ∧
        (if c.s.rtoDeadlineMs != 0 && timeAfter now c.s.rtoDeadlineMs then c.rtoFire now else c) =
          c₁.abort := by
    split
    · exact rtoFire_path c now
    · exact .inl .refl
  unfold Ctx.tick
  generalize (if c.s.rtoDeadlineMs != 0 && timeAfter now c.s.rtoDeadlineMs then c.rtoFire now
    else c) = c₁ at hrto ⊢
  simp only [beq_iff_eq]
  split
  · exact .tick .refl .stay
  · obtain hpath | ⟨c₂, hpath, rfl⟩ := hrto
    · split
      · exact .tick hpath.send.path .stay
      · have htimers : ResendPath c.view (c₁.tickTimers now).view :=
          hpath.trans (tickTimers_path c₁ now)
        generalize c₁.tickTimers now = c₂ at htimers ⊢
        split
        · rename_i htw
          simp only [Bool.and_eq_true, beq_iff_eq] at htw
          have hstate : c₂.s.state = c.s.state := congrArg Core.state htimers.core
          exact .tick htimers.send.path (.close (hstate.symm.trans htw.1))
        · exact .tick htimers.send.path .stay
    · rw [if_pos (abort_state c₂)]
      exact .tick hpath.send.path .abort

theorem fanOutWindowUpdate_path (c : Ctx) : Path c.view c.fanOutWindowUpdate.view := by
  have hack := (emitAck_path c (.inl rfl)).send.path
  unfold Ctx.fanOutWindowUpdate
  split
  · exact hack
  · exact hack
  · exact hack
  · exact hack
  · exact .refl

/-- Every event of a session that is not closed is an outcome. -/
theorem handle_outcome (c : Ctx) (h : c.s.state ≠ .closed) (ev : Event) :
    Outcome c ev (c.handle ev) := by
  cases ev with
  | segment seg => exact onSegment_outcome c h seg
  | host ev => exact onHostEvent_outcome c ev
  | tick now => exact tick_outcome c now
  | windowUpdate => exact .windowUpdate (fanOutWindowUpdate_path c)

end BaleVpn.Tcp
