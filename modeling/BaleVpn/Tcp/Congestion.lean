import BaleVpn.Tcp.RetxQueue
import BaleVpn.Tcp.Steady

/-!
# The congestion window

Outside fast recovery the congestion window is open, whatever the loss response made of it: recovery
leaves with `ssthresh`, a timeout with one MSS. Inside recovery the window may shut, but then the
segment that ends at the recovery point is still in the retransmit queue. So a sender with nothing
in flight always has a window to send in.
-/

namespace BaleVpn.Tcp

open Net

/-! ## The congestion state -/

/-- The part of the pacing state that decides how much may be in flight. -/
structure Congestion where
  cwnd : UInt32
  ssthresh : UInt32
  inRecovery : Bool
  recoveryPoint : UInt32
  cwndPreRto : UInt32

def Pacing.congestion (p : Pacing) : Congestion :=
  ⟨p.cwnd, p.ssthresh, p.inRecovery, p.recoveryPoint, p.cwndPreRto⟩

/-- The cap that `grow_cwnd` puts on the window. -/
def cwndCap : ℕ := 4 * 1024 * 1024

/-- The window is open outside recovery, and inside it the queue holds the recovery point. An Eifel
undo brings back the window of the last timeout, which one more MSS must not wrap. -/
structure Paced (g : Congestion) (queue : List OutSeg) : Prop where
  room : g.inRecovery = false → 0 < g.cwnd.toNat ∧ g.cwnd.toNat ≤ cwndCap
  point : g.inRecovery = true → ∃ e ∈ queue, e.seq + e.span = g.recoveryPoint
  ssthresh : 0 < g.ssthresh.toNat
  undo : g.cwndPreRto.toNat + ownMss.toNat < 2 ^ 32

theorem Paced.mono {g : Congestion} {q q' : List OutSeg} (h : Paced g q) (hq : q ⊆ q') :
    Paced g q' where
  room := h.room
  point hrec := by
    obtain ⟨e, he, hend⟩ := h.point hrec
    exact ⟨e, hq he, hend⟩
  ssthresh := h.ssthresh
  undo := h.undo

theorem Paced.idle {g : Congestion} (h : Paced g []) : 0 < g.cwnd.toNat := by
  refine (h.room ?_).1
  cases hrec : g.inRecovery with
  | false => rfl
  | true =>
    obtain ⟨e, he, -⟩ := h.point hrec
    cases he

theorem steady_congestion {p p' : Pacing} (h : p'.steady = p.steady) :
    p'.congestion = p.congestion := by
  have hp : p.steady.congestion = p.congestion := rfl
  have hp' : p'.steady.congestion = p'.congestion := rfl
  rw [← hp, ← hp', h]

/-! ## What leaves it alone -/

theorem emitSegment_congestion (c : Ctx) (cause : Cause) (flags : UInt8) (seq : UInt32)
    (payload : Bytes) (record : Bool) (options : Bytes) :
    (c.emitSegment cause flags seq payload record options).2.s.toPacing.congestion =
      c.s.toPacing.congestion :=
  steady_congestion (emitSegment_frame c cause flags seq payload record options).steady

theorem emitAck_congestion (c : Ctx) (cause : Cause) :
    (c.emitAck cause).s.toPacing.congestion = c.s.toPacing.congestion := by
  unfold Ctx.emitAck
  exact emitSegment_congestion c cause TCP_ACK c.s.sndNxt [] false c.s.buildSackOption

theorem retransmit_congestion (c : Ctx) (cause : Cause) (idx : ℕ) (now : UInt32) :
    (c.retransmit cause idx now).2.s.toPacing.congestion = c.s.toPacing.congestion := by
  unfold Ctx.retransmit
  split
  · rfl
  · exact emitSegment_congestion _ cause _ _ _ false _

theorem sendChunk_congestion (c : Ctx) (cause : Cause) (chunk : ℕ) :
    (c.sendChunk cause chunk).2.s.toPacing.congestion = c.s.toPacing.congestion := by
  have h := emitSegment_congestion c cause (TCP_ACK ||| TCP_PSH) c.s.sndNxt
    (c.s.toSendVars.next chunk) true []
  unfold Ctx.sendChunk
  rcases hr : c.emitSegment cause (TCP_ACK ||| TCP_PSH) c.s.sndNxt (c.s.toSendVars.next chunk)
    true [] with ⟨ok, c'⟩
  simp only [hr] at h ⊢
  rw [← h]
  cases ok <;> rfl

theorem lostRetx_congestion (c : Ctx) (now : UInt32) :
    (c.lostRetx now).s.toPacing.congestion = c.s.toPacing.congestion := by
  unfold Ctx.lostRetx
  simp only
  split
  · split
    · exact retransmit_congestion { c with s.lastHeadRetxMs := now } .lostRetx 0 now
    · rfl
  · rfl

theorem partialRetx_congestion (c : Ctx) (now : UInt32) :
    (c.partialRetx now).s.toPacing.congestion = c.s.toPacing.congestion := by
  unfold Ctx.partialRetx
  split
  · exact retransmit_congestion { c with s.lastHeadRetxMs := now } .partialRetx 0 now
  · rfl

theorem rearmRto_congestion (c : Ctx) (now : UInt32) :
    (c.rearmRto now).s.toPacing.congestion = c.s.toPacing.congestion := by
  unfold Ctx.rearmRto
  split <;> rfl

theorem fireTlp_congestion (c : Ctx) (now : UInt32) :
    (c.fireTlp now).s.toPacing.congestion = c.s.toPacing.congestion := by
  unfold Ctx.fireTlp
  simp only
  split
  · rfl
  · split
    · rfl
    · exact retransmit_congestion { c with s.tlpDeadlineMs := 0 } .tlpProbe _ now

theorem fireZwp_congestion (c : Ctx) (now : UInt32) :
    (c.fireZwp now).s.toPacing.congestion = c.s.toPacing.congestion := by
  have h := emitAck_congestion c .zwpProbe
  unfold Ctx.fireZwp
  generalize c.emitAck .zwpProbe = c' at h ⊢
  exact h

theorem updateRtt_congestion (p : Pacing) (sample : UInt32) :
    (p.updateRtt sample).congestion = p.congestion := by
  unfold Pacing.updateRtt
  simp only
  split <;> rfl

theorem rackUpdateFromDelivered_congestion (p : Pacing) (sentMs endSeq now : UInt32) :
    (p.rackUpdateFromDelivered sentMs endSeq now).congestion = p.congestion := by
  unfold Pacing.rackUpdateFromDelivered
  split
  · rfl
  · simp only
    split <;> rfl

theorem sampleTsRtt_congestion (c : Ctx) :
    c.sampleTsRtt.2.s.toPacing.congestion = c.s.toPacing.congestion := by
  unfold Ctx.sampleTsRtt
  split
  · simp only
    split
    · exact updateRtt_congestion _ _
    · rfl
  · rfl

theorem ackedPacing_congestion (p : Pacing) (head : OutSeg) (now : UInt32) (sampled : Bool) :
    (Ctx.ackedPacing p head now sampled).congestion = p.congestion := by
  have hcut : ∀ (q : Pacing) (n : UInt32), { q with sackedBytes := n }.congestion = q.congestion :=
    fun _ _ => rfl
  unfold Ctx.ackedPacing
  cases head.sacked <;> cases (!head.retransmitted && !sampled) <;>
    simp [hcut, updateRtt_congestion, rackUpdateFromDelivered_congestion]

theorem popAcked_congestion (ackNo now : UInt32) (l : List OutSeg) : ∀ (sampled : Bool) (c : Ctx),
    (Ctx.popAcked ackNo now l sampled c).s.toPacing.congestion = c.s.toPacing.congestion := by
  induction l with
  | nil => exact fun _ _ => rfl
  | cons head rest ih =>
    intro sampled c
    unfold Ctx.popAcked
    split
    · exact (ih _ _).trans (ackedPacing_congestion c.s.toPacing head now sampled)
    · rfl

theorem rackUpdates_congestion (now : UInt32) (hits : List OutSeg) : ∀ p : Pacing,
    (hits.foldl (fun (p : Pacing) (e : OutSeg) =>
      p.rackUpdateFromDelivered e.sentMs (e.seq + e.data.length.toUInt32) now) p).congestion =
        p.congestion := by
  induction hits with
  | nil => exact fun _ => rfl
  | cons e hits ih => exact fun p => (ih _).trans (rackUpdateFromDelivered_congestion p _ _ now)

theorem onSackBlock_congestion (c : Ctx) (left right : UInt32) :
    (c.onSackBlock left right).s.toPacing.congestion = c.s.toPacing.congestion := by
  unfold Ctx.onSackBlock
  exact rackUpdates_congestion _ _ _

theorem sackBlocks_congestion (n : ℕ) : ∀ (bytes : Bytes) (first : Bool) (c : Ctx),
    bytes.length ≤ n →
      (Ctx.sackBlocks bytes first c).s.toPacing.congestion = c.s.toPacing.congestion := by
  induction n with
  | zero =>
    intro bytes first c hlen
    obtain rfl : bytes = [] := by simpa using hlen
    rfl
  | succ n ih =>
    intro bytes first c hlen
    unfold Ctx.sackBlocks
    split
    · rename_i rest _ _
      simp only
      rw [ih _ _ _ (by simp at hlen; omega)]
      split
      · rw [onSackBlock_congestion]
        split <;> rfl
      · rfl
    · rfl

theorem parseSackBlocks_congestion (c : Ctx) (opts : Bytes) :
    (c.parseSackBlocks opts).s.toPacing.congestion = c.s.toPacing.congestion := by
  unfold Ctx.parseSackBlocks
  split
  · rfl
  · refine walkOptions_inv (P := fun c' : Ctx => c'.s.toPacing.congestion = c.s.toPacing.congestion)
      ?_ _ _ _ rfl
    intro kind opt c' hc'
    unfold Ctx.applySack
    split
    · exact (sackBlocks_congestion _ _ _ _ (Nat.le_refl _)).trans hc'
    · exact hc'

theorem noteTimestamps_congestion (c : Ctx) (opts : Bytes) (seq : UInt32) :
    (c.noteTimestamps opts seq).s.toPacing.congestion = c.s.toPacing.congestion := by
  unfold Ctx.noteTimestamps
  simp only
  split
  · split
    · split <;> rfl
    · rfl
  · rfl

theorem preprocess_congestion (c : Ctx) (opts : Bytes) (seq : UInt32) :
    (c.preprocess opts seq).s.toPacing.congestion = c.s.toPacing.congestion := by
  unfold Ctx.preprocess
  simp only
  rw [noteTimestamps_congestion]
  split
  · exact parseSackBlocks_congestion _ opts
  · rfl

/-! ## The sender -/

/-- The SYN-ACK was refused: nothing is queued for the one sequence number in flight. -/
structure Unanswered (v : Core) : Prop where
  state : v.state = .synRcvd
  queue : v.queue = []
  nxt : v.send.sndNxt = v.send.sndUna + 1
  drained : v.send.toClient.length ≤ v.send.toClientOff

/-- The queue covers what is in flight, and the congestion window is sound. -/
structure Sound (s : TcpSession) : Prop where
  covered : Covered s.core ∨ Unanswered s.core
  paced : Paced s.toPacing.congestion s.core.queue
  mssPos : 0 < s.peerMss.toNat
  mssLe : s.peerMss.toNat ≤ ownMss.toNat

theorem Sound.congr {s s' : TcpSession} (h : Sound s) (hcore : s'.core = s.core)
    (hg : s'.toPacing.congestion = s.toPacing.congestion) : Sound s' := by
  have hpeer : s'.toPeerOpts = s.toPeerOpts := congrArg Core.peer hcore
  refine ⟨?_, ?_, ?_, ?_⟩
  · rw [hcore]
    exact h.covered
  · rw [hcore, hg]
    exact h.paced
  · rw [hpeer]
    exact h.mssPos
  · rw [hpeer]
    exact h.mssLe

theorem Sound.resend {c c' : Ctx} (h : Sound c.s) (hpath : ResendPath c.view c'.view)
    (hg : c'.s.toPacing.congestion = c.s.toPacing.congestion) : Sound c'.s :=
  h.congr hpath.core hg

theorem Sound.covered_of_queue {s : TcpSession} (h : Sound s) (hq : s.core.queue ≠ []) :
    Covered s.core :=
  h.covered.resolve_right fun hun => hq hun.queue

/-! ## Recovery -/

theorem reducedSsthresh_pos (s : TcpSession) (hpos : 0 < s.peerMss.toNat)
    (hle : s.peerMss.toNat ≤ ownMss.toNat) : 0 < s.reducedSsthresh.toNat := by
  have hmss : (2 * s.peerMss.toUInt32).toNat = 2 * s.peerMss.toNat := by
    rw [UInt32.toNat_mul, UInt16.toNat_toUInt32]
    have : ownMss.toNat = 960 := rfl
    exact Nat.mod_eq_of_lt (by show 2 * s.peerMss.toNat < 2 ^ 32; omega)
  unfold TcpSession.reducedSsthresh
  rw [uint32_toNat_max]
  omega

theorem Sound.enterFastRecovery {s : TcpSession} (h : Sound s) (hq : s.core.queue ≠ []) :
    Sound s.enterFastRecovery := by
  refine ⟨h.covered, ⟨fun hrec => (by cases hrec), fun _ => ?_, ?_, h.paced.undo⟩, h.mssPos, h.mssLe⟩
  · obtain ⟨a, hchain⟩ := (h.covered_of_queue hq).chain
    obtain ⟨e, he⟩ : ∃ e, s.core.queue.getLast? = some e := by
      cases hlast : s.core.queue.getLast? with
      | none => exact absurd (List.getLast?_eq_none_iff.mp hlast) hq
      | some e => exact ⟨e, rfl⟩
    exact ⟨e, List.mem_of_getLast? he, hchain.end_getLast he⟩
  · exact reducedSsthresh_pos s h.mssPos h.mssLe

theorem Sound.ensureRecovery {c : Ctx} (h : Sound c.s) (hq : c.s.core.queue ≠ []) :
    Sound c.ensureRecovery.s := by
  unfold Ctx.ensureRecovery
  split
  · exact h.enterFastRecovery hq
  · exact h

theorem Sound.retransmit {c : Ctx} (h : Sound c.s) (cause : Cause) (hc : cause.isRetx = true)
    (idx : ℕ) (now : UInt32) : Sound (c.retransmit cause idx now).2.s :=
  h.resend (retransmit_path c cause hc idx now) (retransmit_congestion c cause idx now)

theorem Sound.rackEmit {now : UInt32} {idxs : List ℕ} : ∀ {emitted : Bool} {c : Ctx}, Sound c.s →
    c.s.core.queue ≠ [] → Sound (Ctx.rackEmit now idxs emitted c).2.s := by
  induction idxs with
  | nil => exact fun h _ => h
  | cons idx rest ih =>
    intro emitted c h hq
    have hsound := (h.ensureRecovery hq).retransmit .rackRetx rfl idx now
    have hpath := retransmit_path c.ensureRecovery .rackRetx rfl idx now
    rw [ensureRecovery_view] at hpath
    have hqueue : (c.ensureRecovery.retransmit .rackRetx idx now).2.s.core.queue ≠ [] := by
      rw [show (c.ensureRecovery.retransmit .rackRetx idx now).2.s.core = c.s.core from hpath.core]
      exact hq
    unfold Ctx.rackEmit
    simp only
    split
    · exact hsound
    · exact ih hsound hqueue

theorem Sound.rackFinish {now d : UInt32} {r : Bool × Ctx} (h : Sound r.2.s) :
    Sound (Ctx.rackFinish now d r).s := by
  refine h.resend (rackFinish_path now d r) ?_
  unfold Ctx.rackFinish
  simp only
  split <;> rfl

theorem Sound.rackDetectLossAndArmTimer {c : Ctx} (h : Sound c.s) (now : UInt32) :
    Sound (c.rackDetectLossAndArmTimer now).s := by
  unfold Ctx.rackDetectLossAndArmTimer
  split
  · exact h.congr rfl rfl
  · rename_i hne
    have hq : c.s.core.queue ≠ [] := by
      simp only [Bool.or_eq_true, not_or, List.isEmpty_iff] at hne
      simpa [TcpSession.core] using hne.2
    have hsound : Sound ({ c with s.rackReoWnd := c.s.toPacing.rackComputeReoWnd } : Ctx).s :=
      h.congr rfl rfl
    exact (hsound.rackEmit hq).rackFinish

theorem Sound.updatePrrAfterAck {s : TcpSession} (h : Sound s) (prev acked : UInt32) :
    Sound (s.updatePrrAfterAck prev acked) := by
  unfold TcpSession.updatePrrAfterAck
  split
  · exact h
  · rename_i hrec
    refine ⟨h.covered, ⟨fun hout => ?_, h.paced.point, h.paced.ssthresh, h.paced.undo⟩, h.mssPos,
      h.mssLe⟩
    exact absurd (show s.inRecovery = false from hout) (by simpa using hrec)

/-! ## Duplicate ACKs -/

theorem sendChunk_queue (c : Ctx) (cause : Cause) (chunk : ℕ) :
    c.s.core.queue ⊆ (c.sendChunk cause chunk).2.s.core.queue := by
  have h := emitSegment_frame c cause (TCP_ACK ||| TCP_PSH) c.s.sndNxt
    (c.s.toSendVars.next chunk) true []
  unfold Ctx.sendChunk
  rcases hr : c.emitSegment cause (TCP_ACK ||| TCP_PSH) c.s.sndNxt (c.s.toSendVars.next chunk)
    true [] with ⟨ok, c'⟩
  simp only [hr] at h ⊢
  have hsub : c.s.retx ⊆ c'.s.retx := by
    cases ok with
    | false =>
      have hretx : c'.s.retx = c.s.retx := h.retx rfl
      simp [hretx]
    | true =>
      obtain ⟨now, hretx⟩ := h.recorded rfl
      have hretx : c'.s.retx = c.s.retx ++ _ := hretx
      simp [hretx]
  have hqueue : c.s.core.queue ⊆ c'.s.core.queue := List.map_subset OutSeg.core hsub
  cases ok <;> exact hqueue

theorem Sound.sendChunk {c : Ctx} (h : Sound c.s) {cause : Cause} {chunk : ℕ}
    (hk : ChunkOf cause c.s chunk) : Sound (c.sendChunk cause chunk).2.s := by
  have hsent := sendChunk_sent c hk
  have hg := sendChunk_congestion c cause chunk
  have hpos : 0 < c.s.pending := by
    have := hk.bounds
    have := hk.1
    omega
  generalize hc' : (c.sendChunk cause chunk).2 = c' at hsent hg ⊢
  generalize hv : c'.view = v at hsent
  generalize (c.sendChunk cause chunk).1 = ok at hsent
  cases hsent with
  | unbuilt _ _ => exact h.congr (congrArg View.toCore hv) hg
  | refused _ _ => exact h.congr (congrArg View.toCore hv) hg
  | sent hq hu hstep =>
    have hcov : Covered c.s.core := by
      refine h.covered.resolve_right fun hun => ?_
      unfold TcpSession.pending at hpos
      have : c.s.toClient.length ≤ c.s.toClientOff := hun.drained
      omega
    have hcore : c'.s.core = v.toCore := congrArg View.toCore hv
    have hpeer : c'.s.toPeerOpts = c.s.toPeerOpts := by
      rw [show c'.s.toPeerOpts = v.peer from congrArg Core.peer hcore]
      exact hstep.frame.peer
    refine ⟨.inl ?_, ?_, ?_, ?_⟩
    · rw [hcore]
      exact hstep.covered hcov
    · rw [hg, hcore]
      refine h.paced.mono ?_
      rw [← hcore, ← hc']
      exact sendChunk_queue c cause chunk
    · rw [hpeer]
      exact h.mssPos
    · rw [hpeer]
      exact h.mssLe

theorem Sound.limitedTransmit {c : Ctx} (h : Sound c.s) : Sound c.limitedTransmit.s := by
  unfold Ctx.limitedTransmit
  simp only
  split
  · split
    · split
      · rename_i hwnd hchunk
        exact h.sendChunk ⟨hchunk, hwnd, rfl⟩
      · exact h
    · exact h
  · exact h

theorem Sound.fastRetransmit {c : Ctx} (h : Sound c.s) (now : UInt32) :
    Sound (c.fastRetransmit now).s := by
  unfold Ctx.fastRetransmit
  simp only
  split
  · rename_i hdup
    have hq : c.s.core.queue ≠ [] := by
      simp only [Bool.and_eq_true, Bool.not_eq_true', List.isEmpty_eq_false_iff] at hdup
      simpa [TcpSession.core] using hdup.2
    have hsound : Sound ({ c with s := c.s.enterFastRecovery } : Ctx).s := h.enterFastRecovery hq
    have hretx := hsound.retransmit .fastRetx rfl 0 now
    generalize (Ctx.retransmit { c with s := c.s.enterFastRecovery } .fastRetx 0 now).2 = c₁
      at hretx ⊢
    exact hretx.congr rfl rfl
  · exact h

theorem Sound.onDupAck {c : Ctx} (h : Sound c.s) (ackNo now : UInt32) :
    Sound (c.onDupAck ackNo now).s := by
  unfold Ctx.onDupAck
  simp only
  split
  · split
    · have hlost := h.resend (lostRetx_path c now) (lostRetx_congestion c now)
      generalize c.lostRetx now = c₁ at hlost ⊢
      have hprr : Sound ({ c₁ with
          s := c₁.s.updatePrrAfterAck c₁.s.sackedAtSegmentStart 0 } : Ctx).s :=
        hlost.updatePrrAfterAck _ _
      exact hprr.rackDetectLossAndArmTimer now
    · generalize (if c.s.dupAckCount == 255 then 255 else c.s.dupAckCount + 1) = k
      have hcount : Sound ({ c with s.dupAckCount := k } : Ctx).s := h.congr rfl rfl
      exact (hcount.limitedTransmit.fastRetransmit now).rackDetectLossAndArmTimer now
  · exact h.rackDetectLossAndArmTimer now

/-! ## New ACKs -/

/-- The entries an ACK pops end in order before it: none of them lies half a circle away. -/
theorem popped_before_ack {una ack : UInt32} (hnew : seqLe ack una = false) {popped : List OutSeg} :
    ∀ {a b : UInt32}, Chain a popped b → (∀ e ∈ popped, e.span.toNat < 2 ^ 30) →
      (∀ e ∈ popped, seqLe (e.seq + e.span) ack = true) →
      (∀ e ∈ popped.head?, (e.seq + e.span - una).toNat < 2 ^ 30) ∨
        (a - una).toNat ≤ (ack - una).toNat →
      ∀ e ∈ popped, (e.seq + e.span - una).toNat ≤ (ack - una).toNat := by
  have hack : (ack - una).toNat < 2 ^ 31 := by
    by_contra hge
    rw [(seqLe_iff ack una).mpr (.inr (by omega))] at hnew
    cases hnew
  induction popped with
  | nil => exact fun _ _ _ _ e he => by cases he
  | cons f l ih =>
    intro a b hchain hsmall hle hstart
    obtain ⟨hseq, hrest⟩ := hchain
    have hf : (f.seq + f.span - una).toNat ≤ (ack - una).toNat := by
      have hspan := hsmall f (by simp)
      have hend := (seqLe_iff _ _).mp (hle f (by simp))
      have hnear : (f.seq + f.span - una).toNat < 2 ^ 30 + (ack - una).toNat := by
        obtain hstart | hstart := hstart
        · have := hstart f (by simp)
          omega
        · rw [hseq]
          simp only [UInt32.toNat_sub, UInt32.toNat_add] at hstart hack ⊢
          have := a.toNat_lt
          have := una.toNat_lt
          have := ack.toNat_lt
          omega
      obtain hend | hend := hend
      · rw [hend]
      · simp only [UInt32.toNat_sub] at hend hack hnear ⊢
        have := una.toNat_lt
        have := ack.toNat_lt
        have := (f.seq + f.span).toNat_lt
        omega
    intro e he
    obtain rfl | he := List.mem_cons.mp he
    · exact hf
    · refine ih hrest (fun x hx => hsmall x (by simp [hx])) (fun x hx => hle x (by simp [hx])) ?_ e he
      rw [← hseq]
      exact .inr hf

/-- An undone timeout brings back a window that one more MSS does not wrap. -/
theorem eifelUndo_paced {s : TcpSession} (h : Paced s.toPacing.congestion s.core.queue) :
    (Ctx.eifelUndo s).inRecovery = s.inRecovery ∧
      (Ctx.eifelUndo s).recoveryPoint = s.recoveryPoint ∧
      (Ctx.eifelUndo s).cwndPreRto = s.cwndPreRto ∧ 0 < (Ctx.eifelUndo s).ssthresh.toNat ∧
      (s.inRecovery = false → 0 < (Ctx.eifelUndo s).cwnd.toNat ∧
        (Ctx.eifelUndo s).cwnd.toNat + ownMss.toNat < 2 ^ 32) := by
  have hroom : s.inRecovery = false → 0 < s.cwnd.toNat ∧ s.cwnd.toNat + ownMss.toNat < 2 ^ 32 := by
    intro hrec
    obtain ⟨hpos, hcap⟩ := h.room hrec
    refine ⟨hpos, Nat.lt_of_le_of_lt (Nat.add_le_add_right hcap _) (by decide)⟩
  have hthresh : 0 < s.ssthresh.toNat := h.ssthresh
  have hundo : s.cwndPreRto.toNat + ownMss.toNat < 2 ^ 32 := h.undo
  unfold Ctx.eifelUndo
  split
  · simp only
    split
    · refine ⟨rfl, rfl, rfl, ?_, fun hrec => ?_⟩
      · simp only [uint32_toNat_max]
        omega
      · have := hroom hrec
        simp only [uint32_toNat_max]
        omega
    · exact ⟨rfl, rfl, rfl, hthresh, hroom⟩
  · exact ⟨rfl, rfl, rfl, hthresh, hroom⟩

theorem linear_growth {cwnd mss : UInt32} (hmss : mss.toNat ≤ 960)
    (hcwnd : cwnd.toNat + 960 < 2 ^ 32) :
    0 < (cwnd + max (mss * 2 * mss / max cwnd mss) 1).toNat := by
  have hsquare : mss.toNat * 2 * mss.toNat ≤ 960 * 2 * 960 := Nat.mul_le_mul (by omega) hmss
  have hprod : (mss * 2 * mss).toNat = mss.toNat * 2 * mss.toNat := by
    rw [UInt32.toNat_mul, UInt32.toNat_mul]
    show mss.toNat * 2 % 2 ^ 32 * mss.toNat % 2 ^ 32 = _
    rw [Nat.mod_eq_of_lt (by omega : mss.toNat * 2 < 2 ^ 32), Nat.mod_eq_of_lt (by omega)]
  have hquot : (mss * 2 * mss / max cwnd mss).toNat ≤
      if cwnd.toNat ≤ 960 * 2 * 960 then 960 * 2 * 960 else 0 := by
    rw [UInt32.toNat_div, hprod, uint32_toNat_max]
    split
    · exact (Nat.div_le_self _ _).trans hsquare
    · exact Nat.le_of_eq (Nat.div_eq_of_lt (by omega))
  rw [UInt32.toNat_add, uint32_toNat_max]
  have : (1 : UInt32).toNat = 1 := rfl
  split at hquot
  all_goals omega

theorem capped {x : UInt32} (h : 0 < x.toNat) :
    0 < (min x (4 * 1024 * 1024)).toNat ∧ (min x (4 * 1024 * 1024)).toNat ≤ cwndCap := by
  have hcap : (4 * 1024 * 1024 : UInt32).toNat = cwndCap := rfl
  rw [uint32_toNat_min, hcap]
  have : 0 < cwndCap := by decide
  omega

/-- A new ACK leaves an open window, or recovery goes on with its point still ahead. -/
theorem noteNewAck_congestion {c : Ctx} (h : Sound c.s) {ackNo : UInt32}
    (hnew : seqLe ackNo c.s.sndUna = false) :
    let s := (c.noteNewAck ackNo).s
    (s.inRecovery = false → 0 < s.cwnd.toNat ∧ s.cwnd.toNat ≤ cwndCap) ∧
      (s.inRecovery = true → c.s.inRecovery = true ∧ s.recoveryPoint = c.s.recoveryPoint ∧
        seqLt ackNo s.recoveryPoint = true) ∧
      0 < s.ssthresh.toNat ∧ s.cwndPreRto = c.s.cwndPreRto := by
  obtain ⟨hrec, hpoint, hpre, hthresh, hroom⟩ := eifelUndo_paced h.paced
  have hmss : (Ctx.eifelUndo c.s).peerMss = c.s.peerMss :=
    congrArg (fun v : Core => v.peer.peerMss) (eifelUndo_core c.s).1
  have hacked : 0 < (ackNo - c.s.sndUna).toNat := by
    refine Nat.pos_of_ne_zero fun hzero => ?_
    have heq : ackNo - c.s.sndUna = 0 := UInt32.toNat_inj.mp hzero
    have : ackNo = c.s.sndUna := by
      rw [← UInt32.sub_add_cancel ackNo c.s.sndUna, heq, UInt32.zero_add]
    rw [(seqLe_iff _ _).mpr (.inl this)] at hnew
    cases hnew
  have hpos := h.mssPos
  have hle := h.mssLe
  unfold Ctx.noteNewAck
  generalize Ctx.eifelUndo c.s = s at hrec hpoint hpre hthresh hroom hmss ⊢
  generalize ackNo - c.s.sndUna = acked at hacked ⊢
  unfold Ctx.growCwnd
  split
  · rename_i hin
    split
    · refine ⟨fun _ => capped hthresh, fun hout => (by cases hout), hthresh, hpre⟩
    · rename_i hshort
      refine ⟨fun hout => ?_, fun _ => ⟨hrec ▸ hin, hpoint, ?_⟩, hthresh, hpre⟩
      · exact absurd hin (by rw [show s.inRecovery = false from hout]; simp)
      · simpa using hshort
  · rename_i hout
    have hout' : s.inRecovery = false := by simpa using hout
    obtain ⟨hopen, hfits⟩ := hroom (hrec ▸ hout')
    have hmssNat : s.peerMss.toUInt32.toNat = c.s.peerMss.toNat := by
      rw [UInt16.toNat_toUInt32, hmss]
    have hown : ownMss.toNat = 960 := rfl
    split
    · refine ⟨fun _ => capped ?_, fun hin => absurd hin (by simpa using hout'), hthresh, hpre⟩
      rw [UInt32.toNat_add, uint32_toNat_min, hmssNat]
      omega
    · refine ⟨fun _ => capped ?_, fun hin => absurd hin (by simpa using hout'), hthresh, hpre⟩
      exact linear_growth (by omega) (by omega)

theorem Unanswered.ackIn {v : Core} (h : Unanswered v) {ack : UInt32}
    (hhi : seqLt v.send.sndNxt ack = false) (hlo : seqLe ack v.send.sndUna = false) :
    ack = v.send.sndNxt := by
  have hhi' : ¬ 2 ^ 31 ≤ (v.send.sndNxt - ack).toNat := by
    rw [← seqLt_iff, hhi]
    simp
  have hlo' : ¬ (ack = v.send.sndUna ∨ 2 ^ 31 ≤ (ack - v.send.sndUna).toNat) := by
    rw [← seqLe_iff, hlo]
    simp
  obtain ⟨hne, hlt⟩ := not_or.mp hlo'
  have hne' : ack.toNat ≠ v.send.sndUna.toNat := fun heq => hne (UInt32.toNat_inj.mp heq)
  apply UInt32.toNat_inj.mp
  rw [h.nxt] at hhi' ⊢
  simp only [UInt32.toNat_sub, UInt32.toNat_add] at hhi' hlt ⊢
  have := ack.toNat_lt
  have := v.send.sndUna.toNat_lt
  have : (1 : UInt32).toNat = 1 := rfl
  omega

theorem covered_after_ack {v : Core} (h : Covered v ∨ Unanswered v) {ack : UInt32}
    {popped rest : List OutSeg} (hq : v.queue = popped ++ rest)
    (hhi : seqLt v.send.sndNxt ack = false) (hlo : seqLe ack v.send.sndUna = false)
    (hp : ∀ e ∈ popped, seqLe (e.seq + e.span) ack = true)
    (hr : ∀ e ∈ rest.head?, seqLe (e.seq + e.span) ack = false) :
    Covered { v with send.sndUna := ack, queue := rest } := by
  obtain h | h := h
  · exact h.ackIn hq hhi hlo hp hr
  · obtain ⟨-, rfl⟩ : popped = [] ∧ rest = [] := by
      rw [h.queue] at hq
      simpa using hq.symm
    have hack := h.ackIn hhi hlo
    exact ⟨⟨v.send.sndNxt, rfl⟩, by simp, by simp, fun _ => hack⟩

theorem point_survives {v : Core} (h : Covered v) {ack point : UInt32} {popped rest : List OutSeg}
    (hq : v.queue = popped ++ rest) (hlo : seqLe ack v.send.sndUna = false)
    (hp : ∀ e ∈ popped, seqLe (e.seq + e.span) ack = true)
    (hpoint : ∃ e ∈ v.queue, e.seq + e.span = point) (hahead : seqLt ack point = true) :
    ∃ e ∈ rest, e.seq + e.span = point := by
  obtain ⟨e, he, hend⟩ := hpoint
  rw [hq] at he
  obtain he | he := List.mem_append.mp he
  · exfalso
    obtain ⟨a, hchain⟩ := h.chain
    rw [hq] at hchain
    obtain ⟨m, hpop, -⟩ := hchain.append
    have hsmall : ∀ f ∈ popped, f.span.toNat < 2 ^ 30 :=
      fun f hf => (h.small f (by simp [hq, hf])).2
    have hstart : ∀ f ∈ popped.head?, (f.seq + f.span - v.send.sndUna).toNat < 2 ^ 30 := by
      intro f hf
      have hf' : f ∈ v.queue.head? := by
        cases popped with
        | nil => cases hf
        | cons g l => simpa [hq] using hf
      have hin := h.head f hf'
      have hspan := (h.small f (List.mem_of_mem_head? hf')).2
      simp only [UInt32.toNat_sub, UInt32.toNat_add] at hin ⊢
      have := f.seq.toNat_lt
      have := v.send.sndUna.toNat_lt
      omega
    have hbefore := popped_before_ack hlo hpop hsmall hp (.inl hstart) e he
    rw [hend] at hbefore
    rw [seqLt_iff] at hahead
    have hlo' : ¬ (ack = v.send.sndUna ∨ 2 ^ 31 ≤ (ack - v.send.sndUna).toNat) := by
      rw [← seqLe_iff, hlo]
      simp
    obtain ⟨-, hlt⟩ := not_or.mp hlo'
    simp only [UInt32.toNat_sub] at hbefore hahead hlt
    have := ack.toNat_lt
    have := point.toNat_lt
    have := v.send.sndUna.toNat_lt
    omega
  · exact ⟨e, he, hend⟩

theorem Sound.advanceUna {c c₁ : Ctx} (h : Sound c.s) {ackNo : UInt32} (now : UInt32) (sampled : Bool)
    (hhi : seqLt c.s.sndNxt ackNo = false) (hlo : seqLe ackNo c.s.sndUna = false)
    (hview : c₁.view = c.view)
    (hg : c₁.s.toPacing.congestion = (c.noteNewAck ackNo).s.toPacing.congestion) :
    Sound ((Ctx.popAcked ackNo now c₁.s.retx sampled c₁).advanceUna ackNo).s := by
  obtain ⟨popped, rest, hq, hp, hr, hv⟩ := popAcked_view ackNo now c₁.s.retx sampled c₁ rfl
  have hcong := popAcked_congestion ackNo now c₁.s.retx sampled c₁
  rw [hg] at hcong
  rw [hview] at hq hv
  generalize Ctx.popAcked ackNo now c₁.s.retx sampled c₁ = c₂ at hv hcong ⊢
  obtain ⟨hroom, hpoint, hthresh, hpre⟩ := noteNewAck_congestion h hlo
  have hcore : c₂.s.core = { c.s.core with queue := rest } := congrArg View.toCore hv
  have hpeer : c₂.s.toPeerOpts = c.s.toPeerOpts := congrArg Core.peer hcore
  have hqueue : c₂.s.core.queue = rest := congrArg Core.queue hcore
  have hnxt : c₂.s.sndNxt = c.s.sndNxt := congrArg (fun v : Core => v.send.sndNxt) hcore
  have hundo : (c.noteNewAck ackNo).s.cwndPreRto.toNat + ownMss.toNat < 2 ^ 32 := by
    rw [hpre]
    exact h.paced.undo
  have hnext : Sound { c₂.s with sndUna := ackNo, rtoRetries := 0 } := by
    refine ⟨.inl ?_, ?_, by rw [hpeer]; exact h.mssPos, by rw [hpeer]; exact h.mssLe⟩
    · have hcov := covered_after_ack h.covered hq hhi hlo hp hr
      exact hcov.congr hqueue rfl hnxt
    · show Paced c₂.s.toPacing.congestion c₂.s.core.queue
      rw [hcong, hqueue]
      refine ⟨hroom, fun hrec => ?_, hthresh, hundo⟩
      obtain ⟨hin, hsame, hahead⟩ := hpoint hrec
      have hheld := h.paced.point hin
      have hne : c.s.core.queue ≠ [] := by
        obtain ⟨e, he, -⟩ := hheld
        exact List.ne_nil_of_mem he
      refine point_survives (h.covered_of_queue hne) hq hlo hp ?_ hahead
      rw [show (c.noteNewAck ackNo).s.toPacing.congestion.recoveryPoint = c.s.recoveryPoint from
        hsame]
      exact hheld
  exact hnext.updatePrrAfterAck _ _

theorem Sound.onNewAck {c : Ctx} (h : Sound c.s) {ackNo : UInt32} (now : UInt32)
    (hhi : seqLt c.s.sndNxt ackNo = false) (hlo : seqLe ackNo c.s.sndUna = false) :
    Sound (c.onNewAck ackNo now).s := by
  have hview : (c.noteNewAck ackNo).sampleTsRtt.2.view = c.view := by
    rw [sampleTsRtt_view, noteNewAck_view]
  have hg := sampleTsRtt_congestion (c.noteNewAck ackNo)
  unfold Ctx.onNewAck
  generalize (c.noteNewAck ackNo).sampleTsRtt = r at hview hg ⊢
  obtain ⟨sampled, c₁⟩ := r
  simp only at hview hg ⊢
  have hacked := h.advanceUna now sampled hhi hlo hview hg
  generalize (Ctx.popAcked ackNo now c₁.s.retx sampled c₁).advanceUna ackNo = c₂ at hacked ⊢
  have hrack := hacked.rackDetectLossAndArmTimer now
  generalize c₂.rackDetectLossAndArmTimer now = c₃ at hrack ⊢
  have hrefresh : Sound c₃.refreshRto.s := hrack.congr rfl rfl
  have hpartial := hrefresh.resend (partialRetx_path _ now) (partialRetx_congestion _ now)
  exact hpartial.resend (rearmRto_path _ now) (rearmRto_congestion _ now)

theorem Sound.onAck {c : Ctx} (h : Sound c.s) (ackNo now : UInt32) :
    Sound (c.onAck ackNo now).s := by
  unfold Ctx.onAck
  cases hhi : seqLt c.s.sndNxt ackNo with
  | true => simpa using h
  | false =>
    cases hlo : seqLe ackNo c.s.sndUna with
    | true => simpa using h.onDupAck ackNo now
    | false => simpa using h.onNewAck now hhi hlo

/-! ## Timers -/

theorem Sound.rtoReduce {c : Ctx} (h : Sound c.s) (now : UInt32)
    (hcwnd : c.s.inRecovery = true → c.s.cwnd.toNat + ownMss.toNat < 2 ^ 32) :
    Sound (c.rtoReduce now).s := by
  have hmss : c.s.peerMss.toUInt32.toNat = c.s.peerMss.toNat := UInt16.toNat_toUInt32 _
  refine ⟨h.covered, ⟨fun _ => ?_, fun hrec => (by cases hrec), ?_, ?_⟩, h.mssPos, h.mssLe⟩
  · show 0 < c.s.peerMss.toUInt32.toNat ∧ c.s.peerMss.toUInt32.toNat ≤ cwndCap
    have := h.mssPos
    have := h.mssLe
    have : ownMss.toNat ≤ cwndCap := by decide
    omega
  · exact reducedSsthresh_pos c.s h.mssPos h.mssLe
  · show c.s.cwnd.toNat + ownMss.toNat < 2 ^ 32
    cases hrec : c.s.inRecovery with
    | true => exact hcwnd hrec
    | false => exact Nat.lt_of_le_of_lt (Nat.add_le_add_right (h.paced.room hrec).2 _) (by decide)

theorem Sound.tickTimers {c : Ctx} (h : Sound c.s) (now : UInt32) : Sound (c.tickTimers now).s := by
  have hrack : Sound (if c.s.rackDeadlineMs != 0 && timeAfter now c.s.rackDeadlineMs then
      c.rackDetectLossAndArmTimer now else c).s := by
    split
    · exact h.rackDetectLossAndArmTimer now
    · exact h
  unfold Ctx.tickTimers
  simp only
  generalize (if c.s.rackDeadlineMs != 0 && timeAfter now c.s.rackDeadlineMs then
    c.rackDetectLossAndArmTimer now else c) = c₁ at hrack ⊢
  have htlp : Sound (if c₁.s.tlpDeadlineMs != 0 && timeAfter now c₁.s.tlpDeadlineMs then
      c₁.fireTlp now else c₁).s := by
    split
    · exact hrack.resend (fireTlp_path c₁ now) (fireTlp_congestion c₁ now)
    · exact hrack
  generalize (if c₁.s.tlpDeadlineMs != 0 && timeAfter now c₁.s.tlpDeadlineMs then
    c₁.fireTlp now else c₁) = c₂ at htlp ⊢
  split
  · exact htlp.resend (fireZwp_path c₂ now) (fireZwp_congestion c₂ now)
  · exact htlp

end BaleVpn.Tcp
