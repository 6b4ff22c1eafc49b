import BaleVpn.Tcp.SeqArith
import BaleVpn.Tcp.Steady
import BaleVpn.Tcp.StreamFidelity

/-!
# A client that acknowledges nothing

`pipe` takes SACKed bytes off the flight, so a client that SACKs every byte and acknowledges none
keeps the session sending: for every `k` there is a run with `k` bytes in the retransmit queue and a
window of 1000. Past a full turn of the sequence space a number no longer denotes one position.
-/

namespace BaleVpn.Tcp

open Net Lib

/-! ## The sender -/

/-- The session of `sampleStart` with the sender at `send` and `k` bytes SACKed. -/
structure Flow (s : TcpSession) (send : SendVars) (k : ℕ) : Prop where
  key : s.key = sampleKey
  state : s.state = .established
  send : s.toSendVars = send
  peer : s.toPeerOpts = { peerSackOk := true }
  host : s.toHostVars = { host := true }
  cwnd : s.cwnd = 5361
  sackedBytes : s.sackedBytes = UInt32.ofNat k

/-- The sender after `k` bytes, none of them acknowledged, with `pending` to segment. -/
def sentBytes (k : ℕ) (pending : Bytes) : SendVars :=
  { sndUna := 1, sndNxt := seqOf 0 k, sndWnd := 1000, toClient := pending }

/-- All of `k` bytes are sent and SACKed, none is acknowledged. -/
structure Sacked (k : ℕ) (c : Ctx) : Prop where
  flow : Flow c.s (sentBytes k []) k
  sacked : ∀ e ∈ c.s.retx, e.sacked = true
  reads : readsOf c.io.trace = List.replicate k 0
  pops : popsOf c.io.trace = []
  ongoing : ∀ x ∈ c.io.trace, x.isFin = false ∧ x.isRst = false

theorem Flow.pipe {s : TcpSession} {k : ℕ} {pending : Bytes} (h : Flow s (sentBytes k pending) k) :
    s.pipe = 0 := by
  have hnxt : s.sndNxt = seqOf 0 k := congrArg SendVars.sndNxt h.send
  have huna : s.sndUna = 1 := congrArg SendVars.sndUna h.send
  have hflight : s.flight = s.sackedBytes := by
    unfold TcpSession.flight seqOf seqAt at *
    rw [hnxt, huna, h.sackedBytes, UInt32.zero_add, UInt32.add_comm, UInt32.add_sub_cancel]
  unfold TcpSession.pipe
  rw [hflight]
  simp

theorem Flow.pending {s : TcpSession} {k n : ℕ} {data : Bytes} (h : Flow s (sentBytes k data) n) :
    s.pending = data.length := by
  unfold TcpSession.pending
  rw [show s.toClient = data from congrArg SendVars.toClient h.send,
    show s.toClientOff = 0 from congrArg SendVars.toClientOff h.send]
  rfl

theorem Flow.segmentLoop {c : Ctx} {k : ℕ} {d : UInt8} (h : Flow c.s (sentBytes k [d]) k)
    (hacc : ∀ n, c.io.oracle.accept n = true) :
    Ctx.segmentLoop 1 c = (c.sendChunk .data 1).2 := by
  have hwnd : c.s.sndWnd = 1000 := congrArg SendVars.sndWnd h.send
  have hclient : c.s.toClient = [d] := congrArg SendVars.toClient h.send
  have hoff : c.s.toClientOff = 0 := congrArg SendVars.toClientOff h.send
  have hmss : c.s.peerMss = 536 := congrArg PeerOpts.peerMss h.peer
  have htaken := sendChunk_taken c .data 1 (by rw [h.key]; decide) (by decide) hacc
  unfold Ctx.segmentLoop
  rw [if_pos (by rw [hclient, hoff]; exact Nat.one_pos)]
  simp only [hwnd, h.cwnd, h.pipe, hmss, h.pending]
  rw [if_neg (by decide),
    show min (min (536 : UInt16).toNat [d].length) (min (1000 : UInt32) 5361 - 0).toNat = 1 from rfl,
    if_neg (by decide)]
  rcases hr : c.sendChunk .data 1 with ⟨ok, c'⟩
  simp only [hr] at htaken ⊢
  rw [htaken.1]
  rfl

theorem finish_drained (c : Ctx) (hoff : c.s.toClient.length ≤ c.s.toClientOff)
    (hhost : c.s.toHostVars = { host := true }) (hwnd : c.s.sndWnd = 1000) :
    ∃ n, c.resumeReads.finishToClient.refreshZwp =
      { c with
        s.toClient := []
        s.toClientOff := 0
        s.zwpDeadlineMs := 0
        s.zwpIntervalMs := 200
        io.readings := n } := by
  have hpaused : c.s.hostPollinPaused = false := congrArg HostVars.hostPollinPaused hhost
  have heof : c.s.hostReadEof = false := congrArg HostVars.hostReadEof hhost
  refine ⟨c.io.readings + 1, ?_⟩
  unfold Ctx.resumeReads
  rw [hpaused]
  simp only [Bool.false_and, Bool.false_eq_true, if_false]
  unfold Ctx.finishToClient
  rw [if_pos hoff]
  simp only [heof, Bool.false_and, Bool.false_eq_true, if_false]
  unfold Ctx.refreshZwp TcpSession.updateZwp
  simp only [Ctx.nowMs, hwnd]
  rfl

/-- The byte at `k` went out and waits for its SACK. -/
structure Sent (k : ℕ) (s : TcpSession) : Prop where
  flow : Flow s (sentBytes (k + 1) []) k
  retx : ∃ l e, s.retx = l ++ [e] ∧ (∀ x ∈ l, x.sacked = true) ∧ e.sacked = false ∧
    e.seq = seqOf 0 k ∧ e.data.length = 1

theorem Flow.sends {c : Ctx} {k : ℕ} {d : UInt8} (h : Flow c.s (sentBytes k [d]) k)
    (hacc : ∀ n, c.io.oracle.accept n = true) (hsacked : ∀ e ∈ c.s.retx, e.sacked = true) :
    Sent k c.trySegmentAndEmit.refreshZwp.s ∧ ∃ s b pkt rto, b.seq = seqOf 0 k ∧ b.payload = [d] ∧
      c.trySegmentAndEmit.refreshZwp.io.trace =
        c.io.trace ++ .emit .data s b pkt true :: armActs c.s.rtoDeadlineMs rto := by
  obtain ⟨-, hsteady, ⟨now, hretx⟩, s, b, pkt, rto, hf, hview⟩ :=
    sendChunk_taken c .data 1 (by rw [h.key]; decide) (by decide) hacc
  unfold Ctx.trySegmentAndEmit
  rw [h.pending, show [d].length = 1 from rfl, h.segmentLoop hacc]
  generalize (c.sendChunk .data 1).2 = c₂ at hsteady hretx hview ⊢
  have hsend : c₂.s.toSendVars =
      { sndUna := 1, sndNxt := seqOf 0 (k + 1), sndWnd := 1000, toClient := [d], toClientOff := 1 } := by
    rw [show c₂.s.toSendVars = (c.view.sendChunk (.emit .data s b pkt true) 1 rto).send from
      congrArg (fun v : View => v.send) hview, seqOf_add]
    unfold View.sendChunk
    simp only [show c.view.send = c.s.toSendVars from rfl, h.send]
    rfl
  have hhost : c₂.s.toHostVars = { host := true } :=
    (congrArg (fun v : View => v.host) hview).trans h.host
  obtain ⟨n, hfinish⟩ := finish_drained c₂
    (by rw [show c₂.s.toClient = [d] from congrArg SendVars.toClient hsend,
      show c₂.s.toClientOff = 1 from congrArg SendVars.toClientOff hsend]; exact Nat.le_refl 1)
    hhost (congrArg SendVars.sndWnd hsend)
  rw [hfinish]
  refine ⟨⟨⟨?_, ?_, ?_, ?_, hhost, ?_, ?_⟩, ?_⟩, s, b, pkt, rto, ?_, ?_, ?_⟩
  · exact (congrArg (fun v : View => v.key) hview).trans h.key
  · exact (congrArg (fun v : View => v.state) hview).trans h.state
  · exact congrArg (fun x : SendVars => { x with toClient := [], toClientOff := 0 }) hsend
  · exact (congrArg (fun v : View => v.peer) hview).trans h.peer
  · exact (congrArg Pacing.cwnd hsteady).trans h.cwnd
  · exact (congrArg Pacing.sackedBytes hsteady).trans h.sackedBytes
  · refine ⟨c.s.retx, _, hretx, hsacked, rfl, congrArg SendVars.sndNxt h.send, ?_⟩
    rw [h.send]
    rfl
  · obtain ⟨-, ts, -, rfl⟩ := hf
    exact congrArg SendVars.sndNxt h.send
  · obtain ⟨-, ts, -, rfl⟩ := hf
    rw [h.send]
    rfl
  · exact congrArg (fun v : View => v.trace) hview

/-! ## A byte from the host -/

theorem Flow.loads {c : Ctx} {k : ℕ} (h : Flow c.s (sentBytes k []) k) (d : UInt8) :
    Flow (c.pushToClient [d]).s (sentBytes k [d]) k :=
  ⟨h.key, h.state, congrArg (SendVars.push · [d]) h.send, h.peer, h.host, h.cwnd, h.sackedBytes⟩

theorem Flow.onHostReadable {c : Ctx} {k : ℕ} {d : UInt8} (h : Flow c.s (sentBytes k []) k)
    (hreads : c.io.oracle.reads = [.ok [d]]) :
    c.onHostReadable = (({ c with io.oracle.reads := [] } : Ctx).pushToClient
      [d]).trySegmentAndEmit.refreshZwp := by
  obtain ⟨c₁, hc₁⟩ : ∃ c₁ : Ctx, { c with io.oracle.reads := [] } = c₁ := ⟨_, rfl⟩
  have hloaded : Flow (c₁.pushToClient [d]).s (sentBytes k [d]) k := by
    rw [← hc₁]
    exact h.loads d
  unfold Ctx.onHostReadable
  rw [show c.s.host = true from congrArg HostVars.host h.host,
    show c.s.hostPollinPaused = false from congrArg HostVars.hostPollinPaused h.host, hreads]
  unfold Ctx.readLoop
  simp only [hc₁, show [d].take (16 * 1024) = [d] from rfl]
  generalize c₁.pushToClient [d] = c₂ at hloaded ⊢
  simp only [hloaded.pending]
  rfl

theorem Sacked.read {k : ℕ} {c : Ctx} (h : Sacked k c) (d : UInt8) :
    Sent k (c.step (readByte d)).s ∧ ∃ s b pkt rto, b.seq = seqOf 0 k ∧ b.payload = [d] ∧
      (c.step (readByte d)).io.trace =
        c.io.trace ++ .read [d] :: .emit .data s b pkt true :: armActs c.s.rtoDeadlineMs rto := by
  have hopen : (c.s.state == .closed) = false := by
    rw [h.flow.state]
    rfl
  have hstep : c.step (readByte d) = (c.load { reads := [.ok [d]] }).onHostReadable := by
    unfold Ctx.step
    rw [hopen]
    rfl
  have hflow : Flow (c.load { reads := [.ok [d]] }).s (sentBytes k []) k := h.flow
  rw [hstep, hflow.onHostReadable rfl]
  obtain ⟨c₁, hc₁⟩ : ∃ c₁ : Ctx, { c.load { reads := [.ok [d]] } with io.oracle.reads := [] } = c₁ :=
    ⟨_, rfl⟩
  have hs : c₁.s = c.s := by rw [← hc₁]; rfl
  have htrace : c₁.io.trace = c.io.trace := by rw [← hc₁]; rfl
  have hacc : ∀ n, c₁.io.oracle.accept n = true := by rw [← hc₁]; exact fun _ => rfl
  rw [hc₁]
  have hflow₁ : Flow c₁.s (sentBytes k []) k := by rw [hs]; exact h.flow
  have hsacked : ∀ e ∈ c₁.s.retx, e.sacked = true := by rw [hs]; exact h.sacked
  obtain ⟨hsent, s, b, pkt, rto, hseq, hdata, hout⟩ := (hflow₁.loads d).sends hacc hsacked
  refine ⟨hsent, s, b, pkt, rto, hseq, hdata, ?_⟩
  rw [hout, ← htrace, ← hs, List.append_cons c₁.io.trace]
  rfl

/-! ## Its SACK -/

/-- A segment with one SACK block and no ACK flag, from the client of `sampleStart`. -/
def sackSegment (left right : UInt32) : Bytes :=
  clientSegment sampleKey TCP_PSH 101 0 1000 ([1, 1, 5, 10] ++ putBe32 left ++ putBe32 right) []

theorem sackSegment_dataOff (l r : UInt32) : TcpHeader.dataOff (sackSegment l r) = 32 := by
  show ((((20 + 12) / 4) <<< 4 : ℕ).toUInt8 >>> 4).toNat * 4 = 32
  decide

theorem parseSackBlocks_one (c : Ctx) (l r : UInt32) (hsack : c.s.peerSackOk = true)
    (hlt : seqLt l r = true) : ∃ b, c.parseSackBlocks ([1, 1, 5, 10] ++ putBe32 l ++ putBe32 r) =
      ({ c with s.rackDsackSeen := b } : Ctx).onSackBlock l r := by
  have hwalk : c.parseSackBlocks ([1, 1, 5, 10] ++ putBe32 l ++ putBe32 r) =
      Ctx.sackBlocks (putBe32 l ++ putBe32 r) true c := by
    have hwalk : walkOptions Ctx.applySack ([1, 1, 5, 10] ++ putBe32 l ++ putBe32 r).length
        ([1, 1, 5, 10] ++ putBe32 l ++ putBe32 r) c =
          Ctx.sackBlocks (putBe32 l ++ putBe32 r) true c := by
      simp [walkOptions, Ctx.applySack, putBe32]
    unfold Ctx.parseSackBlocks
    rw [hsack, hwalk]
    rfl
  have hblock : Ctx.sackBlocks (putBe32 l ++ putBe32 r) true c =
      if seqLt (be32 (putBe32 l)) (be32 (putBe32 r)) then
        (if seqLt (be32 (putBe32 l)) c.s.sndUna then
          ({ c with s.rackDsackSeen := true } : Ctx) else c).onSackBlock
          (be32 (putBe32 l)) (be32 (putBe32 r))
      else c := rfl
  rw [hwalk, hblock, be32_putBe32, be32_putBe32, hlt]
  simp only [if_true]
  split
  · exact ⟨true, rfl⟩
  · exact ⟨c.s.rackDsackSeen, rfl⟩

theorem rackUpdateFromDelivered_frame (p : Pacing) (sentMs endSeq now : UInt32) :
    (p.rackUpdateFromDelivered sentMs endSeq now).cwnd = p.cwnd ∧
      (p.rackUpdateFromDelivered sentMs endSeq now).sackedBytes = p.sackedBytes := by
  unfold Pacing.rackUpdateFromDelivered
  split
  · exact ⟨rfl, rfl⟩
  · simp only
    split <;> exact ⟨rfl, rfl⟩

theorem Sent.onSackBlock {k : ℕ} {c : Ctx} (h : Sent k c.s) :
    Flow (c.onSackBlock (seqOf 0 k) (seqOf 0 (k + 1))).s (sentBytes (k + 1) []) (k + 1) ∧
      (∀ e ∈ (c.onSackBlock (seqOf 0 k) (seqOf 0 (k + 1))).s.retx, e.sacked = true) ∧
      (c.onSackBlock (seqOf 0 k) (seqOf 0 (k + 1))).io.trace = c.io.trace := by
  obtain ⟨l, e, hretx, hl, he, hseq, hlen⟩ := h.retx
  have hskip : ∀ x ∈ l, Ctx.sackHits (seqOf 0 k) (seqOf 0 (k + 1)) x = false := by
    intro x hx
    unfold Ctx.sackHits
    rw [hl x hx]
    rfl
  have hhit : Ctx.sackHits (seqOf 0 k) (seqOf 0 (k + 1)) e = true := by
    unfold Ctx.sackHits
    rw [he, hseq, hlen, seqOf_add]
    simp [seqLt]
  have hhits : c.s.retx.filter (Ctx.sackHits (seqOf 0 k) (seqOf 0 (k + 1))) = [e] := by
    rw [hretx, List.filter_append, List.filter_eq_nil_iff.mpr (by simpa using hskip)]
    simp [hhit]
  have hframe := rackUpdateFromDelivered_frame
  unfold Ctx.onSackBlock
  simp only [Ctx.nowMs, hhits, List.foldl_cons, List.foldl_nil]
  refine ⟨⟨h.flow.key, h.flow.state, h.flow.send, h.flow.peer, h.flow.host, ?_, ?_⟩, ?_, trivial⟩
  · exact (hframe _ _ _ _).1.trans h.flow.cwnd
  · refine (hframe _ _ _ _).2.trans ?_
    simp only [h.flow.sackedBytes, hlen]
    exact (UInt32.ofNat_add k 1).symm
  · intro x hx
    obtain ⟨y, hy, rfl⟩ := List.mem_map.mp hx
    rw [hretx] at hy
    split
    · rfl
    · rename_i hmiss
      obtain hy | hy := List.mem_append.mp hy
      · exact hl y hy
      · rw [List.mem_singleton.mp hy] at hmiss
        exact absurd hhit hmiss

/-- The client SACKs the byte at `k`. -/
def sackByte (k : ℕ) : Input := ⟨.segment (sackSegment (seqOf 0 k) (seqOf 0 (k + 1))), {}⟩

theorem Sent.preprocess {k : ℕ} {c : Ctx} (h : Sent k c.s) (seq : UInt32) :
    ∃ c', c.preprocess ([1, 1, 5, 10] ++ putBe32 (seqOf 0 k) ++ putBe32 (seqOf 0 (k + 1))) seq = c' ∧
      Flow c'.s (sentBytes (k + 1) []) (k + 1) ∧ (∀ e ∈ c'.s.retx, e.sacked = true) ∧
      c'.io.trace = c.io.trace := by
  have hsack : c.s.peerSackOk = true := congrArg PeerOpts.peerSackOk h.flow.peer
  have hlt : seqLt (seqOf 0 k) (seqOf 0 (k + 1)) = true := by
    rw [seqLt_iff, seqOf_add, UInt32.toNat_sub, UInt32.toNat_add]
    have := (seqOf 0 k).toNat_lt
    simp only [Nat.toUInt32_eq, UInt32.toNat_ofNat', Nat.reduceMod, Nat.reducePow]
    omega
  have hne : ([1, 1, 5, 10] ++ putBe32 (seqOf 0 k) ++ putBe32 (seqOf 0 (k + 1))).isEmpty = false := rfl
  refine ⟨_, rfl, ?_⟩
  unfold Ctx.preprocess
  obtain ⟨c₁, hc₁⟩ : ∃ c₁ : Ctx, c₁ = { c with s.sackedAtSegmentStart := c.s.sackedBytes } := ⟨_, rfl⟩
  have hsent : ∀ b, Sent k ({ c₁ with s.rackDsackSeen := b } : Ctx).s := by
    intro b
    rw [hc₁]
    exact ⟨⟨h.flow.key, h.flow.state, h.flow.send, h.flow.peer, h.flow.host, h.flow.cwnd,
      h.flow.sackedBytes⟩, h.retx⟩
  have hsack₁ : c₁.s.peerSackOk = true := by rw [hc₁]; exact hsack
  obtain ⟨b, hblocks⟩ := parseSackBlocks_one c₁ _ _ hsack₁ hlt
  simp only [← hc₁, hsack, hne, Bool.not_false, Bool.and_self, if_true, hblocks]
  obtain ⟨hflow, hall, htrace⟩ := (hsent b).onSackBlock
  rw [show ({ c₁ with s.rackDsackSeen := b } : Ctx).io.trace = c.io.trace by rw [hc₁]] at htrace
  generalize ({ c₁ with s.rackDsackSeen := b } : Ctx).onSackBlock (seqOf 0 k) (seqOf 0 (k + 1)) = c₂
    at hflow hall htrace
  have hts : c₂.s.peerTsOk = false := congrArg PeerOpts.peerTsOk hflow.peer
  unfold Ctx.noteTimestamps
  simp only [hts, Bool.false_and, Bool.false_eq_true, if_false]
  exact ⟨⟨hflow.key, hflow.state, hflow.send, hflow.peer, hflow.host, hflow.cwnd, hflow.sackedBytes⟩,
    hall, htrace⟩

theorem Flow.processEstablished {k n : ℕ} {c : Ctx} (h : Flow c.s (sentBytes k []) n)
    (seq ack : UInt32) : ∃ c', c.processEstablished TCP_PSH seq ack 1000 [] = c' ∧
      Flow c'.s (sentBytes k []) n ∧ c'.s.retx = c.s.retx ∧ c'.io.trace = c.io.trace := by
  refine ⟨_, rfl, ?_⟩
  obtain ⟨c₁, hc₁⟩ : ∃ c₁ : Ctx, c₁ = (c.ackIfFlagged TCP_PSH ack).setSndWnd 1000 := ⟨_, rfl⟩
  have hs : c₁.s = { c.s with sndWnd := (1000 : UInt16).toUInt32 <<< c.s.peerWscale.toUInt32 } := by
    rw [hc₁]
    rfl
  have htrace : c₁.io.trace = c.io.trace := by rw [hc₁]; rfl
  have hflow : Flow c₁.s (sentBytes k []) n := by
    rw [hs, show c.s.peerWscale = 0 from congrArg PeerOpts.peerWscale h.peer]
    exact ⟨h.key, h.state, congrArg (fun x : SendVars => { x with sndWnd := 1000 }) h.send, h.peer,
      h.host, h.cwnd, h.sackedBytes⟩
  have hcall : c.processEstablished TCP_PSH seq ack 1000 [] = c₁.trySegmentAndEmit.refreshZwp := by
    rw [hc₁]
    rfl
  rw [hcall]
  unfold Ctx.trySegmentAndEmit
  rw [hflow.pending]
  obtain ⟨m, hfinish⟩ := finish_drained c₁
    (by rw [show c₁.s.toClient = [] from congrArg SendVars.toClient hflow.send]; exact Nat.zero_le _)
    hflow.host (congrArg SendVars.sndWnd hflow.send)
  rw [show Ctx.segmentLoop [].length c₁ = c₁ from rfl, hfinish]
  refine ⟨⟨hflow.key, hflow.state, ?_, hflow.peer, hflow.host, hflow.cwnd, hflow.sackedBytes⟩, ?_, htrace⟩
  · exact congrArg (fun x : SendVars => { x with toClient := [], toClientOff := 0 }) hflow.send
  · show c₁.s.retx = c.s.retx
    rw [hs]

theorem Sent.sack {k : ℕ} {c : Ctx} (h : Sent k c.s) :
    Flow (c.step (sackByte k)).s (sentBytes (k + 1) []) (k + 1) ∧
      (∀ e ∈ (c.step (sackByte k)).s.retx, e.sacked = true) ∧
      (c.step (sackByte k)).io.trace = c.io.trace := by
  have hopen : (c.s.state == .closed) = false := by
    rw [h.flow.state]
    rfl
  obtain ⟨c₀, hc₀⟩ : ∃ c₀ : Ctx, c₀ = c.load {} := ⟨_, rfl⟩
  have hs : c₀.s = c.s := by rw [hc₀]; rfl
  have htrace₀ : c₀.io.trace = c.io.trace := by rw [hc₀]; rfl
  obtain ⟨seg, hseg⟩ : ∃ seg, seg = sackSegment (seqOf 0 k) (seqOf 0 (k + 1)) := ⟨_, rfl⟩
  have hstep : c.step (sackByte k) = (c₀.onSegment seg).2 := by
    unfold Ctx.step
    rw [hopen, hc₀, hseg]
    rfl
  have hlen : seg.length = 32 := by rw [hseg]; rfl
  have hoff : TcpHeader.dataOff seg = 32 := by rw [hseg]; exact sackSegment_dataOff _ _
  have hflags : TcpHeader.flags seg = TCP_PSH := by rw [hseg]; rfl
  have hwindow : TcpHeader.window seg = 1000 := by
    rw [hseg]
    show be16 (putBe16 1000) = 1000
    decide
  have hpayload : seg.drop 32 = [] := by rw [hseg]; rfl
  have hopts : (seg.take 32).drop 20 =
      [1, 1, 5, 10] ++ putBe32 (seqOf 0 k) ++ putBe32 (seqOf 0 (k + 1)) := by rw [hseg]; rfl
  obtain ⟨c₁, hpre, hflow, hall, htrace⟩ :=
    Sent.preprocess (c := c₀) (by rw [hs]; exact h) (TcpHeader.seq seg)
  obtain ⟨c₂, hest, hflow₂, hretx₂, htrace₂⟩ :=
    hflow.processEstablished (TcpHeader.seq seg) (TcpHeader.ack seg)
  have hresult : (c₀.onSegment seg).2 = c₂ := by
    unfold Ctx.onSegment
    simp only [hlen, hoff, hflags, hwindow, hpayload, hopts, hpre, hflow.state]
    unfold Ctx.dispatchState
    simp only [hflow.state, hest]
    rfl
  rw [hstep, hresult, hretx₂, htrace₂, htrace, htrace₀]
  exact ⟨hflow₂, hall, rfl⟩

theorem armActs_ongoing (r rto : UInt32) :
    ∀ a ∈ armActs r rto, a.isFin = false ∧ a.isRst = false := by
  intro a ha
  rw [mem_armActs ha]
  exact ⟨rfl, rfl⟩

/-! ## Rounds -/

/-- One round: a byte from the host, and its SACK. -/
theorem Sacked.round {k : ℕ} {c : Ctx} (h : Sacked k c) :
    Sacked (k + 1) (c.run [readByte 0, sackByte k]) := by
  obtain ⟨hsent, s, b, pkt, rto, -, -, htrace⟩ := h.read 0
  obtain ⟨hflow, hall, htrace'⟩ := hsent.sack
  obtain ⟨hreads, hpops⟩ := Still.streams (armActs_still 0 c.s.rtoDeadlineMs rto)
  have hrun : c.run [readByte 0, sackByte k] = (c.step (readByte 0)).step (sackByte k) := rfl
  rw [hrun]
  rw [htrace] at htrace'
  refine ⟨hflow, hall, ?_, ?_, ?_⟩
  · rw [htrace', readsOf_append, h.reads]
    show List.replicate k 0 ++ ([0] ++ readsOf (armActs c.s.rtoDeadlineMs rto)) = _
    rw [hreads, List.append_nil]
    exact List.replicate_succ'.symm
  · rw [htrace', popsOf_append, h.pops]
    exact hpops
  · rw [htrace']
    intro x hx
    obtain hx | hx := List.mem_append.mp hx
    · exact h.ongoing x hx
    · obtain rfl | hx := List.mem_cons.mp hx
      · exact ⟨rfl, rfl⟩
      · obtain rfl | hx := List.mem_cons.mp hx
        · exact ⟨rfl, rfl⟩
        · exact armActs_ongoing c.s.rtoDeadlineMs rto x hx

theorem sacked_reached (k : ℕ) : ∃ inputs, Sacked k ((sampleStart 1000 [4, 2, 1, 1]).run inputs) := by
  induction k with
  | zero =>
    refine ⟨[sampleAck 1000], ⟨?_, ?_, ?_, ?_, ?_, ?_, ?_⟩, ?_, ?_, ?_, ?_⟩
    all_goals decide +kernel
  | succ k ih =>
    obtain ⟨inputs, h⟩ := ih
    refine ⟨inputs ++ [readByte 0, sackByte k], ?_⟩
    rw [show (sampleStart 1000 [4, 2, 1, 1]).run (inputs ++ [readByte 0, sackByte k]) =
      ((sampleStart 1000 [4, 2, 1, 1]).run inputs).run [readByte 0, sackByte k] from
        List.foldl_append]
    exact h.round

/-- After `2^32` zero bytes, all SACKed and none acknowledged, the byte 1 goes out under the sequence
number of the first zero, whose position is the acknowledged one. -/
theorem stream_overrun : ¬ ∀ (key : FlowKey) (c₀ : Ctx) (inputs : List Input) (H : Bytes),
    Accepted key c₀ → readsOf (c₀.run inputs).io.trace <+: H →
      Each (Faithful c₀.s.sndUna H) (c₀.run inputs).io.trace := by
  intro hall
  obtain ⟨n, hn⟩ : ∃ n, n = 2 ^ 32 := ⟨_, rfl⟩
  obtain ⟨inputs, h⟩ := sacked_reached n
  obtain ⟨-, s, b, pkt, rto, hseq, hdata, htrace⟩ := h.read 1
  obtain ⟨r, hr⟩ : ∃ r, r = ((sampleStart 1000 [4, 2, 1, 1]).run inputs).s.rtoDeadlineMs := ⟨_, rfl⟩
  rw [← hr] at htrace
  have hacc : Accepted sampleKey (sampleStart 1000 [4, 2, 1, 1]) :=
    sampleStart_accepted _ _ (by decide)
  have hiss : (sampleStart 1000 [4, 2, 1, 1]).s.sndUna = 0 := by decide
  have heach := hall _ _ (inputs ++ [readByte 1]) (List.replicate n 0 ++ [1]) hacc
  rw [Ctx.run_snoc, htrace, hiss] at heach
  have hreads : readsOf ((((sampleStart 1000 [4, 2, 1, 1]).run inputs).io.trace) ++
      .read [1] :: .emit .data s b pkt true :: armActs r rto) = List.replicate n 0 ++ [1] := by
    rw [readsOf_append, h.reads]
    show List.replicate n 0 ++ ([1] ++ readsOf (armActs r rto)) = _
    rw [(Still.streams (armActs_still 0 r rto)).1, List.append_nil]
  have hpops := h.pops
  have hongoing := h.ongoing
  generalize ((sampleStart 1000 [4, 2, 1, 1]).run inputs).io.trace = t at heach hreads hpops hongoing
  obtain ⟨p, ⟨-, hnear⟩, hbytes⟩ := heach (by rw [hreads]) (t ++ [.read [1]]) (.emit .data s b pkt true)
    (armActs r rto) (List.append_cons _ _ _) (by
      intro x hx
      obtain hx | hx := List.mem_append.mp hx
      · exact hongoing x hx
      · rw [List.mem_singleton.mp hx]
        exact ⟨rfl, rfl⟩) (by rw [hdata]; exact List.cons_ne_nil _ _)
  have hacked : (popsOf (t ++ [.read [1]])).length = 0 := by
    rw [popsOf_append, hpops]
    rfl
  rw [List.length_append, List.length_replicate, if_neg (by simp; omega), hacked] at hnear
  have hp : p = 0 := by
    have hzero := hnear 0 (by rw [hseq, hn]; decide)
    simpa using hzero
  rw [hp, hdata, hn, List.drop_zero, show (2 ^ 32 : ℕ) = (2 ^ 32 - 1) + 1 by decide,
    List.replicate_succ] at hbytes
  obtain ⟨rest, hrest⟩ := hbytes
  exact absurd (List.cons.inj hrest).1 (by decide)

end BaleVpn.Tcp
