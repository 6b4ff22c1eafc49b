import BaleVpn.Tcp.FinOrder
import BaleVpn.Tcp.SeqArith
import Mathlib.Data.List.Infix

/-!
# The stream from the host to the client

Bytes read from the host are, in order, those acknowledged and popped, those in the retransmit
queue, and those still pending in `to_client`. Sequence numbers move in lock-step with positions in
this stream, so that every segment with payload, sent first or again, carries the bytes at the
position its sequence number stands for.
-/

namespace BaleVpn.Tcp

open Net Lib

/-! ## Positions -/

def Action.bytesPopped : Action → Bytes
  | .popRetx data => data
  | _ => []

/-- The bytes cumulatively acknowledged and popped. -/
def popsOf (t : List Action) : Bytes := t.flatMap Action.bytesPopped

def queueBytes (l : List OutSeg) : Bytes := l.flatMap OutSeg.data

/-- The sequence number of stream position `p`: the SYN takes `iss`. -/
def seqOf (iss : UInt32) (p : ℕ) : UInt32 := seqAt (iss + 1) p

theorem seqOf_add (iss : UInt32) (p n : ℕ) : seqOf iss (p + n) = seqOf iss p + n.toUInt32 :=
  seqAt_add _ _ _

/-- Entries with data stand at their position, the first one at `p`. -/
def Placed (iss : UInt32) : ℕ → List OutSeg → Prop
  | _, [] => True
  | p, e :: l => (e.data ≠ [] → e.seq = seqOf iss p) ∧ Placed iss (p + e.data.length) l

theorem placed_append {iss : UInt32} {l l' : List OutSeg} : ∀ {p : ℕ},
    Placed iss p (l ++ l') ↔ Placed iss p l ∧ Placed iss (p + (queueBytes l).length) l' := by
  induction l with
  | nil => simp [Placed, queueBytes]
  | cons e l ih =>
    intro p
    simp only [List.cons_append, Placed, ih, queueBytes, List.flatMap_cons, List.length_append,
      Nat.add_assoc, and_assoc]

theorem Placed.mem {iss : UInt32} {l : List OutSeg} {e : OutSeg} {p : ℕ} {stream rest : Bytes}
    (h : Placed iss p l) (he : e ∈ l) (hne : e.data ≠ [])
    (hstream : stream.drop p = queueBytes l ++ rest) :
    ∃ q, e.seq = seqOf iss q ∧ e.data <+: stream.drop q ∧ p ≤ q ∧
      q + e.data.length ≤ p + (queueBytes l).length := by
  obtain ⟨l₁, l₂, rfl⟩ := List.append_of_mem he
  rw [placed_append] at h
  have hq : queueBytes (l₁ ++ e :: l₂) = queueBytes l₁ ++ (e.data ++ queueBytes l₂) := by
    simp [queueBytes]
  refine ⟨p + (queueBytes l₁).length, h.2.1 hne, ?_, by omega, ?_⟩
  · rw [← List.drop_drop, hstream, hq, List.append_assoc, List.drop_left', List.append_assoc]
    · exact List.prefix_append _ _
    · rfl
  · rw [hq]
    simp only [List.length_append]
    omega

theorem queueBytes_append (l l' : List OutSeg) :
    queueBytes (l ++ l') = queueBytes l ++ queueBytes l' := List.flatMap_append

theorem queueBytes_core (l : List OutSeg) : queueBytes (l.map OutSeg.core) = queueBytes l := by
  unfold queueBytes
  rw [List.flatMap_map]
  rfl

theorem popsOf_append (t acts : List Action) : popsOf (t ++ acts) = popsOf t ++ popsOf acts :=
  List.flatMap_append

theorem popsOf_map (l : List OutSeg) : popsOf (l.map fun e => .popRetx e.data) = queueBytes l := by
  unfold popsOf queueBytes
  rw [List.flatMap_map]
  rfl

/-! ## The invariant -/

/-- Before the FIN, a segment with payload carries the bytes read from the host at a position its
number stands for, between the acknowledged bytes and the end of the retransmit queue. -/
def Carried (iss : UInt32) (pre : List Action) : Action → Prop
  | .emit _ s b _ _ => (∀ x ∈ pre, x.isFin = false) → b.payload ≠ [] →
      ∃ p, b.seq = seqOf iss p ∧ b.payload <+: (readsOf pre).drop p ∧ (popsOf pre).length ≤ p ∧
        p ≤ (popsOf pre).length + (queueBytes s.retx).length
  | _ => True

structure StreamInv (iss : UInt32) (v : View) : Prop where
  key : v.key.IsV4
  off : v.send.toClientOff ≤ v.send.toClient.length
  balance : popsOf v.trace ++ queueBytes v.queue ++ v.send.toClient.drop v.send.toClientOff =
    readsOf v.trace
  fin : v.send.sentFin = true → ∃ a ∈ v.trace, a.isFin = true
  nxt : v.send.sentFin = false →
    v.send.sndNxt = seqOf iss ((popsOf v.trace).length + (queueBytes v.queue).length)
  placed : v.send.sentFin = false → Placed iss (popsOf v.trace).length v.queue
  each : Each (Carried iss) v.trace

/-- An action outside the stream. -/
structure Action.Still (iss : UInt32) (a : Action) : Prop where
  reads : a.bytesRead = []
  pops : a.bytesPopped = []
  carried : ∀ pre, Carried iss pre a

variable {iss : UInt32}

theorem Action.HostSide.still {a : Action} (h : a.HostSide) : a.Still iss := by
  cases h with
  | rst ok hb hpkt =>
    subst hb
    exact ⟨rfl, rfl, fun _ _ hpayload => absurd rfl hpayload⟩
  | _ => exact ⟨rfl, rfl, fun _ => trivial⟩

theorem armActs_still (iss rto d : UInt32) : ∀ a ∈ armActs rto d, a.Still iss := by
  intro a ha
  rw [mem_armActs ha]
  exact ⟨rfl, rfl, fun _ => trivial⟩

theorem Still.streams {acts : List Action} (h : ∀ a ∈ acts, a.Still iss) :
    readsOf acts = [] ∧ popsOf acts = [] := by
  rw [readsOf, popsOf, List.flatMap_eq_nil_iff, List.flatMap_eq_nil_iff]
  exact ⟨fun a ha => (h a ha).reads, fun a ha => (h a ha).pops⟩

theorem Still.each {t acts : List Action} (h : ∀ a ∈ acts, a.Still iss) :
    Each (fun pre => Carried iss (t ++ pre)) acts :=
  fun _ a _ heq => (h a (by rw [heq]; simp)).carried _

/-- The fields of the stream are as they were. -/
structure SameStream (v v' : View) : Prop where
  key : v'.key = v.key
  queue : v'.queue = v.queue
  sndNxt : v'.send.sndNxt = v.send.sndNxt
  sentFin : v'.send.sentFin = v.send.sentFin
  toClient : v'.send.toClient = v.send.toClient
  toClientOff : v'.send.toClientOff = v.send.toClientOff

theorem StreamInv.extend {v v' : View} (h : StreamInv iss v) (hsame : SameStream v v')
    {acts : List Action} (htrace : v'.trace = v.trace ++ acts) (hreads : readsOf acts = [])
    (hpops : popsOf acts = []) (hacts : Each (fun pre => Carried iss (v.trace ++ pre)) acts) :
    StreamInv iss v' := by
  have hreads' : readsOf v'.trace = readsOf v.trace := by
    rw [htrace, readsOf_append, hreads, List.append_nil]
  have hpops' : popsOf v'.trace = popsOf v.trace := by
    rw [htrace, popsOf_append, hpops, List.append_nil]
  constructor
  · rw [hsame.key]
    exact h.key
  · rw [hsame.toClient, hsame.toClientOff]
    exact h.off
  · rw [hpops', hreads', hsame.queue, hsame.toClient, hsame.toClientOff]
    exact h.balance
  · rw [hsame.sentFin, htrace]
    intro hs
    obtain ⟨a, ha, hfin⟩ := h.fin hs
    exact ⟨a, List.mem_append_left _ ha, hfin⟩
  · rw [hsame.sentFin, hsame.sndNxt, hsame.queue, hpops']
    exact h.nxt
  · rw [hsame.sentFin, hsame.queue, hpops']
    exact h.placed
  · rw [htrace]
    exact each_append.mpr ⟨h.each, hacts⟩

theorem StreamInv.still {v v' : View} (h : StreamInv iss v) (hsame : SameStream v v')
    (hadds : Adds v.trace v'.trace (Action.Still iss)) : StreamInv iss v' := by
  obtain ⟨acts, htrace, hacts⟩ := hadds
  exact h.extend hsame htrace (Still.streams hacts).1 (Still.streams hacts).2 (Still.each hacts)

theorem StreamInv.emit {v v' : View} (h : StreamInv iss v) (hsame : SameStream v v') {cause : Cause}
    {s : TcpSession} {b : TcpBuild} {pkt : Bytes} {ok : Bool}
    (htrace : v'.trace = v.trace ++ [.emit cause s b pkt ok])
    (hc : Carried iss v.trace (.emit cause s b pkt ok)) : StreamInv iss v' := by
  refine h.extend hsame htrace rfl rfl ?_
  rw [each_singleton, List.append_nil]
  exact hc

theorem StreamInv.sent_false {v : View} (h : StreamInv iss v) (hfin : ∀ x ∈ v.trace, x.isFin = false) :
    v.send.sentFin = false := by
  cases hs : v.send.sentFin with
  | false => rfl
  | true =>
    obtain ⟨a, ha, hafin⟩ := h.fin hs
    rw [hfin a ha] at hafin
    cases hafin

theorem StreamInv.unacked {v : View} (h : StreamInv iss v) :
    (readsOf v.trace).drop (popsOf v.trace).length =
      queueBytes v.queue ++ v.send.toClient.drop v.send.toClientOff := by
  rw [← h.balance, List.append_assoc, List.drop_left]

theorem snap_queueBytes {s : TcpSession} {v : Core} (h : s.core = v) :
    queueBytes s.retx = queueBytes v.queue := by
  rw [← h]
  exact (queueBytes_core s.retx).symm

theorem StreamInv.resends {v : View} (h : StreamInv iss v) {cause : Cause} {s : TcpSession}
    {b : TcpBuild} {pkt : Bytes} {ok : Bool} {e : OutSeg} (he : e ∈ v.queue)
    (hf : Framed v.toCore e.flags e.seq e.data e.options s b) :
    Carried iss v.trace (.emit cause s b pkt ok) := by
  intro hfin hpayload
  obtain ⟨hsnap, ts, -, rfl⟩ := hf
  obtain ⟨p, hseq, hdata, hlo, hhi⟩ :=
    (h.placed (h.sent_false hfin)).mem he hpayload h.unacked
  exact ⟨p, hseq, hdata, hlo, by rw [snap_queueBytes hsnap]; omega⟩

theorem StreamInv.sends {v : View} (h : StreamInv iss v) {cause : Cause} {s : TcpSession}
    {b : TcpBuild} {pkt : Bytes} {ok : Bool} {chunk : ℕ}
    (hf : Framed v.toCore (TCP_ACK ||| TCP_PSH) v.send.sndNxt (v.send.next chunk) [] s b) :
    Carried iss v.trace (.emit cause s b pkt ok) := by
  intro hfin _
  obtain ⟨hsnap, ts, -, rfl⟩ := hf
  refine ⟨_, h.nxt (h.sent_false hfin), ?_, by omega, by rw [snap_queueBytes hsnap]⟩
  rw [← List.drop_drop, h.unacked, List.drop_left]
  exact List.take_prefix _ _

theorem Resend.streamInv {v v' : View} (h : Resend v v') (hv : StreamInv iss v) :
    StreamInv iss v' := by
  have hsame : SameStream v v' := by
    have hcore := h.core
    constructor <;> rw [hcore]
  cases h with
  | arm d => exact hv.still hsame (.one ⟨rfl, rfl, fun _ => trivial⟩)
  | disarm _ => exact hv.still hsame .none
  | ackOut ok hc hf hb =>
    refine hv.emit hsame rfl fun _ hpayload => absurd ?_ hpayload
    obtain ⟨-, ts, -, rfl⟩ := hf
    rfl
  | retransmit ok hc he hf hb => exact hv.emit hsame rfl (hv.resends he hf)

/-- The client took a new segment: its bytes move from `to_client` to the queue. -/
theorem StreamInv.sent {v v' : View} (h : StreamInv iss v) (data : Bytes) {e : OutSeg}
    {acts : List Action} (hkey : v'.key = v.key) (hsent : v'.send.sentFin = v.send.sentFin)
    (hqueue : v'.queue = v.queue ++ [e]) (hdata : e.data = data) (hseq : e.seq = v.send.sndNxt)
    (hnxt : v'.send.sndNxt = v.send.sndNxt + data.length.toUInt32)
    (hoff : v'.send.toClientOff ≤ v'.send.toClient.length)
    (hclient : v.send.toClient.drop v.send.toClientOff =
      data ++ v'.send.toClient.drop v'.send.toClientOff)
    (htrace : v'.trace = v.trace ++ acts) (hreads : readsOf acts = []) (hpops : popsOf acts = [])
    (hacts : Each (fun pre => Carried iss (v.trace ++ pre)) acts) : StreamInv iss v' := by
  have hpops' : popsOf v'.trace = popsOf v.trace := by
    rw [htrace, popsOf_append, hpops, List.append_nil]
  have hbytes : queueBytes v'.queue = queueBytes v.queue ++ data := by
    rw [hqueue, queueBytes_append, ← hdata]
    simp [queueBytes]
  constructor
  · rw [hkey]
    exact h.key
  · exact hoff
  · rw [hpops', hbytes, htrace, readsOf_append, hreads, List.append_nil, ← h.balance, hclient]
    simp only [List.append_assoc]
  · rw [hsent, htrace]
    intro hs
    obtain ⟨a, ha, hfin⟩ := h.fin hs
    exact ⟨a, List.mem_append_left _ ha, hfin⟩
  · rw [hsent, hnxt, hpops', hbytes, List.length_append, ← Nat.add_assoc, seqOf_add]
    intro hs
    rw [h.nxt hs]
  · rw [hsent, hpops', hqueue, placed_append]
    intro hs
    exact ⟨h.placed hs, fun _ => hseq.trans (h.nxt hs), trivial⟩
  · rw [htrace]
    exact each_append.mpr ⟨h.each, hacts⟩

/-- The client acknowledged the first entries of the queue. -/
theorem StreamInv.acked {v v' : View} (h : StreamInv iss v) {popped rest : List OutSeg}
    (hq : v.queue = popped ++ rest) (hkey : v'.key = v.key) (hqueue : v'.queue = rest)
    (hnxt : v'.send.sndNxt = v.send.sndNxt) (hsent : v'.send.sentFin = v.send.sentFin)
    (hclient : v'.send.toClient = v.send.toClient ∧ v'.send.toClientOff = v.send.toClientOff)
    (htrace : v'.trace = v.trace ++ popped.map fun e => .popRetx e.data) : StreamInv iss v' := by
  have hreads : readsOf (popped.map fun e => .popRetx e.data) = [] := by
    rw [readsOf, List.flatMap_eq_nil_iff]
    intro a ha
    obtain ⟨e, -, rfl⟩ := List.mem_map.mp ha
    rfl
  have hpops : popsOf v'.trace = popsOf v.trace ++ queueBytes popped := by
    rw [htrace, popsOf_append, popsOf_map]
  have hbytes : queueBytes v.queue = queueBytes popped ++ queueBytes rest := by
    rw [hq, queueBytes_append]
  constructor
  · rw [hkey]
    exact h.key
  · rw [hclient.1, hclient.2]
    exact h.off
  · rw [hpops, hqueue, hclient.1, hclient.2, htrace, readsOf_append, hreads, List.append_nil,
      ← h.balance, hbytes]
    simp only [List.append_assoc]
  · rw [hsent, htrace]
    intro hs
    obtain ⟨a, ha, hfin⟩ := h.fin hs
    exact ⟨a, List.mem_append_left _ ha, hfin⟩
  · rw [hsent, hnxt, hpops, hqueue, List.length_append]
    intro hs
    rw [h.nxt hs, hbytes, List.length_append, Nat.add_assoc]
  · rw [hsent, hpops, hqueue, List.length_append]
    intro hs
    have hplaced := h.placed hs
    rw [hq, placed_append] at hplaced
    exact hplaced.2
  · rw [htrace]
    refine each_append.mpr ⟨h.each, fun _ a _ heq => ?_⟩
    obtain ⟨e, -, rfl⟩ := List.mem_map.mp (show a ∈ _ by rw [heq]; simp)
    trivial

theorem Sender.streamInv {v v' : View} (h : Sender v v') (hv : StreamInv iss v) :
    StreamInv iss v' := by
  cases h with
  | resend h => exact h.streamInv hv
  | refuse hk hf hb => exact hv.emit ⟨rfl, rfl, rfl, rfl, rfl, rfl⟩ rfl (hv.sends hf)
  | @send cause s b pkt chunk d hk hf hb =>
    have hlen : (v.send.next chunk).length = chunk := by
      have hsend : s.toSendVars = v.send := congrArg Core.send hf.snap
      rw [← hsend]
      exact next_length hk
    have hbound : v.send.toClientOff + chunk ≤ v.send.toClient.length := by
      unfold SendVars.next at hlen
      rw [List.length_take, List.length_drop] at hlen
      have := hv.off
      omega
    refine hv.sent (v.send.next chunk) rfl rfl rfl rfl rfl (by rw [hlen]) hbound ?_ rfl ?_ ?_ ?_
    · exact (List.take_append_drop chunk _).symm.trans (by rw [List.drop_drop]; rfl)
    · exact (Still.streams (armActs_still iss v.rto d)).1
    · exact (Still.streams (armActs_still iss v.rto d)).2
    · rw [each_cons, List.append_nil]
      exact ⟨hv.sends hf, fun _ a _ heq => (armActs_still _ _ _ a (by rw [heq]; simp)).carried _⟩
  | ackIn a popped rest hq hhi hlo hp hr => exact hv.acked hq rfl rfl rfl rfl ⟨rfl, rfl⟩ rfl

theorem StreamInv.finSent {v v' : View} (h : StreamInv iss v) {s : TcpSession} {b : TcpBuild}
    {pkt : Bytes} {ok : Bool} {acts : List Action} (hkey : v'.key = v.key)
    (hbytes : queueBytes v'.queue = queueBytes v.queue) (hsent : v'.send.sentFin = true)
    (hclient : v'.send.toClient = v.send.toClient ∧ v'.send.toClientOff = v.send.toClientOff)
    (hb : b.payload = []) (htrace : v'.trace = v.trace ++ .emit .fin s b pkt ok :: acts)
    (hacts : ∀ a ∈ acts, a.Still iss) : StreamInv iss v' := by
  obtain ⟨hreads, hpops⟩ := Still.streams hacts
  have hnot : ¬ v'.send.sentFin = false := by simp [hsent]
  refine ⟨by rw [hkey]; exact h.key, by rw [hclient.1, hclient.2]; exact h.off, ?_, fun _ => ?_,
    fun hs => absurd hs hnot, fun hs => absurd hs hnot, ?_⟩
  · rw [htrace, popsOf_append, readsOf_append, hbytes, hclient.1, hclient.2]
    show popsOf v.trace ++ popsOf acts ++ _ ++ _ = readsOf v.trace ++ readsOf acts
    rw [hreads, hpops, List.append_nil, List.append_nil]
    exact h.balance
  · exact ⟨.emit .fin s b pkt ok, by rw [htrace]; simp, rfl⟩
  · rw [htrace, each_append, each_cons]
    exact ⟨h.each, fun _ hpayload => absurd hb hpayload, fun _ a _ heq =>
      (hacts a (by rw [heq]; simp)).carried _⟩

theorem SendVars.push_drop (x : SendVars) (data : Bytes) (h : x.toClientOff ≤ x.toClient.length) :
    (x.push data).toClient.drop (x.push data).toClientOff =
        x.toClient.drop x.toClientOff ++ data ∧
      (x.push data).toClientOff ≤ (x.push data).toClient.length := by
  unfold SendVars.push
  split
  · exact ⟨rfl, Nat.zero_le _⟩
  · refine ⟨List.drop_append_of_le_length h, ?_⟩
    simp only [List.length_append]
    omega

theorem StreamInv.read {v : View} (h : StreamInv iss v) (data : Bytes) :
    StreamInv iss { v with send := v.send.push data, trace := v.trace ++ [.read data] } := by
  obtain ⟨hdrop, hoff⟩ := v.send.push_drop data h.off
  have hframe : (v.send.push data).sentFin = v.send.sentFin ∧
      (v.send.push data).sndNxt = v.send.sndNxt := by
    unfold SendVars.push
    split <;> exact ⟨rfl, rfl⟩
  have hpops : popsOf (v.trace ++ [.read data]) = popsOf v.trace := by
    rw [popsOf_append]
    exact List.append_nil _
  refine ⟨h.key, hoff, ?_, ?_, ?_, ?_, each_snoc.mpr ⟨h.each, trivial⟩⟩
  · rw [hpops, hdrop, readsOf_append, ← List.append_assoc, h.balance]
    simp [readsOf, Action.bytesRead]
  · rw [hframe.1]
    intro hs
    obtain ⟨a, ha, hfin⟩ := h.fin hs
    exact ⟨a, List.mem_append_left _ ha, hfin⟩
  · rw [hframe.1, hframe.2, hpops]
    exact h.nxt
  · rw [hframe.1, hpops]
    exact h.placed

theorem Micro.streamInv {v v' : View} (h : Micro v v') (hv : StreamInv iss v) :
    StreamInv iss v' := by
  have hfin : ∀ {s : TcpSession} {b : TcpBuild},
      Framed { v.toCore with send.sentFin := true } (TCP_FIN ||| TCP_ACK) v.send.sndNxt [] [] s b →
      b.payload = [] := by
    rintro s b ⟨-, ts, -, rfl⟩
    rfl
  cases h with
  | sender h => exact h.streamInv hv
  | finLost acts hs he hd hf ha =>
    obtain ⟨pkt, hb, rfl⟩ : ∃ pkt, buildTcp 1564 _ = some pkt ∧ acts = [.emit .fin _ _ pkt false] :=
      ha.resolve_left fun hnone => by
        obtain ⟨pkt, hb⟩ := hf.builds hv.key rfl (by simp)
        rw [hnone.1] at hb
        cases hb
    exact hv.finSent rfl rfl rfl ⟨rfl, rfl⟩ (hfin hf) rfl (by simp)
  | fin d hs he hd hf hb =>
    refine hv.finSent rfl ?_ rfl ⟨rfl, rfl⟩ (hfin hf) rfl (armActs_still iss v.rto d)
    rw [queueBytes_append]
    exact List.append_nil _
  | read data hh hd => exact hv.read data
  | clear h =>
    refine ⟨hv.key, Nat.le_refl 0, ?_, hv.fin, hv.nxt, hv.placed, hv.each⟩
    rw [← hv.balance, List.drop_eq_nil_of_le h]
    rfl
  | eof a ha =>
    refine hv.still ⟨rfl, rfl, rfl, rfl, rfl, rfl⟩ (.one ?_)
    obtain rfl | rfl := ha <;> exact ⟨rfl, rfl, fun _ => trivial⟩
  | openHost _ _ =>
    exact hv.still ⟨rfl, rfl, rfl, rfl, rfl, rfl⟩ (.one ⟨rfl, rfl, fun _ => trivial⟩)
  | shutdownWr =>
    exact hv.still ⟨rfl, rfl, rfl, rfl, rfl, rfl⟩ (.one ⟨rfl, rfl, fun _ => trivial⟩)
  | pause | window | establish | finIn | settle =>
    exact hv.still ⟨rfl, rfl, rfl, rfl, rfl, rfl⟩ .none

theorem HostStep.sameStream {x y : Obs} (h : HostStep x y) : SameStream x.view y.view := by
  have hframe := h.frame
  have hsend : y.view.send = x.view.send := hframe.send
  constructor
  · exact hframe.key
  · exact congrArg (List.map OutSeg.core) hframe.retx
  all_goals rw [hsend]

theorem streamInv_stable (iss : UInt32) : Stable (StreamInv iss) where
  micro h := h.streamInv
  wake _ hv := hv.still ⟨rfl, rfl, rfl, rfl, rfl, rfl⟩ .none
  host h hx := hx.still h.sameStream (h.adds.mono fun _ ha => ha.still)
  rst _ acts h hx :=
    hx.still ⟨rfl, rfl, rfl, rfl, rfl, rfl⟩ ⟨acts, rfl, fun a ha => (h.hostSide a ha).still⟩
  closed x hx :=
    hx.still ⟨rfl, rfl, rfl, rfl, rfl, rfl⟩ ((closed_adds x).mono fun _ ha => ha.still)
  timeWait _ acts h hv :=
    hv.still ⟨rfl, rfl, rfl, rfl, rfl, rfl⟩
      ⟨acts, rfl, fun a ha => (timeWait_hostSide h a ha).still⟩

theorem Started.streamInv {key : FlowKey} (hkey : key.IsV4) {v : View} (h : Started key v) :
    StreamInv v.send.sndUna v := by
  have hsyn : ∀ {core : Core} {flags : UInt8} {seq : UInt32} {opts : Bytes} {s : TcpSession}
      {b : TcpBuild}, Framed core flags seq [] opts s b → b.payload = [] := by
    rintro core flags seq opts s b ⟨-, ts, -, rfl⟩
    rfl
  have hnot : ¬ (false = true) := by decide
  cases h with
  | @lost isn rcv wnd peer opts s b acts d hp ho hf ha =>
    have hacts : ∀ a ∈ acts ++ [.armRto d], a.Still isn := by
      obtain ⟨-, rfl⟩ | ⟨pkt, -, rfl⟩ := ha
      · exact List.forall_mem_singleton.mpr ⟨rfl, rfl, fun _ => trivial⟩
      · exact List.forall_mem_cons.mpr ⟨⟨rfl, rfl, fun _ _ hne => absurd (hsyn hf) hne⟩,
          List.forall_mem_singleton.mpr ⟨rfl, rfl, fun _ => trivial⟩⟩
    obtain ⟨hreads, hpops⟩ := Still.streams hacts
    refine ⟨hkey, Nat.le_refl 0, ?_, fun hs => absurd hs hnot, fun _ => ?_, fun _ => trivial,
      Still.each (t := []) hacts⟩
    · rw [hreads, hpops]
      rfl
    · rw [hpops]
      exact (UInt32.add_zero _).symm
  | @sent isn rcv wnd peer opts s b pkt d d' hp ho hf hb =>
    refine ⟨hkey, Nat.le_refl 0, rfl, fun hs => absurd hs hnot, fun _ => (UInt32.add_zero _).symm,
      fun _ => ⟨fun hne => absurd rfl hne, trivial⟩, ?_⟩
    rw [each_cons, each_cons, each_singleton]
    exact ⟨fun _ hne => absurd (hsyn hf) hne, trivial, trivial⟩

/-! ## Fidelity -/

/-- `p` is the stream position that `q` stands for: `q - ISS - 1`, or in a stream of more than `2^32`
bytes a position congruent to it that is nearest to the acknowledged one. -/
def Denotes (iss : UInt32) (total acked : ℕ) (q : UInt32) (p : ℕ) : Prop :=
  seqOf iss p = q ∧
    if total ≤ 2 ^ 32 then p < 2 ^ 32
    else ∀ p', seqOf iss p' = q → ((p : Int) - acked).natAbs ≤ ((p' : Int) - acked).natAbs

/-- Up to the first FIN or RST, a segment with payload carries the bytes of the host's stream `H` at
the position its number denotes. -/
def Faithful (iss : UInt32) (H : Bytes) (pre : List Action) : Action → Prop
  | .emit _ _ b _ _ => (∀ x ∈ pre, x.isFin = false ∧ x.isRst = false) → b.payload ≠ [] →
      ∃ p, Denotes iss H.length (popsOf pre).length b.seq p ∧ b.payload <+: H.drop p
  | _ => True

/-- The retransmit queue is far from a full turn of the sequence space when the segment goes out, or
the stream does not go around it. -/
def ShortFlight (H : Bytes) : Action → Prop
  | .emit _ s _ _ _ => H.length ≤ 2 ^ 32 ∨ (queueBytes s.retx).length < 2 ^ 31
  | _ => True

/-- Less than half a turn past the acknowledged position, no congruent position is nearer. -/
theorem denotes_of_near {total acked p : ℕ} {q : UInt32} (hq : q = seqOf iss p) (hlt : p < total)
    (hlo : acked ≤ p) (h : total ≤ 2 ^ 32 ∨ p < acked + 2 ^ 31) : Denotes iss total acked q p := by
  refine ⟨hq.symm, ?_⟩
  split
  · omega
  · intro p' hp'
    have hmod := seqAt_inj (hp'.trans hq)
    omega

theorem Carried.faithful {H : Bytes} {pre : List Action} {a : Action} (h : Carried iss pre a)
    (hreads : readsOf pre <+: H) (hshort : ShortFlight H a) : Faithful iss H pre a := by
  cases a with
  | emit cause s b pkt ok =>
    intro hopen hpayload
    obtain ⟨p, hseq, hdata, hlo, hhi⟩ := h (fun x hx => (hopen x hx).1) hpayload
    have hdata : b.payload <+: H.drop p := hdata.trans (hreads.drop p)
    have hlen := hdata.length_le
    rw [List.length_drop] at hlen
    have hpos := List.length_pos_iff.mpr hpayload
    refine ⟨p, denotes_of_near hseq (by omega) hlo (hshort.imp_right ?_), hdata⟩
    intro hqueue
    omega
  | _ => trivial

/-- In every run, what is acknowledged, what is in the queue and what is pending make up what was
read from the host, and every segment with payload that leaves with less than `2^31` bytes in the
retransmit queue carries the host's bytes at the position its number denotes. -/
theorem stream_fidelity {key : FlowKey} {c₀ : Ctx} (h₀ : Accepted key c₀) (inputs : List Input)
    (H : Bytes) (hread : readsOf (c₀.run inputs).io.trace <+: H) :
    Each (fun pre a => ShortFlight H a → Faithful c₀.s.sndUna H pre a) (c₀.run inputs).io.trace ∧
      popsOf (c₀.run inputs).io.trace ++ queueBytes (c₀.run inputs).s.retx ++
        (c₀.run inputs).s.toClient.drop (c₀.run inputs).s.toClientOff =
          readsOf (c₀.run inputs).io.trace := by
  have hinv := (streamInv_stable _).run (h₀.started.streamInv h₀.1) inputs
  generalize c₀.run inputs = c at hread hinv ⊢
  constructor
  · intro pre a post heq hshort
    refine (hinv.each pre a post heq).faithful (List.IsPrefix.trans ?_ hread) hshort
    rw [heq, readsOf_append]
    exact List.prefix_append _ _
  · rw [← queueBytes_core c.s.retx]
    exact hinv.balance

/-- The host has one byte to read. -/
def readByte (d : UInt8) : Input := ⟨.host { isReadable := true }, { reads := [.ok [d]] }⟩

theorem stream_fidelity_one_byte :
    readsOf ((sampleStart 1000 []).run [sampleAck 1000, readByte 7]).io.trace = [7] ∧
      Each (fun pre a => ShortFlight [7] a → Faithful 0 [7] pre a)
        ((sampleStart 1000 []).run [sampleAck 1000, readByte 7]).io.trace :=
  ⟨by decide +kernel, (stream_fidelity (sampleStart_accepted 1000 [] (by decide))
    [sampleAck 1000, readByte 7] [7] (by decide +kernel)).1⟩

end BaleVpn.Tcp
