import BaleVpn.Tcp.Run
import Mathlib.Logic.Relation

/-!
# The abstract session

`View` keeps what the stream properties speak about: the send and receive variables, the negotiated
options, the host flags, the retransmit queue without its RTT and SACK marks, the RTO deadline and
the trace. Congestion control, RTT estimation and loss detection only choose which of these steps is
taken and when.

`Sender` says what the sender can do in one step: arm or disarm the RTO, emit an ACK, retransmit an
entry of the queue (`Resend`), send new data, take a cumulative ACK. `Micro` adds the FIN, the bytes
and the end of stream from the host, and the state changes of the handlers. None of these steps
closes the session and none touches the buffers towards the host. `Outcome` says, on the session
itself, how an event composes such steps with the operations that write to the host, and how it
may close the session.
-/

namespace BaleVpn.Tcp

open Net

/-! ## Views -/

/-- An entry without the marks that retransmission and SACK leave on it. -/
def OutSeg.core (e : OutSeg) : OutSeg :=
  { e with sentMs := 0, retransmitted := false, sacked := false }

/-- A fresh entry. -/
def OutSeg.fresh (seq : UInt32) (flags : UInt8) (data options : Bytes) : OutSeg :=
  ⟨seq, flags, 0, false, false, data, options⟩

/-- The session without its pacing state. -/
structure Core where
  key : FlowKey
  state : TcpState
  send : SendVars
  recv : RecvVars
  peer : PeerOpts
  host : HostVars
  queue : List OutSeg

def TcpSession.core (s : TcpSession) : Core where
  key := s.key
  state := s.state
  send := s.toSendVars
  recv := s.toRecvVars
  peer := s.toPeerOpts
  host := s.toHostVars
  queue := s.retx.map OutSeg.core

structure View extends Core where
  rto : UInt32
  trace : List Action

def Ctx.view (c : Ctx) : View where
  toCore := c.s.core
  rto := c.s.rtoDeadlineMs
  trace := c.io.trace

/-! ## Steps -/

/-- The timestamp bytes a segment with `flags` carries. -/
def TsBytes (peer : PeerOpts) (flags : UInt8) (ts : Bytes) : Prop :=
  if peer.peerTsOk && !hasFlag flags TCP_SYN then ∃ v e, ts = TcpSession.tsOption v e else ts = []

/-- `b` is the segment `emit_segment` builds in a session that looks like `v`; `s` is the session at
that moment. -/
structure Framed (v : Core) (flags : UInt8) (seq : UInt32) (payload options : Bytes)
    (s : TcpSession) (b : TcpBuild) : Prop where
  snap : s.core = v
  header : ∃ ts, TsBytes v.peer flags ts ∧
    b = s.header flags seq v.recv.rcvNxt s.advWnd.toUInt16 (options ++ ts) payload

/-- The length of a first transmission: what the window of its sender and the MSS leave of the
pending bytes. -/
def ChunkOf (cause : Cause) (s : TcpSession) (chunk : ℕ) : Prop :=
  0 < chunk ∧
    match cause with
    | .data => s.pipe < min s.sndWnd s.cwnd ∧
        chunk = min (min s.peerMss.toNat s.pending) (min s.sndWnd s.cwnd - s.pipe).toNat
    | .limitedTransmit => s.flight < s.sndWnd ∧
        chunk = min (min s.peerMss.toNat s.pending) (s.sndWnd - s.flight).toNat
    | _ => False

def Cause.isRetx : Cause → Bool
  | .lostRetx | .fastRetx | .partialRetx | .rackRetx | .tlpProbe | .rtoRetx => true
  | _ => false

/-- Recording a segment arms the RTO if it was not armed. -/
def armActs (rto d : UInt32) : List Action := if rto = 0 then [.armRto d] else []

def armedRto (rto d : UInt32) : UInt32 := if rto = 0 then d else rto

/-- What the sender does without new data and without an ACK of data: the RTO, bare ACKs and
retransmissions. -/
inductive Resend : View → View → Prop
  | arm (v : View) (d : UInt32) : Resend v { v with rto := d, trace := v.trace ++ [.armRto d] }
  | disarm (v : View) (h : v.queue = []) : Resend v { v with rto := 0 }
  | ackOut (v : View) {cause : Cause} {s : TcpSession} {b : TcpBuild} {pkt : Bytes} (ok : Bool)
      (hc : cause = .ack ∨ cause = .zwpProbe)
      (hf : Framed v.toCore TCP_ACK v.send.sndNxt [] s.buildSackOption s b)
      (hb : buildTcp 1564 b = some pkt) :
      Resend v { v with trace := v.trace ++ [.emit cause s b pkt ok] }
  | retransmit (v : View) {cause : Cause} {s : TcpSession} {b : TcpBuild} {pkt : Bytes} {e : OutSeg}
      (ok : Bool) (hc : cause.isRetx = true) (he : e ∈ v.queue)
      (hf : Framed v.toCore e.flags e.seq e.data e.options s b) (hb : buildTcp 1564 b = some pkt) :
      Resend v { v with trace := v.trace ++ [.emit cause s b pkt ok] }

/-- One step of the sender. -/
inductive Sender : View → View → Prop
  | resend {v v' : View} (h : Resend v v') : Sender v v'
  | refuse (v : View) {cause : Cause} {s : TcpSession} {b : TcpBuild} {pkt : Bytes} {chunk : ℕ}
      (hk : ChunkOf cause s chunk)
      (hf : Framed v.toCore (TCP_ACK ||| TCP_PSH) v.send.sndNxt (v.send.next chunk) [] s b)
      (hb : buildTcp 1564 b = some pkt) :
      Sender v { v with trace := v.trace ++ [.emit cause s b pkt false] }
  | send (v : View) {cause : Cause} {s : TcpSession} {b : TcpBuild} {pkt : Bytes} {chunk : ℕ}
      (d : UInt32) (hk : ChunkOf cause s chunk)
      (hf : Framed v.toCore (TCP_ACK ||| TCP_PSH) v.send.sndNxt (v.send.next chunk) [] s b)
      (hb : buildTcp 1564 b = some pkt) :
      Sender v { v with
        send.sndNxt := v.send.sndNxt + chunk.toUInt32
        send.toClientOff := v.send.toClientOff + chunk
        queue := v.queue ++ [.fresh v.send.sndNxt (TCP_ACK ||| TCP_PSH) (v.send.next chunk) []]
        rto := armedRto v.rto d
        trace := v.trace ++ .emit cause s b pkt true :: armActs v.rto d }
  | ackIn (v : View) (a : UInt32) (popped rest : List OutSeg) (hq : v.queue = popped ++ rest)
      (hhi : seqLt v.send.sndNxt a = false) (hlo : seqLe a v.send.sndUna = false)
      (hp : ∀ e ∈ popped, seqLe (e.seq + e.span) a = true)
      (hr : ∀ e ∈ rest.head?, seqLe (e.seq + e.span) a = false) :
      Sender v { v with
        send.sndUna := a
        queue := rest
        trace := v.trace ++ popped.map fun e => .popRetx e.data }

/-- One step of the session that keeps it open and leaves the buffers towards the host alone. -/
inductive Micro : View → View → Prop
  | sender {v v' : View} (h : Sender v v') : Micro v v'
  | finLost (v : View) {s : TcpSession} {b : TcpBuild} (acts : List Action)
      (hs : v.send.sentFin = false) (he : v.host.hostReadEof = true)
      (hd : v.send.toClient.length ≤ v.send.toClientOff)
      (hf : Framed { v.toCore with send.sentFin := true } (TCP_FIN ||| TCP_ACK) v.send.sndNxt [] []
        s b)
      (ha : (buildTcp 1564 b = none ∧ acts = []) ∨
        ∃ pkt, buildTcp 1564 b = some pkt ∧ acts = [.emit .fin s b pkt false]) :
      Micro v { v with
        state := if v.state == .closeWait then .lastAck else .finWait1
        send.sentFin := true
        send.sndNxt := v.send.sndNxt + 1
        trace := v.trace ++ acts }
  | fin (v : View) {s : TcpSession} {b : TcpBuild} {pkt : Bytes} (d : UInt32)
      (hs : v.send.sentFin = false) (he : v.host.hostReadEof = true)
      (hd : v.send.toClient.length ≤ v.send.toClientOff)
      (hf : Framed { v.toCore with send.sentFin := true } (TCP_FIN ||| TCP_ACK) v.send.sndNxt [] []
        s b)
      (hb : buildTcp 1564 b = some pkt) :
      Micro v { v with
        state := if v.state == .closeWait then .lastAck else .finWait1
        send.sentFin := true
        send.sndNxt := v.send.sndNxt + 1
        queue := v.queue ++ [.fresh v.send.sndNxt (TCP_FIN ||| TCP_ACK) [] []]
        rto := armedRto v.rto d
        trace := v.trace ++ .emit .fin s b pkt true :: armActs v.rto d }
  | read (v : View) (data : Bytes) (hh : v.host.host = true) (hd : data ≠ []) :
      Micro v { v with send := v.send.push data, trace := v.trace ++ [.read data] }
  | clear (v : View) (h : v.send.toClient.length ≤ v.send.toClientOff) :
      Micro v { v with send.toClient := [], send.toClientOff := 0 }
  | pause (v : View) (b : Bool) : Micro v { v with host.hostPollinPaused := b }
  | eof (v : View) (a : Action) (ha : a = .readEof ∨ a = .hostClosed) :
      Micro v { v with host.hostReadEof := true, trace := v.trace ++ [a] }
  | window (v : View) (w : UInt32) : Micro v { v with send.sndWnd := w }
  | establish (v : View) (h : v.state = .synRcvd) : Micro v { v with state := .established }
  | openHost (v : View) (h : v.state = .established) (hd : isBlockedV4 v.key.dst.toIpv4 = false) :
      Micro v { v with
        host.host := true
        host.hostWritable := false
        trace := v.trace ++ [.hostOpen] }
  | finIn (v : View) (st : TcpState) (h : st = v.state ∨ st = .closeWait) :
      Micro v { v with state := st, recv.rcvNxt := v.recv.rcvNxt + 1 }
  | settle (v : View) (st : TcpState) (h : st = .finWait2 ∨ st = .closing) :
      Micro v { v with state := st }
  | shutdownWr (v : View) :
      Micro v { v with host.hostWrShut := true, trace := v.trace ++ [.shutdownWr] }

abbrev ResendPath : View → View → Prop := Relation.ReflTransGen Resend

abbrev SendPath : View → View → Prop := Relation.ReflTransGen Sender

abbrev Path : View → View → Prop := Relation.ReflTransGen Micro

/-! ## Events -/

def Ctx.setWritable (c : Ctx) : Ctx := { c with s.hostWritable := true }

/-- A path, or a drain of `to_host`. Events of the host socket (`woken`) may also find it writable,
which starts a drain. -/
inductive Move (woken : Bool) : Ctx → Ctx → Prop
  | path {c c' : Ctx} (h : Path c.view c'.view) : Move woken c c'
  | drain (c : Ctx) : Move woken c c.tryDrainToHost
  | wake (h : woken = true) (c : Ctx) : Move woken c c.setWritable.tryDrainToHost

abbrev Moves (woken : Bool) : Ctx → Ctx → Prop := Relation.ReflTransGen (Move woken)

/-- States in which payload is taken. -/
def TcpState.takesData : TcpState → Bool
  | .established | .finWait1 | .finWait2 => true
  | _ => false

/-- The payload of a segment handed to `handle_data_in` and acknowledged, or neither. -/
inductive Taken (seq : UInt32) (data : Bytes) (c : Ctx) : Bool → Ctx → Prop
  | skip : Taken seq data c false c
  | data (h : data ≠ []) (hs : c.s.state.takesData = true) :
      Taken seq data c true (c.handleDataIn seq data).emitAck

/-- Steps that leave the receive side alone, and the state and the host's flags too unless they
establish the connection. -/
structure Prelude (c c' : Ctx) : Prop where
  path : Path c.view c'.view
  recv : c'.s.toRecvVars = c.s.toRecvVars
  kept : c.s.state = .synRcvd ∨
    c'.s.toHostVars = c.s.toHostVars ∧ c'.s.state = c.s.state

/-- A segment takes its payload at most once, with the receive side as the segment found it. -/
def Work (took : Bool) (seq : UInt32) (data : Bytes) (c c' : Ctx) : Prop :=
  ∃ c₁ c₂, Prelude c c₁ ∧ Taken seq data c₁ took c₂ ∧ Moves false c₂ c'

/-- How an event leaves the session; closing for good needs `final`. -/
inductive Ending (final : Prop) (c : Ctx) : Ctx → Prop
  | stay : Ending final c c
  | abort : Ending final c c.abort
  | abortClosed : Ending final c c.abort.noteClosed
  | close (h : final) : Ending final c c.markClosed
  | timeWait (h : final) {c' : Ctx} (now : UInt32) (hv : c'.view = (c.enterTimeWait now).view) :
      Ending final c c'

/-- `snd_una` after a segment's ACK number. -/
def TcpSession.unaAfter (s : TcpSession) (flags : UInt8) (ack : UInt32) : UInt32 :=
  if hasFlag flags TCP_ACK && !seqLt s.sndNxt ack && !seqLe ack s.sndUna then ack else s.sndUna

/-- The segment acknowledges everything sent, our FIN included. Bytes still pending behind a FIN
would move `snd_nxt` while the ACK is processed, so they count as if it did. -/
def TcpSession.finAckedBy (s : TcpSession) (seg : Bytes) : Bool :=
  !seqLt (s.unaAfter (TcpHeader.flags seg) (TcpHeader.ack seg)) s.sndNxt || s.pending != 0

/-- The segment completes the close of a session in state `s`. -/
def TcpSession.completesClose (s : TcpSession) (seg : Bytes) : Bool :=
  match s.state with
  | .finWait1 => hasFlag (TcpHeader.flags seg) TCP_FIN && TcpHeader.seq seg == s.rcvNxt &&
      s.finAckedBy seg
  | .finWait2 => hasFlag (TcpHeader.flags seg) TCP_FIN && TcpHeader.seq seg == s.rcvNxt
  | .closing => s.finAckedBy seg
  | .lastAck => hasFlag (TcpHeader.flags seg) TCP_ACK && s.finAckedBy seg
  | _ => false

/-- Of the states a segment can complete the close in, these two still take its payload. -/
def TcpSession.takesLast (s : TcpSession) (payload : Bytes) : Bool :=
  (s.state == .finWait1 || s.state == .finWait2) && !payload.isEmpty

/-- The segment completes the close, and its payload was taken if it is to be. -/
def TcpSession.Completes (s : TcpSession) (seg payload : Bytes) (took : Bool) : Prop :=
  s.completesClose seg = true ∧ took = s.takesLast payload

/-- What an event does to a session that is not closed. -/
inductive Outcome (c : Ctx) : Event → Ctx → Prop
  | segment {seg : Bytes} {took : Bool} {c₁ c₂ : Ctx}
      (h : Work took (TcpHeader.seq seg) (seg.drop (TcpHeader.dataOff seg)) c c₁)
      (he : Ending (hasFlag (TcpHeader.flags seg) TCP_RST = true ∨
        c.s.Completes seg (seg.drop (TcpHeader.dataOff seg)) took) c₁ c₂) :
      Outcome c (.segment seg) c₂
  | host {ev : HostEvent} {c₁ c₂ : Ctx} (h : Moves true c c₁) (he : Ending False c₁ c₂) :
      Outcome c (.host ev) c₂
  | tick {now : UInt32} {c₁ c₂ : Ctx} (h : Path c.view c₁.view)
      (he : Ending (c.s.state = .timeWait) c₁ c₂) : Outcome c (.tick now) c₂
  | windowUpdate {c' : Ctx} (h : Path c.view c'.view) : Outcome c .windowUpdate c'

end BaleVpn.Tcp
