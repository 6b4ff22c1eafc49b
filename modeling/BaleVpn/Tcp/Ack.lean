import BaleVpn.Tcp.Emit

/-!
# ACK and SACK processing, loss recovery, timers (`nat/tcp_session.rs`)

`on_ack` is cut at its two branches, duplicate and new ACK, and each branch at the RFC step it
implements; `retransmit` and `sendChunk` are the code its emission paths share.
-/

namespace BaleVpn.Tcp

open Net

namespace Ctx

/-! ## Closing -/

def closeHostSocket (c : Ctx) : Ctx :=
  if c.s.host then ({ c with s.host := false } : Ctx).log (.dropHost c.s) else c

def markClosed (c : Ctx) : Ctx :=
  (({ c with s.state := .closed } : Ctx).log .markClosed).closeHostSocket

/-- `TimeWait` with its deadline, every other timer off. -/
def toTimeWait (c : Ctx) (now : UInt32) : Ctx :=
  { c with
    s.state := .timeWait
    s.timeWaitDeadlineMs := now + 30000
    s.rtoDeadlineMs := 0
    s.rackDeadlineMs := 0
    s.tlpDeadlineMs := 0
    s.zwpDeadlineMs := 0 }

def enterTimeWait (c : Ctx) (now : UInt32) : Ctx := (c.toTimeWait now).closeHostSocket

/-- The abort paths: RST to the client, then `mark_closed`. -/
def abort (c : Ctx) : Ctx := (c.emitRst c.s.sndNxt c.s.rcvNxt).markClosed

/-! ## SACK blocks -/

/-- Entries a SACK block newly covers. -/
def sackHits (left right : UInt32) (e : OutSeg) : Bool :=
  !e.sacked && !seqLt e.seq left && !seqLt right (e.seq + e.data.length.toUInt32)

def onSackBlock (c : Ctx) (left right : UInt32) : Ctx :=
  let (now, c) := c.nowMs
  let hits := c.s.retx.filter (sackHits left right)
  let c := { c with
    s.retx := c.s.retx.map fun e => if sackHits left right e then { e with sacked := true } else e
    s.sackedBytes := hits.foldl (fun n (e : OutSeg) => n + e.data.length.toUInt32) c.s.sackedBytes }
  { c with
    s.toPacing := hits.foldl
      (fun (p : Pacing) (e : OutSeg) =>
        p.rackUpdateFromDelivered e.sentMs (e.seq + e.data.length.toUInt32) now)
      c.s.toPacing }

/-- The blocks of one SACK option, eight bytes each; `first` marks the option's first block. -/
def sackBlocks : Bytes → Bool → Ctx → Ctx
  | a :: b :: c' :: d :: e :: f :: g :: h :: rest, first, c =>
    let left := be32 [a, b, c', d]
    let right := be32 [e, f, g, h]
    let c :=
      if seqLt left right then
        let c := if first && seqLt left c.s.sndUna then { c with s.rackDsackSeen := true } else c
        c.onSackBlock left right
      else c
    sackBlocks rest false c
  | _, _, c => c

def applySack (kind : UInt8) (opt : Bytes) (c : Ctx) : Ctx :=
  if kind == 5 && opt.length ≥ 10 && (opt.length - 2) % 8 == 0 then sackBlocks (opt.drop 2) true c
  else c

def parseSackBlocks (c : Ctx) (opts : Bytes) : Ctx :=
  if !c.s.peerSackOk then c else walkOptions applySack opts.length opts c

/-! ## RACK -/

inductive RackVerdict
  | skip | lost | wait (expiry : UInt32)

def rackVerdict (s : TcpSession) (now : UInt32) (e : OutSeg) : RackVerdict :=
  if e.sacked then .skip
  else if (e.sentMs - s.rackXmitTs).toInt32 > 0 then .skip
  else if !seqLt (e.seq + e.span) s.rackEndSeq then .skip
  else
    let expiry := e.sentMs + s.rackRtt + s.rackReoWnd
    if (now - expiry).toInt32 ≥ 0 then .lost else .wait expiry

/-- Indices of the segments deemed lost, and the earliest expiry of the others (`0` for none). -/
def rackScan (s : TcpSession) (now : UInt32) : List ℕ × UInt32 :=
  s.retx.zipIdx.foldl (fun (lost, next) (e, i) =>
    match rackVerdict s now e with
    | .skip => (lost, next)
    | .lost => (lost ++ [i], next)
    | .wait expiry =>
      (lost, if next == 0 || (expiry - next).toInt32 < 0 then expiry else next)) ([], 0)

/-- A segment deemed lost starts fast recovery unless one is under way. -/
def ensureRecovery (c : Ctx) : Ctx :=
  if !c.s.inRecovery then { c with s := c.s.enterFastRecovery } else c

def rackEmit (now : UInt32) : List ℕ → Bool → Ctx → Bool × Ctx
  | [], emitted, c => (emitted, c)
  | idx :: rest, emitted, c =>
    let (ok, c) := c.ensureRecovery.retransmit .rackRetx idx now
    if !ok then (emitted, c) else rackEmit now rest true c

/-- The timers after a scan: the next deadline, and the RTO anew if anything was retransmitted. -/
def rackFinish (now nextDeadline : UInt32) (r : Bool × Ctx) : Ctx :=
  let c := { r.2 with s.rackDeadlineMs := nextDeadline }
  if r.1 then ({ c with s.lastHeadRetxMs := now } : Ctx).scheduleRto now else c

def rackRetransmitLost (c : Ctx) (now : UInt32) : Ctx :=
  let scan := rackScan c.s now
  rackFinish now scan.2 (rackEmit now scan.1 false c)

def rackDetectLossAndArmTimer (c : Ctx) (now : UInt32) : Ctx :=
  if !c.s.rackInited || c.s.retx.isEmpty then { c with s.rackDeadlineMs := 0 }
  else ({ c with s.rackReoWnd := c.s.toPacing.rackComputeReoWnd } : Ctx).rackRetransmitLost now

/-! ## Duplicate ACKs -/

/-- The least time between two retransmissions of the head. -/
def headRetxGap (s : TcpSession) : UInt32 := if s.rttInit then max (s.srtt / 16) 50 else 50

/-- RFC 6675 rate-limited retransmission of a head deemed lost again. -/
def lostRetx (c : Ctx) (now : UInt32) : Ctx :=
  let headSacked := (c.s.retx.head?.map (·.sacked)).getD true
  if !headSacked && c.s.sackedBytes ≥ 3 * c.s.peerMss.toUInt32 then
    if (now - c.s.lastHeadRetxMs).toInt32 ≥ (headRetxGap c.s).toInt32 then
      (({ c with s.lastHeadRetxMs := now } : Ctx).retransmit .lostRetx 0 now).2
    else c
  else c

/-- First transmission of the next `chunk` bytes of `to_client`, as both senders do it: the queue
and `snd_nxt` move only when the callback took the segment. -/
def sendChunk (c : Ctx) (cause : Cause) (chunk : ℕ) : Bool × Ctx :=
  let src := c.s.toSendVars.next chunk
  let (ok, c) := c.emitSegment cause (TCP_ACK ||| TCP_PSH) c.s.sndNxt src true []
  if ok then
    (true, { c with
      s.sndNxt := c.s.sndNxt + chunk.toUInt32
      s.toClientOff := c.s.toClientOff + chunk })
  else (false, c)

/-- RFC 3042 Limited Transmit. -/
def limitedTransmit (c : Ctx) : Ctx :=
  if c.s.dupAckCount ≤ 2 && c.s.toClientOff < c.s.toClient.length then
    if c.s.flight < c.s.sndWnd then
      let avail := (c.s.sndWnd - c.s.flight).toNat
      let chunk := min (min c.s.peerMss.toNat c.s.pending) avail
      if chunk > 0 then (c.sendChunk .limitedTransmit chunk).2 else c
    else c
  else c

def fastRetransmit (c : Ctx) (now : UInt32) : Ctx :=
  if c.s.dupAckCount == 3 && !c.s.retx.isEmpty then
    let c := (({ c with s := c.s.enterFastRecovery } : Ctx).retransmit .fastRetx 0 now).2
    ({ c with s.dupAckCount := 0, s.lastHeadRetxMs := now } : Ctx).scheduleRto now
  else c

def onDupAck (c : Ctx) (ackNo now : UInt32) : Ctx :=
  if ackNo == c.s.lastAckSeen && !c.s.retx.isEmpty then
    if c.s.inRecovery then
      let c := c.lostRetx now
      let c := { c with s := c.s.updatePrrAfterAck c.s.sackedAtSegmentStart 0 }
      c.rackDetectLossAndArmTimer now
    else
      let c := { c with
        s.dupAckCount := if c.s.dupAckCount == 255 then 255 else c.s.dupAckCount + 1 }
      let c := c.limitedTransmit
      let c := c.fastRetransmit now
      c.rackDetectLossAndArmTimer now
  else c.rackDetectLossAndArmTimer now

/-! ## New ACKs -/

/-- RFC 3522 Eifel detection: an ACK of the original transmission undoes the RTO's reduction. -/
def eifelUndo (s : TcpSession) : TcpSession :=
  if s.tsvalAtRto != 0 && s.curTsecrPresent then
    let s :=
      if (s.curTsecr - s.tsvalAtRto).toInt32 < 0 then
        { s with cwnd := max s.cwnd s.cwndPreRto, ssthresh := max s.ssthresh s.ssthreshPreRto }
      else s
    { s with tsvalAtRto := 0 }
  else s

def growCwnd (s : TcpSession) (ackNo acked : UInt32) : TcpSession :=
  let s :=
    if s.inRecovery then
      if !seqLt ackNo s.recoveryPoint then
        { s with cwnd := s.ssthresh, inRecovery := false, recoveryPoint := 0 }
      else s
    else if s.cwnd < s.ssthresh then
      { s with cwnd := s.cwnd + min acked s.peerMss.toUInt32 }
    else
      let mss := s.peerMss.toUInt32
      { s with cwnd := s.cwnd + max (mss * 2 * mss / max s.cwnd mss) 1 }
  { s with cwnd := min s.cwnd (4 * 1024 * 1024) }

/-- RFC 7323 RTT sample from the echoed timestamp; tells whether it was taken. -/
def sampleTsRtt (c : Ctx) : Bool × Ctx :=
  if c.s.peerTsOk && c.s.curTsecrPresent then
    let (tsval, c) := c.currentTsval
    let rtt := tsval - c.s.curTsecr
    if rtt > 0 && rtt < 60000 then (true, { c with s.toPacing := c.s.toPacing.updateRtt rtt })
    else (false, c)
  else (false, c)

/-- What acknowledging `head` does to the pacing state. -/
def ackedPacing (p : Pacing) (head : OutSeg) (now : UInt32) (sampled : Bool) : Pacing :=
  let p := if !head.retransmitted && !sampled then p.updateRtt (now - head.sentMs) else p
  let p :=
    if !head.sacked then p.rackUpdateFromDelivered head.sentMs (head.seq + head.span) now else p
  if head.sacked then
    let len := head.data.length.toUInt32
    { p with sackedBytes := if p.sackedBytes ≥ len then p.sackedBytes - len else 0 }
  else p

/-- The retransmit-queue walk: pop every head that ends at or before `ackNo`. -/
def popAcked (ackNo now : UInt32) : List OutSeg → Bool → Ctx → Ctx
  | [], _, c => c
  | head :: rest, sampled, c =>
    if seqLe (head.seq + head.span) ackNo then
      let c := { c with
        s.toPacing := ackedPacing c.s.toPacing head now sampled
        s.retx := rest }
      popAcked ackNo now rest (sampled || !head.retransmitted) (c.log (.popRetx head.data))
    else c

/-- NewReno step 5: retransmit the new head on a partial ACK. -/
def partialRetx (c : Ctx) (now : UInt32) : Ctx :=
  if c.s.inRecovery && !c.s.retx.isEmpty then
    (({ c with s.lastHeadRetxMs := now } : Ctx).retransmit .partialRetx 0 now).2
  else c

/-- The window and the duplicate count after an ACK of new data. -/
def noteNewAck (c : Ctx) (ackNo : UInt32) : Ctx :=
  { c with s := { growCwnd (eifelUndo c.s) ackNo (ackNo - c.s.sndUna) with
    lastAckSeen := ackNo, dupAckCount := 0 } }

/-- `snd_una` moves up, and PRR counts what was delivered. -/
def advanceUna (c : Ctx) (ackNo : UInt32) : Ctx :=
  let acked := ackNo - c.s.sndUna
  let s := { c.s with sndUna := ackNo, rtoRetries := 0 }
  { c with s := s.updatePrrAfterAck s.sackedAtSegmentStart acked }

/-- The RTO follows the RTT estimate, and the tail-loss probe is off. -/
def refreshRto (c : Ctx) : Ctx :=
  { c with
    s.rtoMs := if c.s.rttInit then c.s.toPacing.clampedRto else c.s.rtoMs
    s.tlpDeadlineMs := 0 }

def rearmRto (c : Ctx) (now : UInt32) : Ctx :=
  if !c.s.retx.isEmpty then c.scheduleRto now else { c with s.rtoDeadlineMs := 0 }

def onNewAck (c : Ctx) (ackNo now : UInt32) : Ctx :=
  let (tsSampled, c) := (c.noteNewAck ackNo).sampleTsRtt
  let c := (popAcked ackNo now c.s.retx tsSampled c).advanceUna ackNo
  ((c.rackDetectLossAndArmTimer now).refreshRto.partialRetx now).rearmRto now

def onAck (c : Ctx) (ackNo now : UInt32) : Ctx :=
  if seqLt c.s.sndNxt ackNo then c
  else if seqLe ackNo c.s.sndUna then c.onDupAck ackNo now
  else c.onNewAck ackNo now

/-! ## Timers -/

/-- The last entry that is not SACKed, scanning from the back. -/
def tlpTarget (retx : List OutSeg) : Option ℕ :=
  (retx.zipIdx.reverse.find? fun (e, _) => !e.sacked).map (·.2)

def fireTlp (c : Ctx) (now : UInt32) : Ctx :=
  let c := { c with s.tlpDeadlineMs := 0 }
  if c.s.retx.isEmpty || c.s.inRecovery then c
  else match tlpTarget c.s.retx with
    | none => c
    | some idx => (c.retransmit .tlpProbe idx now).2

/-- The congestion response to a timeout, with what an Eifel undo needs. -/
def rtoReduce (c : Ctx) (now : UInt32) : Ctx :=
  let (tsval, c) := c.currentTsval
  { c with
    s.cwndPreRto := c.s.cwnd
    s.ssthreshPreRto := c.s.ssthresh
    s.tsvalAtRto := tsval
    s.ssthresh := c.s.reducedSsthresh
    s.cwnd := c.s.peerMss.toUInt32
    s.inRecovery := false
    s.recoveryPoint := 0
    s.dupAckCount := 0
    s.tlpDeadlineMs := 0
    s.lastHeadRetxMs := now }

/-- `x.saturating_mul(2).min(60_000)`: the back-off of the RTO and of the probe interval. -/
def doubled (x : UInt32) : UInt32 :=
  min (if x.toNat * 2 ≥ 2 ^ 32 then 0xFFFFFFFF else x * 2) 60000

/-- The end of `rto_fire`: the ninth retry gives up. -/
def rtoRetry (c : Ctx) (now : UInt32) : Ctx :=
  let c := { c with s.rtoRetries := c.s.rtoRetries + 1 }
  if c.s.rtoRetries ≥ 9 then c.abort
  else ({ c with s.rtoMs := doubled c.s.rtoMs } : Ctx).scheduleRto now

def rtoFire (c : Ctx) (now : UInt32) : Ctx :=
  if c.s.retx.isEmpty then c else ((c.rtoReduce now).retransmit .rtoRetx 0 now).2.rtoRetry now

/-- The zero-window probe of `tick`: a bare ACK, then the interval doubles. -/
def fireZwp (c : Ctx) (now : UInt32) : Ctx :=
  let c := c.emitAck .zwpProbe
  { c with
    s.zwpIntervalMs := doubled c.s.zwpIntervalMs
    s.zwpDeadlineMs := now + doubled c.s.zwpIntervalMs }

/-- `tick` after the RTO: the RACK, TLP and zero-window timers. -/
def tickTimers (c : Ctx) (now : UInt32) : Ctx :=
  let c :=
    if c.s.rackDeadlineMs != 0 && timeAfter now c.s.rackDeadlineMs then
      c.rackDetectLossAndArmTimer now
    else c
  let c := if c.s.tlpDeadlineMs != 0 && timeAfter now c.s.tlpDeadlineMs then c.fireTlp now else c
  if c.s.zwpDeadlineMs != 0 && timeAfter now c.s.zwpDeadlineMs then c.fireZwp now else c

/-- `tick`. Its second look at `Closed`, after the RACK timer, is left out: that timer never closes
the session. -/
def tick (c : Ctx) (now : UInt32) : Bool × Ctx :=
  if c.s.state == .closed then (false, c)
  else
    let c := if c.s.rtoDeadlineMs != 0 && timeAfter now c.s.rtoDeadlineMs then c.rtoFire now else c
    if c.s.state == .closed then (false, c)
    else
      let c := c.tickTimers now
      if c.s.state == .timeWait && timeAfter now c.s.timeWaitDeadlineMs then (false, c.markClosed)
      else (true, c)

end Ctx

end BaleVpn.Tcp
