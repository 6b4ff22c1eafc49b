import BaleVpn.Tcp.Session

/-!
# Pacing and segment emission (`nat/tcp_session.rs`)

The RTT, RACK, PRR and timer updates, and `emit_segment` with the two callers that build their own
header, `emit_ack` and `emit_rst`.
-/

namespace BaleVpn.Tcp

open Net

/-! ## RTT, RACK, PRR -/

namespace Pacing

/-- `(srtt / 8 + rttvar.max(1)).max(200).min(60_000)`. -/
def clampedRto (p : Pacing) : UInt32 := min (max (p.srtt / 8 + max p.rttvar 1) 200) 60000

def updateRtt (p : Pacing) (sampleMs : UInt32) : Pacing :=
  let p :=
    if !p.rttInit then
      { p with srtt := sampleMs * 8, rttvar := sampleMs / 2 * 4, rttInit := true }
    else
      let err : Int := (sampleMs.toNat : Int) - (p.srtt.toNat / 8 : ℕ)
      { p with
        rttvar := p.rttvar - p.rttvar / 4 + err.natAbs.toUInt32
        srtt := p.srtt - p.srtt / 8 + sampleMs }
  { p with rtoMs := p.clampedRto }

def rackUpdateFromDelivered (p : Pacing) (sentMs endSeq now : UInt32) : Pacing :=
  if !p.rackInited then
    { p with
      rackInited := true, rackXmitTs := sentMs, rackEndSeq := endSeq, rackRtt := now - sentMs }
  else
    let newerTs := (sentMs - p.rackXmitTs).toInt32 > 0
    let sameTs := sentMs == p.rackXmitTs
    let laterSeq := seqLt p.rackEndSeq endSeq
    if newerTs || (sameTs && laterSeq) then
      { p with rackXmitTs := sentMs, rackEndSeq := endSeq, rackRtt := now - sentMs }
    else p

def rackComputeReoWnd (p : Pacing) : UInt32 :=
  if !p.rttInit then 50
  else
    let srttMs := max (p.srtt / 8) 1
    if p.rackDsackSeen then max (srttMs / 2) 1 else max (srttMs / 4) 1

end Pacing

namespace TcpSession

def updatePrrAfterAck (s : TcpSession) (prevSacked acked : UInt32) : TcpSession :=
  if !s.inRecovery then s
  else
    let deltaSacked : Int := (s.sackedBytes.toNat : Int) - prevSacked.toNat
    let deliveredSigned : Int := acked.toNat + deltaSacked
    let delivered : UInt32 := deliveredSigned.toNat.toUInt32
    let s := { s with prrDelivered := s.prrDelivered + delivered }
    let sndcnt : UInt32 :=
      if s.pipe > s.ssthresh then
        let rfs := (max s.recoverFs 1).toNat
        let intended := ((s.prrDelivered.toNat * s.ssthresh.toNat + rfs - 1) / rfs).toUInt32
        if intended > s.prrOut then intended - s.prrOut else 0
      else
        let diff : Int := (s.prrDelivered.toNat : Int) - s.prrOut.toNat
        let limit : Int := max diff delivered.toNat
        let ssLimit := limit.toNat.toUInt32 + s.peerMss.toUInt32
        let headroom := if s.ssthresh > s.pipe then s.ssthresh - s.pipe else 0
        min headroom ssLimit
    { s with cwnd := s.pipe + sndcnt }

/-- `((cwnd as u64 * 17 / 20) as u32).max(2 * peer_mss)`: the reduced threshold. -/
def reducedSsthresh (s : TcpSession) : UInt32 :=
  max (s.cwnd.toNat * 17 / 20).toUInt32 (2 * s.peerMss.toUInt32)

def enterFastRecovery (s : TcpSession) : TcpSession :=
  { s with
    ssthresh := s.reducedSsthresh
    recoverFs := max s.flight 1
    prrDelivered := 0
    prrOut := 0
    cwnd := s.pipe
    inRecovery := true
    recoveryPoint := s.sndNxt }

/-! ## Timers -/

def scheduleTlp (s : TcpSession) (now : UInt32) : TcpSession :=
  if s.inRecovery || s.retx.isEmpty then { s with tlpDeadlineMs := 0 }
  else
    let pto := if s.rttInit then s.srtt / 4 else 200
    { s with tlpDeadlineMs := now + min (max pto 10) s.rtoMs }

def updateZwp (s : TcpSession) (now : UInt32) : TcpSession :=
  if s.sndWnd == 0 && (!s.retx.isEmpty || s.toClientOff < s.toClient.length) then
    if s.zwpDeadlineMs == 0 then
      { s with zwpIntervalMs := max s.rtoMs 200, zwpDeadlineMs := now + max s.rtoMs 200 }
    else s
  else { s with zwpDeadlineMs := 0, zwpIntervalMs := 200 }

/-! ## Option bytes -/

/-- NOP, NOP and the 10-byte timestamp option. -/
def tsOption (tsval tsecr : UInt32) : Bytes := [1, 1, 8, 10] ++ putBe32 tsval ++ putBe32 tsecr

/-- Left and right edge of a SACK block. -/
def sackBlock (o : OooSeg) : Bytes := putBe32 o.seq ++ putBe32 (o.seq + o.data.length.toUInt32)

/-- `build_sack_option` into the 36-byte buffer of `emit_ack`, which every case fits. -/
def buildSackOption (s : TcpSession) : Bytes :=
  if !s.peerSackOk || s.ooo.isEmpty then []
  else
    let nBlocks := min s.ooo.length 4
    [1, 1, 5, (2 + 8 * nBlocks).toUInt8] ++ (s.ooo.take nBlocks).flatMap sackBlock

/-! ## The advertised window -/

/-- Bytes buffered towards the host, in order or not. -/
def buffered (s : TcpSession) : ℕ := (s.toHost.length - s.toHostOff) + s.oooBytes

/-- The window value of `emit_segment` before silly-window avoidance: free space, scaled by
`own_wscale` and by the dispatcher's global scale except on a SYN, at most `0xFFFF`. -/
def wireWindow (s : TcpSession) (flags : UInt8) (scale : UInt16) : UInt32 :=
  let avail := if s.buffered.toUInt32 ≥ s.rcvWnd then 0 else s.rcvWnd - s.buffered.toUInt32
  let isSyn := hasFlag flags TCP_SYN
  let scaled := if isSyn then avail else avail >>> s.ownWscale.toUInt32
  let throttled :=
    if isSyn || scale ≥ globalRwndScaleFull then scaled
    else (scaled.toNat * scale.toNat / globalRwndScaleFull.toNat).toUInt32
  min throttled 0xFFFF

/-- `adv_wnd` moves only to zero, down, or up by at least one MSS. -/
def advertise (s : TcpSession) (w : UInt32) : TcpSession :=
  if w == 0 || w < s.advWnd || w ≥ s.advWnd + s.peerMss.toUInt32 then { s with advWnd := w } else s

/-- The header fields of an outgoing segment; source and destination are the flow's, swapped. -/
def header (s : TcpSession) (flags : UInt8) (seq ack : UInt32) (window : UInt16)
    (options payload : Bytes) : TcpBuild :=
  { src := s.key.dst, dst := s.key.src, srcPort := s.key.dstPort, dstPort := s.key.srcPort
    seq, ack, flags, window, options, payload }

end TcpSession

/-! ## Emission -/

namespace Ctx

def scheduleRto (c : Ctx) (now : UInt32) : Ctx :=
  ({ c with s.rtoDeadlineMs := now + c.s.rtoMs } : Ctx).log (.armRto (now + c.s.rtoMs))

/-- The timestamp option goes on every segment but a SYN, once negotiated. -/
def combineOptions (c : Ctx) (flags : UInt8) (options : Bytes) : Bytes × Ctx :=
  if c.s.peerTsOk && !hasFlag flags TCP_SYN then
    let (tsval, c) := c.currentTsval
    (options ++ TcpSession.tsOption tsval c.s.tsRecent, c)
  else (options, c)

/-- PRR counts payload sent during recovery. -/
def countPrr (c : Ctx) (payload : Bytes) : Ctx :=
  if c.s.inRecovery && !payload.isEmpty then
    { c with s.prrOut := c.s.prrOut + payload.length.toUInt32 }
  else c

def pushRetx (c : Ctx) (e : OutSeg) : Ctx := { c with s.retx := c.s.retx ++ [e] }

def armIfIdle (c : Ctx) (now : UInt32) : Ctx :=
  if c.s.rtoDeadlineMs == 0 then c.scheduleRto now else c

def armTlp (c : Ctx) (flags : UInt8) (now : UInt32) : Ctx :=
  if !c.s.inRecovery && !hasFlag flags TCP_SYN then { c with s := c.s.scheduleTlp now } else c

/-- The `record_for_retx` tail of `emit_segment`. -/
def recordForRetx (c : Ctx) (flags : UInt8) (seq : UInt32) (payload options : Bytes) : Ctx :=
  let (sentMs, c) := c.nowMs
  let c := c.pushRetx
    { seq, flags, sentMs, retransmitted := false, sacked := false, data := payload, options }
  let (now, c) := c.nowMs
  (c.armIfIdle now).armTlp flags now

def emitSegment (c : Ctx) (cause : Cause) (flags : UInt8) (seq : UInt32) (payload : Bytes)
    (record : Bool) (options : Bytes) : Bool × Ctx :=
  let (combined, c) := c.combineOptions flags options
  let c := { c with s := c.s.advertise (c.s.wireWindow flags c.io.oracle.rwndScale) }
  let b := c.s.header flags seq c.s.rcvNxt c.s.advWnd.toUInt16 combined payload
  match buildTcp 1564 b with
  | none => (false, c)
  | some pkt =>
    let (ok, c) := c.emit cause b pkt
    if !ok then (false, c)
    else
      let c := c.countPrr payload
      (true, if record then c.recordForRetx flags seq payload options else c)

def emitAck (c : Ctx) (cause : Cause := .ack) : Ctx :=
  (c.emitSegment cause TCP_ACK c.s.sndNxt [] false c.s.buildSackOption).2

def emitRst (c : Ctx) (seq ack : UInt32) : Ctx :=
  let b := c.s.header (TCP_RST ||| TCP_ACK) seq ack 0 [] []
  match buildTcp 64 b with
  | none => c
  | some pkt => (c.emit .rst b pkt).2

/-- Retransmission as every loss path does it: mark the entry sent again at `now`, then emit it
without recording it anew. -/
def retransmit (c : Ctx) (cause : Cause) (idx : ℕ) (now : UInt32) : Bool × Ctx :=
  match c.s.retx[idx]? with
  | none => (false, c)
  | some e =>
    let c := { c with s.retx := c.s.retx.set idx { e with retransmitted := true, sentMs := now } }
    c.emitSegment cause e.flags e.seq e.data false e.options

end Ctx

end BaleVpn.Tcp
