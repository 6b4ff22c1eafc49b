import BaleVpn.Tcp.DataPlane

/-!
# Inbound segments (`nat/tcp_session.rs`)

`on_segment`, the handshake and the handler of each state.
-/

namespace BaleVpn.Tcp

open Net

/-! ## Handshake -/

/-- The options of the peer's SYN; a window scale above 14 counts as 14. -/
def PeerOpts.negotiate (p : PeerOpts) (r : ParsedOpts) : PeerOpts :=
  { p with
    peerMss := if r.mss != 0 then r.mss else p.peerMss
    peerSackOk := if r.sackOk then true else p.peerSackOk
    peerWsOk := if r.wsOk then true else p.peerWsOk
    peerWscale := if r.wsOk then min r.wscale 14 else p.peerWscale
    peerTsOk := if r.tsPresent then true else p.peerTsOk }

/-- Our MSS bounds the peer's, and window scaling is on if the peer offers it. -/
def PeerOpts.clamp (p : PeerOpts) : PeerOpts :=
  { p with
    peerMss := min p.peerMss ownMss
    ownWscale := if p.peerWsOk then 4 else p.ownWscale }

namespace Ctx

/-- The peer's timestamp, if its SYN carries one, starts our timestamp clock. -/
def startTimestamps (c : Ctx) (r : ParsedOpts) : Ctx :=
  if r.tsPresent then
    let (n, c) := c.nowMs
    { c with s.tsRecent := r.tsVal, s.tsClockBase := n }
  else c

def negotiate (c : Ctx) (r : ParsedOpts) : Ctx :=
  ({ c with s.toPeerOpts := c.s.toPeerOpts.negotiate r } : Ctx).startTimestamps r

def synAckOptions (c : Ctx) : Bytes × Ctx :=
  let opts : Bytes := [2, 4, (ownMss >>> 8).toUInt8, ownMss.toUInt8]
  let opts := if c.s.peerSackOk then opts ++ [1, 1, 4, 2] else opts
  let opts := if c.s.peerWsOk then opts ++ [1, 3, 3, c.s.ownWscale] else opts
  if c.s.peerTsOk then
    let (tsval, c) := c.currentTsval
    (opts ++ TcpSession.tsOption tsval c.s.tsRecent, c)
  else (opts, c)

/-- The sequence numbers of a connection start: the peer's from its SYN, ours from the clock. -/
def initSequence (c : Ctx) (seg : Bytes) : Ctx :=
  let (isn, c) := c.nowMs
  { c with s.rcvNxt := TcpHeader.seq seg + 1, s.sndUna := isn, s.sndNxt := isn }

def readSyn (c : Ctx) (seg : Bytes) : Ctx :=
  let hdr := TcpHeader.dataOff seg
  let c := c.initSequence seg
  if hdr > 20 then c.negotiate (parseOptions ((seg.take hdr).drop 20)) else c

def prepareSyn (c : Ctx) (seg : Bytes) : Ctx :=
  let c := c.readSyn seg
  let c := { c with s.toPeerOpts := c.s.toPeerOpts.clamp }
  { c with
    s.cwnd := 10 * c.s.peerMss.toUInt32
    s.sndWnd := (TcpHeader.window seg).toUInt32
    s.state := .synRcvd }

/-- The SYN-ACK; whether the callback took it is not looked at. -/
def sendSynAck (c : Ctx) (opts : Bytes) : Ctx :=
  let c := (c.emitSegment .synAck (TCP_SYN ||| TCP_ACK) c.s.sndUna [] true opts).2
  let c := { c with s.sndNxt := c.s.sndUna + 1 }
  c.nowMs.2.scheduleRto c.nowMs.1

def acceptInitialSyn (c : Ctx) (seg : Bytes) : Bool × Ctx :=
  let f := TcpHeader.flags seg
  if !hasFlag f TCP_SYN || hasFlag f TCP_ACK then (false, c)
  else
    let (opts, c) := (c.prepareSyn seg).synAckOptions
    (true, c.sendSynAck opts)

/-- `open_host_socket`: refused for a non-IPv4 or blocked destination and when `connect` fails. -/
def openHostSocket (c : Ctx) : Bool × Ctx :=
  if !c.s.key.dst.isV4 then (false, c)
  else if isBlockedV4 c.s.key.dst.toIpv4 then (false, c)
  else if !c.io.oracle.connect then (false, c)
  else (true, ({ c with s.host := true, s.hostWritable := false } : Ctx).log .hostOpen)

/-! ## States -/

/-- `snd_wnd = (wnd as u32) << peer_wscale`. -/
def setSndWnd (c : Ctx) (wnd : UInt16) : Ctx :=
  { c with s.sndWnd := wnd.toUInt32 <<< c.s.peerWscale.toUInt32 }

def takePayload (c : Ctx) (seq : UInt32) (payload : Bytes) : Ctx :=
  if payload.isEmpty then c else (c.handleDataIn seq payload).emitAck

/-- The in-order test of a FIN: the segment started at `rcv_nxt` (`inOrder`, taken before its
payload) and ends there now. -/
def finInOrder (c : Ctx) (inOrder : Bool) (seq : UInt32) (payload : Bytes) : Bool :=
  inOrder && seq + payload.length.toUInt32 == c.s.rcvNxt

def refreshZwp (c : Ctx) : Ctx :=
  let (n, c) := c.nowMs
  { c with s := c.s.updateZwp n }

def ackIfFlagged (c : Ctx) (flags : UInt8) (ack : UInt32) : Ctx :=
  let (n, c) := c.nowMs
  if hasFlag flags TCP_ACK then c.onAck ack n else c

def shutdownWr (c : Ctx) : Ctx := ({ c with s.hostWrShut := true } : Ctx).log .shutdownWr

/-- The FIN part of `process_syn_rcvd`. -/
def synRcvdFin (c : Ctx) (inOrder : Bool) (seq : UInt32) (payload : Bytes) : Ctx :=
  if c.finInOrder inOrder seq payload then
    ({ c with s.rcvNxt := c.s.rcvNxt + 1, s.state := .closeWait } : Ctx).emitAck
  else c.emitAck

/-- The end of `process_syn_rcvd`, once the host socket is open. -/
def synRcvdOpened (c : Ctx) (flags : UInt8) (seq : UInt32) (payload : Bytes) : Ctx :=
  let inOrder := seq == c.s.rcvNxt
  let c := c.takePayload seq payload
  let c := if hasFlag flags TCP_FIN then c.synRcvdFin inOrder seq payload else c
  c.refreshZwp

def processSynRcvd (c : Ctx) (flags : UInt8) (seq ack : UInt32) (wnd : UInt16) (payload : Bytes) :
    Ctx :=
  if !hasFlag flags TCP_ACK then c
  else if ack != c.s.sndNxt then c
  else
    let (n, c) := c.nowMs
    let c := (c.onAck ack n).setSndWnd wnd
    let (ok, c) := ({ c with s.state := .established } : Ctx).openHostSocket
    if !ok then c.abort else c.synRcvdOpened flags seq payload

def shutdownIfDrained (c : Ctx) : Ctx :=
  if c.s.host && !c.s.hostWrShut && c.s.toHostOff ≥ c.s.toHost.length then c.shutdownWr else c

/-- The FIN part of `process_established`. -/
def establishedFin (c : Ctx) (inOrder : Bool) (seq : UInt32) (payload : Bytes) : Ctx :=
  if c.finInOrder inOrder seq payload then
    let c := ({ c with s.rcvNxt := c.s.rcvNxt + 1, s.state := .closeWait } : Ctx).emitAck
    c.tryDrainToHost.shutdownIfDrained
  else c.emitAck

def processEstablished (c : Ctx) (flags : UInt8) (seq ack : UInt32) (wnd : UInt16)
    (payload : Bytes) : Ctx :=
  let c := (c.ackIfFlagged flags ack).setSndWnd wnd
  let inOrder := seq == c.s.rcvNxt
  let c := c.takePayload seq payload
  let c := if hasFlag flags TCP_FIN then c.establishedFin inOrder seq payload else c
  c.trySegmentAndEmit.refreshZwp

def processCloseWait (c : Ctx) (flags : UInt8) (ack : UInt32) (wnd : UInt16) : Ctx :=
  let c := (c.ackIfFlagged flags ack).setSndWnd wnd
  let c := if hasFlag flags TCP_FIN then c.emitAck else c
  c.trySegmentAndEmit.refreshZwp

/-- Our FIN is acknowledged when nothing is left between `snd_una` and `snd_nxt`. -/
def ourFinAcked (c : Ctx) : Bool := !seqLt c.s.sndUna c.s.sndNxt

/-- The close of `FinWait1` after the payload: the peer's FIN, or the ACK of ours. -/
def finWait1Close (c : Ctx) (flags : UInt8) (inOrder : Bool) (seq : UInt32) (payload : Bytes) :
    Ctx :=
  let finAcked := c.ourFinAcked
  if hasFlag flags TCP_FIN then
    if c.finInOrder inOrder seq payload then
      let c := ({ c with s.rcvNxt := c.s.rcvNxt + 1 } : Ctx).emitAck
      if finAcked then c.nowMs.2.enterTimeWait c.nowMs.1 else { c with s.state := .closing }
    else c
  else if finAcked then { c with s.state := .finWait2 }
  else c

def processFinWait1 (c : Ctx) (flags : UInt8) (seq ack : UInt32) (wnd : UInt16)
    (payload : Bytes) : Ctx :=
  let c := (c.ackIfFlagged flags ack).setSndWnd wnd
  let inOrder := seq == c.s.rcvNxt
  ((c.takePayload seq payload).finWait1Close flags inOrder seq payload).refreshZwp

/-- The peer's FIN in `FinWait2`. -/
def finWait2Close (c : Ctx) (flags : UInt8) (inOrder : Bool) (seq : UInt32) (payload : Bytes) :
    Ctx :=
  if hasFlag flags TCP_FIN && c.finInOrder inOrder seq payload then
    let c := ({ c with s.rcvNxt := c.s.rcvNxt + 1 } : Ctx).emitAck
    c.nowMs.2.enterTimeWait c.nowMs.1
  else c

def processFinWait2 (c : Ctx) (flags : UInt8) (seq : UInt32) (wnd : UInt16) (payload : Bytes) :
    Ctx :=
  let c := c.setSndWnd wnd
  let inOrder := seq == c.s.rcvNxt
  ((c.takePayload seq payload).finWait2Close flags inOrder seq payload).refreshZwp

def processClosing (c : Ctx) (flags : UInt8) (ack : UInt32) : Ctx :=
  let c := c.ackIfFlagged flags ack
  if c.ourFinAcked then c.nowMs.2.enterTimeWait c.nowMs.1 else c

def processLastAck (c : Ctx) (flags : UInt8) (ack : UInt32) : Ctx :=
  if hasFlag flags TCP_ACK then
    let c := c.nowMs.2.onAck ack c.nowMs.1
    if c.ourFinAcked then c.markClosed else c
  else c

def processTimeWait (c : Ctx) (flags : UInt8) : Ctx :=
  if hasFlag flags TCP_FIN then
    let c := c.emitAck
    let (n, c) := c.nowMs
    { c with s.timeWaitDeadlineMs := n + 30000 }
  else c

/-! ## Dispatch -/

/-- The echoed timestamp of a segment, and `ts_recent` when the segment is in order. -/
def noteTimestamps (c : Ctx) (opts : Bytes) (seq : UInt32) : Ctx :=
  let c := { c with s.curTsecrPresent := false, s.curTsecr := 0 }
  if c.s.peerTsOk && !opts.isEmpty then
    let r := parseOptions opts
    if r.tsPresent then
      let c := { c with s.curTsecrPresent := true, s.curTsecr := r.tsEcr }
      if seq == c.s.rcvNxt then { c with s.tsRecent := r.tsVal } else c
    else c
  else c

def dispatchState (c : Ctx) (flags : UInt8) (seq ack : UInt32) (wnd : UInt16) (payload : Bytes) :
    Ctx :=
  match c.s.state with
  | .synRcvd => c.processSynRcvd flags seq ack wnd payload
  | .established => c.processEstablished flags seq ack wnd payload
  | .closeWait => c.processCloseWait flags ack wnd
  | .finWait1 => c.processFinWait1 flags seq ack wnd payload
  | .finWait2 => c.processFinWait2 flags seq wnd payload
  | .closing => c.processClosing flags ack
  | .lastAck => c.processLastAck flags ack
  | .timeWait => c.processTimeWait flags
  | _ => c

/-- The part of `on_segment` before its dispatch on the state. -/
def preprocess (c : Ctx) (opts : Bytes) (seq : UInt32) : Ctx :=
  let c := { c with s.sackedAtSegmentStart := c.s.sackedBytes }
  let c := if c.s.peerSackOk && !opts.isEmpty then c.parseSackBlocks opts else c
  c.noteTimestamps opts seq

def onSegment (c : Ctx) (seg : Bytes) : Bool × Ctx :=
  if seg.length < 20 then (false, c)
  else
    let hdr := TcpHeader.dataOff seg
    if hdr < 20 || hdr > seg.length then (false, c)
    else
      let flags := TcpHeader.flags seg
      let seq := TcpHeader.seq seg
      let c := c.preprocess ((seg.take hdr).drop 20) seq
      if hasFlag flags TCP_RST then
        -- RFC 5961 section 3.2: a RST counts inside the window, and always before synchronization.
        if c.s.state == .synRcvd || c.s.state == .closed || seq - c.s.rcvNxt < c.s.rcvWnd then
          (true, c.markClosed)
        else (true, c)
      else if c.s.state == .closed then c.acceptInitialSyn seg
      else
        (true, c.dispatchState flags seq (TcpHeader.ack seg) (TcpHeader.window seg) (seg.drop hdr))

end Ctx

end BaleVpn.Tcp
