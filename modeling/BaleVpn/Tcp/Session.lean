import BaleVpn.Net.Filter

/-!
# The TCP session: data model (`nat/tcp_session.rs`)

`TcpSession` with the fields of the source, grouped into the parts that the proofs frame against
each other: what the sender owns, what the receiver owns, what the handshake negotiated, the host
socket, and the loss-recovery and timer state (`Pacing`). The log throttle `last_stall_log_ms` and
the reactor token are left out: nothing but logging and the reactor reads them.

Everything outside the session reaches it through an `Oracle`: the readings of `now_ms()`, the
answers of the emit callback, the results of the host socket's calls. What the session does to the
outside is appended to the `trace`. Integers are the source's own widths, with the wrapping
arithmetic of the release build.
-/

namespace BaleVpn.Tcp

open Net

inductive TcpState
  | closed | listen | synSent | synRcvd | established
  | finWait1 | finWait2 | closeWait | closing | lastAck | timeWait
  deriving DecidableEq, Repr

/-! ## Constants -/

/-- The MSS advertised in the SYN-ACK. -/
def ownMss : UInt16 := 960

def toClientHighWater : ℕ := 256 * 1024

def toClientLowWater : ℕ := 128 * 1024

def maxOooBytes : ℕ := 256 * 1024

def globalRwndScaleFull : UInt16 := 1000

/-! ## Sequence and clock arithmetic -/

def seqLt (a b : UInt32) : Bool := (a - b).toInt32 < 0

def seqLe (a b : UInt32) : Bool := (a - b).toInt32 ≤ 0

def timeAfter (now deadline : UInt32) : Bool := (now - deadline).toInt32 ≥ 0

/-! ## Options -/

structure ParsedOpts where
  mss : UInt16 := 0
  sackOk : Bool := false
  wsOk : Bool := false
  wscale : UInt8 := 0
  tsPresent : Bool := false
  tsVal : UInt32 := 0
  tsEcr : UInt32 := 0
  deriving DecidableEq

/-- The option walk shared by `parse_options` and `parse_sack_blocks`: stop at EOL, at a missing or
too small length and at an option that runs past the end; skip NOPs; hand every other option, its
kind and length byte included, to `f`. Each round consumes a byte, so `opts.length` rounds do. -/
def walkOptions {σ : Type} (f : UInt8 → Bytes → σ → σ) : ℕ → Bytes → σ → σ
  | 0, _, r => r
  | _ + 1, [], r => r
  | fuel + 1, kind :: rest, r =>
    if kind == 0 then r
    else if kind == 1 then walkOptions f fuel rest r
    else match rest with
      | [] => r
      | olen :: _ =>
        if olen.toNat < 2 || olen.toNat > (kind :: rest).length then r
        else walkOptions f fuel ((kind :: rest).drop olen.toNat)
          (f kind ((kind :: rest).take olen.toNat) r)

/-- The `match kind` of `parse_options`. -/
def applyOption (kind : UInt8) (opt : Bytes) (r : ParsedOpts) : ParsedOpts :=
  if kind == 2 && opt.length == 4 then { r with mss := be16 (opt.drop 2) }
  else if kind == 3 && opt.length == 3 then
    { r with wsOk := true, wscale := min (opt.getD 2 0) 14 }
  else if kind == 4 && opt.length == 2 then { r with sackOk := true }
  else if kind == 8 && opt.length == 10 then
    { r with tsPresent := true, tsVal := be32 (opt.drop 2), tsEcr := be32 (opt.drop 6) }
  else r

def parseOptions (opts : Bytes) : ParsedOpts := walkOptions applyOption opts.length opts {}

/-! ## The session -/

/-- Outbound segment awaiting its ACK. -/
structure OutSeg where
  seq : UInt32
  flags : UInt8
  sentMs : UInt32
  retransmitted : Bool
  sacked : Bool
  data : Bytes
  options : Bytes
  deriving DecidableEq

/-- The sequence space a segment takes, SYN and FIN counting one each. -/
def OutSeg.span (e : OutSeg) : UInt32 :=
  e.data.length.toUInt32 + (if hasFlag e.flags TCP_SYN then 1 else 0) +
    (if hasFlag e.flags TCP_FIN then 1 else 0)

/-- Out-of-order ingress entry. -/
structure OooSeg where
  seq : UInt32
  data : Bytes
  deriving DecidableEq

/-- What the sender owns. -/
structure SendVars where
  sndUna : UInt32 := 0
  sndNxt : UInt32 := 0
  sndWnd : UInt32 := 0
  sentFin : Bool := false
  toClient : Bytes := []
  toClientOff : ℕ := 0
  deriving DecidableEq

/-- `to_client[to_client_off..to_client_off + chunk]`. -/
def SendVars.next (x : SendVars) (chunk : ℕ) : Bytes := (x.toClient.drop x.toClientOff).take chunk

/-- Bytes from the host appended to `to_client`, which is compacted first once half of it is sent. -/
def SendVars.push (x : SendVars) (data : Bytes) : SendVars :=
  if x.toClientOff > 0 && x.toClientOff ≥ x.toClient.length / 2 then
    { x with toClient := x.toClient.drop x.toClientOff ++ data, toClientOff := 0 }
  else { x with toClient := x.toClient ++ data }

/-- What the receiver owns. -/
structure RecvVars where
  rcvNxt : UInt32 := 0
  rcvWnd : UInt32 := 1024 * 1024
  toHost : Bytes := []
  toHostOff : ℕ := 0
  ooo : List OooSeg := []
  oooBytes : ℕ := 0

/-- Bytes appended to `to_host`, which is compacted first once half of it is written. -/
def RecvVars.push (x : RecvVars) (data : Bytes) : RecvVars :=
  if x.toHostOff > 0 && x.toHostOff ≥ x.toHost.length / 2 then
    { x with toHost := x.toHost.drop x.toHostOff ++ data, toHostOff := 0 }
  else { x with toHost := x.toHost ++ data }

/-- What the handshake negotiated. -/
structure PeerOpts where
  peerMss : UInt16 := 536
  peerSackOk : Bool := false
  peerWsOk : Bool := false
  peerWscale : UInt8 := 0
  ownWscale : UInt8 := 0
  peerTsOk : Bool := false
  deriving DecidableEq

/-- The host socket: whether it is open, and its flags. -/
structure HostVars where
  host : Bool := false
  hostReadEof : Bool := false
  hostWritable : Bool := false
  hostWrShut : Bool := false
  hostPollinPaused : Bool := false
  deriving DecidableEq

/-- RTT, congestion, recovery and timer state, with the advertised window and the timestamps. -/
structure Pacing where
  advWnd : UInt32 := 0
  tsRecent : UInt32 := 0
  tsClockBase : UInt32 := 0
  tsvalAtRto : UInt32 := 0
  cwndPreRto : UInt32 := 0
  ssthreshPreRto : UInt32 := 0
  curTsecrPresent : Bool := false
  curTsecr : UInt32 := 0
  sackedBytes : UInt32 := 0
  rtoMs : UInt32 := 250
  rtoDeadlineMs : UInt32 := 0
  rtoRetries : UInt8 := 0
  srtt : UInt32 := 0
  rttvar : UInt32 := 0
  rttInit : Bool := false
  cwnd : UInt32 := 0
  ssthresh : UInt32 := 0xFFFFFFFF
  lastAckSeen : UInt32 := 0
  dupAckCount : UInt8 := 0
  inRecovery : Bool := false
  recoveryPoint : UInt32 := 0
  lastHeadRetxMs : UInt32 := 0
  prrDelivered : UInt32 := 0
  prrOut : UInt32 := 0
  recoverFs : UInt32 := 0
  sackedAtSegmentStart : UInt32 := 0
  rackXmitTs : UInt32 := 0
  rackEndSeq : UInt32 := 0
  rackRtt : UInt32 := 0
  rackReoWnd : UInt32 := 0
  rackDsackSeen : Bool := false
  rackInited : Bool := false
  rackDeadlineMs : UInt32 := 0
  zwpDeadlineMs : UInt32 := 0
  zwpIntervalMs : UInt32 := 200
  tlpDeadlineMs : UInt32 := 0
  timeWaitDeadlineMs : UInt32 := 0

structure TcpSession extends SendVars, RecvVars, PeerOpts, HostVars, Pacing where
  key : FlowKey
  state : TcpState := .closed
  retx : List OutSeg := []

/-- `TcpSession::new`: the field defaults are the source's initial values. -/
def TcpSession.new (key : FlowKey) : TcpSession := { key }

namespace TcpSession

def isTerminal (s : TcpSession) : Bool := s.state == .closed

/-- `snd_nxt - snd_una`. -/
def flight (s : TcpSession) : UInt32 := s.sndNxt - s.sndUna

/-- Flight less the SACKed bytes, cut at zero. -/
def pipe (s : TcpSession) : UInt32 :=
  if s.flight > s.sackedBytes then s.flight - s.sackedBytes else 0

/-- Bytes of `to_client` not yet segmented. -/
def pending (s : TcpSession) : ℕ := s.toClient.length - s.toClientOff

/-- `to_host[to_host_off..]`. -/
def unwritten (s : TcpSession) : Bytes := s.toHost.drop s.toHostOff

end TcpSession

/-! ## The outside -/

/-- Which call site asked for a segment. -/
inductive Cause
  | synAck | data | limitedTransmit | fin | ack | zwpProbe | rst
  | lostRetx | fastRetx | partialRetx | rackRetx | tlpProbe | rtoRetx
  deriving DecidableEq, Repr

/-- Result of a host `write`: `Ok(n)` (at most the slice's length is taken) or an error kind. -/
inductive WriteRes
  | ok (n : ℕ) | wouldBlock | interrupted | err
  deriving DecidableEq, Repr

/-- Result of a host `read`: `Ok(n)` with the bytes read (`Ok(0)` is `ok []`) or an error kind. -/
inductive ReadRes
  | ok (data : Bytes) | wouldBlock | interrupted | err
  deriving DecidableEq, Repr

/-- Result of `take_error()`: `Ok(None)`, `Ok(Some(e))`, `Err(e)`. -/
inductive SoError
  | clear | pending | failed
  deriving DecidableEq, Repr

/-- What one event gets from the outside: the `n`-th clock reading, the answer of the `n`-th emit,
the host socket's results in call order (a list that runs out blocks), the result of `connect` and
the dispatcher's window scale. -/
structure Oracle where
  clock : ℕ → UInt32 := fun _ => 0
  accept : ℕ → Bool := fun _ => true
  writes : List WriteRes := []
  reads : List ReadRes := []
  soErrors : List SoError := []
  connect : Bool := true
  rwndScale : UInt16 := 1000

/-- What the session does, in order. `popRetx`, `enqueue`, `armRto`, `hostClosed` and `markClosed`
are internal steps the properties speak about; the rest is visible outside. -/
inductive Action
  /-- The emit callback got `pkt`, built from `b` in session state `s`, and answered `ok`. -/
  | emit (cause : Cause) (s : TcpSession) (b : TcpBuild) (pkt : Bytes) (ok : Bool)
  | armRto (deadline : UInt32)
  | popRetx (data : Bytes)
  | enqueue (data : Bytes)
  | write (data : Bytes)
  | writeZero
  | writeBlocked
  | writeErr
  | read (data : Bytes)
  | readEof
  | hostOpen
  | hostClosed
  | shutdownWr
  /-- The session dropped the host socket while in state `s`. -/
  | dropHost (s : TcpSession)
  | markClosed

/-- The outside during one event, with the readings and emits used so far and the whole trace. -/
structure Io where
  oracle : Oracle := {}
  readings : ℕ := 0
  emits : ℕ := 0
  trace : List Action := []

/-- A session and its outside. -/
structure Ctx where
  s : TcpSession
  io : Io := {}

namespace Ctx

def log (c : Ctx) (a : Action) : Ctx := { c with io.trace := c.io.trace ++ [a] }

def nowMs (c : Ctx) : UInt32 × Ctx :=
  (c.io.oracle.clock c.io.readings, { c with io.readings := c.io.readings + 1 })

def currentTsval (c : Ctx) : UInt32 × Ctx :=
  let (t, c) := c.nowMs
  (t - c.s.tsClockBase, c)

/-- The emit callback. -/
def emit (c : Ctx) (cause : Cause) (b : TcpBuild) (pkt : Bytes) : Bool × Ctx :=
  let ok := c.io.oracle.accept c.io.emits
  (ok, { c with io.emits := c.io.emits + 1 }.log (.emit cause c.s b pkt ok))

def takeError (c : Ctx) : SoError × Ctx :=
  (c.io.oracle.soErrors.headD .clear,
    { c with io.oracle.soErrors := c.io.oracle.soErrors.tail })

end Ctx

end BaleVpn.Tcp
