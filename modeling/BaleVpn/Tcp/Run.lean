import BaleVpn.Tcp.Segment

/-!
# Host events and runs (`nat/tcp_session.rs`)

The host-socket event handlers, the events that drive a session, and runs: a session starts with one
accepted SYN and takes events until it is `Closed`, when the dispatcher drops it (a SYN that finds
such a session still in the table opens a new connection, which is a new run).
-/

namespace BaleVpn.Tcp

open Net

/-- Readiness flags of a `mio` event. -/
structure HostEvent where
  isError : Bool := false
  isReadable : Bool := false
  isWritable : Bool := false
  isReadClosed : Bool := false
  isWriteClosed : Bool := false
  deriving DecidableEq, Repr

namespace Ctx

/-! ## Host socket events -/

def noteEof (c : Ctx) : Ctx := ({ c with s.hostReadEof := true } : Ctx).log .readEof

/-- `Ok(0)` from the host: end of its stream. -/
def hostEof (c : Ctx) : Ctx :=
  let c := c.noteEof
  if c.s.toClientOff ≥ c.s.toClient.length && !c.s.sentFin then c.sendFin else c

def pushToClient (c : Ctx) (data : Bytes) : Ctx :=
  ({ c with s.toSendVars := c.s.toSendVars.push data } : Ctx).log (.read data)

/-- The read loop of `on_host_readable`; `false` when a read error ended the session. A read fills
at most the 16 KiB buffer. -/
def readLoop : List ReadRes → Ctx → Bool × Ctx
  | [], c => (true, c)
  | r :: rs, c =>
    let c := { c with io.oracle.reads := rs }
    match r with
    | .ok [] => (true, c.hostEof)
    | .ok data =>
      let c := c.pushToClient (data.take (16 * 1024))
      if c.s.pending ≥ toClientHighWater then (true, { c with s.hostPollinPaused := true })
      else readLoop rs c
    | .wouldBlock => (true, c)
    | .interrupted => readLoop rs c
    | .err => (false, c.abort)

def onHostReadable (c : Ctx) : Ctx :=
  if !c.s.host then c
  else if c.s.hostPollinPaused then c
  else
    let (ok, c) := readLoop c.io.oracle.reads c
    if ok then c.trySegmentAndEmit.refreshZwp else c

/-- The first writable event asks `SO_ERROR` whether the connect succeeded. -/
def connectFailed (c : Ctx) : Bool × Ctx :=
  if !c.s.hostWritable && c.s.host then
    let (e, c) := c.takeError
    (e != .clear, c)
  else (false, c)

/-- `on_host_writable` on a connected socket. -/
def writableDrained (c : Ctx) : Ctx :=
  let c := ({ c with s.hostWritable := true } : Ctx).tryDrainToHost
  if c.s.toHostOff ≥ c.s.toHost.length && c.s.host && !c.s.hostWrShut &&
      (c.s.state == .closeWait || c.s.state == .lastAck) then c.shutdownWr
  else c

def onHostWritable (c : Ctx) : Ctx :=
  let (failed, c) := c.connectFailed
  if failed then c.abort else c.writableDrained

/-- `ev.is_error()` with an error to take from the socket. -/
def socketError (c : Ctx) (ev : HostEvent) : Bool × Ctx :=
  if ev.isError && c.s.host then
    let (e, c) := c.takeError
    (e == .pending, c)
  else (false, c)

def noteClosed (c : Ctx) : Ctx := ({ c with s.hostReadEof := true } : Ctx).log .hostClosed

/-- A closed socket: the host's end of stream, and the FIN if nothing is left to segment. -/
def hostClosedEvent (c : Ctx) : Ctx :=
  let c := c.noteClosed
  if !c.s.sentFin && c.s.toClientOff ≥ c.s.toClient.length && canFin c.s then c.sendFin else c

def onHostEvent (c : Ctx) (ev : HostEvent) : Ctx :=
  let (failed, c) := c.socketError ev
  if failed then c.abort
  else
    let c := if ev.isWritable then c.onHostWritable else c
    let c := if ev.isReadable then c.onHostReadable else c
    if ev.isReadClosed || ev.isWriteClosed then c.hostClosedEvent else c

/-- `fan_out_window_update`. -/
def fanOutWindowUpdate (c : Ctx) : Ctx :=
  match c.s.state with
  | .established | .closeWait | .finWait1 | .finWait2 => c.emitAck
  | _ => c

end Ctx

/-! ## Runs -/

inductive Event
  | segment (seg : Bytes)
  | host (ev : HostEvent)
  | tick (now : UInt32)
  | windowUpdate

/-- An event with what the outside answers while it is processed. -/
structure Input where
  event : Event
  oracle : Oracle

namespace Ctx

/-- Hand the session a fresh oracle. -/
def load (c : Ctx) (o : Oracle) : Ctx :=
  { c with io.oracle := o, io.readings := 0, io.emits := 0 }

def handle (c : Ctx) : Event → Ctx
  | .segment seg => (c.onSegment seg).2
  | .host ev => c.onHostEvent ev
  | .tick now => (c.tick now).2
  | .windowUpdate => c.fanOutWindowUpdate

/-- One event; a closed session takes no more. -/
def step (c : Ctx) (i : Input) : Ctx :=
  if c.s.state == .closed then c else (c.load i.oracle).handle i.event

def run (c : Ctx) (inputs : List Input) : Ctx := inputs.foldl step c

end Ctx

/-- The session of `key` after its first segment. -/
def start (key : FlowKey) (syn : Bytes) (o : Oracle) : Ctx :=
  ((Ctx.load { s := .new key } o).onSegment syn).2

/-- A TCP segment as a client of `key` sends it. -/
def clientSegment (key : FlowKey) (flags : UInt8) (seq ack : UInt32) (window : UInt16)
    (options payload : Bytes) : Bytes :=
  tcpBytes
    { src := key.src, dst := key.dst, srcPort := key.srcPort, dstPort := key.dstPort
      seq, ack, flags, window, options, payload } 0

/-- A flow from `10.8.0.2:5000` to `1.1.1.1:80`, for concrete runs. -/
def sampleKey : FlowKey :=
  ⟨.v4FromBytes 10 8 0 2, .v4FromBytes 1 1 1 1, 5000, 80, .tcp⟩

/-- The session of `sampleKey` after a SYN at 100 with the given window and options; the clock stands
at zero, which is then our initial sequence number. -/
def sampleStart (window : UInt16) (options : Bytes) : Ctx :=
  start sampleKey (clientSegment sampleKey TCP_SYN 100 0 window options []) {}

/-- The ACK that completes the handshake of `sampleStart`. -/
def sampleAck (window : UInt16) : Input :=
  ⟨.segment (clientSegment sampleKey TCP_ACK 101 1 window [] []), {}⟩

/-- `c₀` is the session of `key` right after an accepted SYN. The dispatcher cuts keys from parsed
packets, so they are IPv4 ones. -/
def Accepted (key : FlowKey) (c₀ : Ctx) : Prop :=
  key.IsV4 ∧ ∃ syn o, c₀ = start key syn o ∧ c₀.s.state = .synRcvd

/-- `c` is reached by a run of the session of `key` from one accepted SYN. -/
def Reachable (key : FlowKey) (c : Ctx) : Prop := ∃ c₀ inputs, Accepted key c₀ ∧ c = c₀.run inputs

end BaleVpn.Tcp
