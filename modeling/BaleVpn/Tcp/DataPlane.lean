import BaleVpn.Tcp.Ack

/-!
# Data plane (`nat/tcp_session.rs`)

Client to host: `handle_data_in` with its out-of-order queue and the write side of the host socket.
Host to client: `try_segment_and_emit`. The reactor interest that `refresh_host_interest` sets is
not session state and is left out.
-/

namespace BaleVpn.Tcp

open Net

namespace Ctx

/-! ## Client to host -/

/-- The host's `write` took `n` bytes, or all there were. -/
def hostTook (c : Ctx) (n : ℕ) : Ctx :=
  let taken := c.s.unwritten.take n
  ({ c with s.toHostOff := c.s.toHostOff + taken.length } : Ctx).log (.write taken)

def hostBlocked (c : Ctx) : Ctx := ({ c with s.hostWritable := false } : Ctx).log .writeBlocked

/-- The write loop of `try_drain_to_host`; `false` when it returned without reaching its end. -/
def drainLoop : List WriteRes → Ctx → Bool × Ctx
  | [], c => if c.s.toHostOff < c.s.toHost.length then (false, c.hostBlocked) else (true, c)
  | w :: ws, c =>
    if c.s.toHostOff < c.s.toHost.length then
      let c := { c with io.oracle.writes := ws }
      match w with
      | .ok 0 => (true, c.log .writeZero)
      | .ok (n + 1) => drainLoop ws (c.hostTook (n + 1))
      | .wouldBlock => (false, c.hostBlocked)
      | .interrupted => drainLoop ws c
      | .err => (false, (c.log .writeErr).abort)
    else (true, c)

def clearToHost (c : Ctx) : Ctx := { c with s.toHost := [], s.toHostOff := 0 }

def tryDrainToHost (c : Ctx) : Ctx :=
  if !c.s.host then c
  else if !c.s.hostWritable then c
  else
    let (done, c) := drainLoop c.io.oracle.writes c
    if done then c.clearToHost else c

/-- `data` appended to `to_host`, which is compacted first once half of it is written. -/
def appendToHost (c : Ctx) (data : Bytes) : Ctx :=
  ({ c with s.toRecvVars := c.s.toRecvVars.push data } : Ctx).log (.enqueue data)

def enqueueToHost (c : Ctx) (data : Bytes) : Ctx :=
  let c := c.appendToHost data
  if c.s.hostWritable then c.tryDrainToHost else c

def popOoo (c : Ctx) (head : OooSeg) (rest : List OooSeg) : Ctx :=
  { c with s.oooBytes := c.s.oooBytes - head.data.length, s.ooo := rest }

def setRcvNxt (c : Ctx) (seq : UInt32) : Ctx := { c with s.rcvNxt := seq }

/-- `deliver_ooo`, on the queue it walks. -/
def deliverOoo : List OooSeg → Ctx → Ctx
  | [], c => c
  | head :: rest, c =>
    let tail := head.seq + head.data.length.toUInt32
    if !seqLt c.s.rcvNxt tail then
      deliverOoo rest (c.popOoo head rest)
    else if seqLt c.s.rcvNxt head.seq then c
    else
      let skip := (c.s.rcvNxt - head.seq).toNat
      deliverOoo rest (((c.popOoo head rest).enqueueToHost (head.data.drop skip)).setRcvNxt tail)

def storeOoo (c : Ctx) (seq : UInt32) (data : Bytes) : Ctx :=
  if data.isEmpty then c
  else if c.s.oooBytes + data.length > maxOooBytes then c
  else
    let pos := c.s.ooo.findIdx fun o => !seqLt o.seq seq
    let before := c.s.ooo.take pos
    let after := c.s.ooo.drop pos
    if before.getLast?.any fun prev => seqLt seq (prev.seq + prev.data.length.toUInt32) then c
    else if after.head?.any fun next => seqLt next.seq (seq + data.length.toUInt32) then c
    else { c with
      s.ooo := before ++ ⟨seq, data⟩ :: after
      s.oooBytes := c.s.oooBytes + data.length }

/-- The end of `handle_data_in`, after trimming. -/
def acceptData (c : Ctx) (seq : UInt32) (data : Bytes) : Ctx :=
  if seq == c.s.rcvNxt then
    let c := c.enqueueToHost data
    let c := c.setRcvNxt (c.s.rcvNxt + data.length.toUInt32)
    deliverOoo c.s.ooo c
  else c.storeOoo seq data

/-- `handle_data_in`; its callers ignore the result it returns. -/
def handleDataIn (c : Ctx) (seq : UInt32) (data : Bytes) : Ctx :=
  if data.isEmpty then c
  else if !seqLt c.s.rcvNxt (seq + data.length.toUInt32) then c
  else if seqLt seq c.s.rcvNxt then
    let skip := (c.s.rcvNxt - seq).toNat
    if skip ≥ data.length then c
    else c.acceptData (seq + skip.toUInt32) (data.drop skip)
  else c.acceptData seq data

/-! ## Host to client -/

def noteFinSent (c : Ctx) : Ctx := { c with s.sentFin := true }

/-- `snd_nxt` and the state after the FIN. -/
def advanceFin (c : Ctx) : Ctx :=
  { c with
    s.sndNxt := c.s.sndNxt + 1
    s.state := if c.s.state == .closeWait then .lastAck else .finWait1 }

/-- The FIN the session sends once the host is done; whether the callback took it is not looked at. -/
def sendFin (c : Ctx) : Ctx :=
  (c.noteFinSent.emitSegment .fin (TCP_FIN ||| TCP_ACK) c.s.sndNxt [] true []).2.advanceFin

/-- The segmenting loop; every round sends at least a byte, so `pending` rounds do. -/
def segmentLoop : ℕ → Ctx → Ctx
  | 0, c => c
  | fuel + 1, c =>
    if c.s.toClientOff < c.s.toClient.length then
      let effWnd := min c.s.sndWnd c.s.cwnd
      if c.s.pipe ≥ effWnd then c
      else
        let avail := (effWnd - c.s.pipe).toNat
        let chunk := min (min c.s.peerMss.toNat c.s.pending) avail
        if chunk == 0 then c
        else
          let (ok, c) := c.sendChunk .data chunk
          if ok then segmentLoop fuel c else c
    else c

/-- States in which the host's end of stream makes the session send its FIN. -/
def canFin (s : TcpSession) : Bool := s.state == .established || s.state == .closeWait

/-- Reading from the host resumes below the low-water mark. -/
def resumeReads (c : Ctx) : Ctx :=
  if c.s.hostPollinPaused && c.s.host && c.s.pending < toClientLowWater then
    { c with s.hostPollinPaused := false }
  else c

/-- A drained `to_client` is cleared, and followed by the FIN if the host is done. -/
def finishToClient (c : Ctx) : Ctx :=
  if c.s.toClientOff ≥ c.s.toClient.length then
    let c := { c with s.toClient := [], s.toClientOff := 0 }
    if c.s.hostReadEof && !c.s.sentFin && canFin c.s then c.sendFin else c
  else c

def trySegmentAndEmit (c : Ctx) : Ctx := (segmentLoop c.s.pending c).resumeReads.finishToClient

end Ctx

end BaleVpn.Tcp
