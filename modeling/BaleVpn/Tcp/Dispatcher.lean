import BaleVpn.Tcp.Run

/-!
# The session table (`nat/dispatcher.rs`)

`NatDispatcher` on the table of TCP sessions: `handle_tcp`, the host-socket events of the reactor and
the TCP part of `sweep_idle`. Packet counters and the log are left out.
-/

namespace BaleVpn.Tcp

open Net

/-- `tcp: HashMap<FlowKey, Box<TcpSession>>`, each session with its outside. -/
abbrev TcpTable := FlowKey → Option Ctx

def TcpTable.set (t : TcpTable) (k : FlowKey) (e : Option Ctx) : TcpTable :=
  fun k' => if k' = k then e else t k'

@[simp] theorem TcpTable.set_same (t : TcpTable) (k : FlowKey) (e : Option Ctx) :
    t.set k e k = e := by simp [TcpTable.set]

/-- The session of `k` takes the segment and leaves the table once it is terminal. -/
def TcpTable.deliver (t : TcpTable) (k : FlowKey) (seg : Bytes) (c : Ctx) : Bool × TcpTable :=
  let (ok, c) := c.onSegment seg
  (ok, t.set k (if c.s.isTerminal then none else some c))

/-- `handle_tcp`, with the answers of the outside in `o`: only a pure SYN opens a session. -/
def handleTcp (t : TcpTable) (k : FlowKey) (seg : Bytes) (o : Oracle) : Bool × TcpTable :=
  if seg.length < 20 then (false, t)
  else match t k with
    | some c => t.deliver k seg (c.load o)
    | none =>
      if !hasFlag (TcpHeader.flags seg) TCP_SYN || hasFlag (TcpHeader.flags seg) TCP_ACK then (true, t)
      else t.deliver k seg (Ctx.load { s := .new k } o)

/-- A host-socket event reaches its session and leaves it in the table, whatever comes of it. -/
def TcpTable.onHostEvent (t : TcpTable) (k : FlowKey) (ev : HostEvent) (o : Oracle) : TcpTable :=
  match t k with
  | some c => t.set k (some ((c.load o).onHostEvent ev))
  | none => t

/-- A sweep on one session: the window update if the global scale grew, then its timers. -/
def sweepSession (now : UInt32) (grew : Bool) (o : Oracle) (c : Ctx) : Option Ctx :=
  let c := c.load o
  let (alive, c) := (if grew then c.fanOutWindowUpdate else c).tick now
  if alive then some c else none

def TcpTable.sweepIdle (t : TcpTable) (now : UInt32) (grew : Bool) (o : FlowKey → Oracle) : TcpTable :=
  fun k => (t k).bind (sweepSession now grew (o k))

inductive TableEvent
  | segment (k : FlowKey) (seg : Bytes) (o : Oracle)
  | host (k : FlowKey) (ev : HostEvent) (o : Oracle)
  | sweep (now : UInt32) (grew : Bool) (o : FlowKey → Oracle)

def TcpTable.step (t : TcpTable) : TableEvent → TcpTable
  | .segment k seg o => (handleTcp t k seg o).2
  | .host k ev o => t.onHostEvent k ev o
  | .sweep now grew o => t.sweepIdle now grew o

/-- The table after a run of the dispatcher. -/
def tableAfter (evs : List TableEvent) : TcpTable := evs.foldl TcpTable.step fun _ => none

theorem handleTcp_removes {t : TcpTable} {k : FlowKey} {c : Ctx} {seg : Bytes} {o : Oracle}
    (hlen : 20 ≤ seg.length) (hmem : t k = some c)
    (hclosed : ((c.load o).onSegment seg).2.s.state = .closed) :
    (handleTcp t k seg o).2 k = none := by
  unfold handleTcp
  rw [if_neg (Nat.not_lt.mpr hlen), hmem]
  simp only [TcpTable.deliver, TcpTable.set_same, TcpSession.isTerminal, hclosed]
  rfl

end BaleVpn.Tcp
