import Mathlib.Data.List.Basic
import Mathlib.Data.Int.Notation
import Mathlib.Data.Nat.Notation

/-!
# The life of a tunnel (`lib.rs`, `quic_tunnel.rs`, `socks5_quic.rs`)

`LkTunnel` with everything that runs on its behalf: the connect task (`run_connect_task`, then
`run_tunnel_loop`), the sender task, SOCKS5 listeners and their connections, QUIC stream acceptors,
the QUIC keeper, and the calls of its API that are in progress. Each moves in atomic steps, one
access to the shared state at a time, in any order. A task that was aborted runs on to its next
`await`.

Two facts of `tokio` are part of the model. `watch::Sender::send` changes the value only while some
receiver is alive. `Weak::upgrade` fails once the last handle is gone (`alive`). What the engine
reports, which socket and handshake calls succeed and when connections come and go are inputs. The
packet path, the drain waiters and the engine's own shutdown are left out.
-/

namespace BaleVpn.Tunnel

/-! ## The shared state -/

inductive TunnelRole
  | client | server
  deriving DecidableEq, Repr

inductive TunnelState
  | connecting
  | connected
  | failed (msg : String)
  | disconnected
  deriving DecidableEq, Repr

def TunnelState.isTerminal : TunnelState → Bool
  | .failed _ | .disconnected => true
  | _ => false

inductive EventKind
  | connected | peerJoined | peerLeft | disconnected | error
  deriving DecidableEq, Repr

structure Event where
  kind : EventKind
  info : String
  deriving DecidableEq, Repr

inductive TaskStatus
  | running | aborted | finished
  deriving DecidableEq, Repr

/-- `AbortHandle::abort`. -/
def TaskStatus.abort : TaskStatus → TaskStatus
  | .running => .aborted
  | s => s

/-- The accept loop of a SOCKS5 listener and the connections it spawned; `accepted` between an
`accept` and the spawn of its connection. -/
structure Listener where
  status : TaskStatus := .running
  accepted : Bool := false
  conns : List TaskStatus := []
  deriving DecidableEq, Repr

/-- `abort_all_conns`. -/
def Listener.abortAllConns (l : Listener) : Listener := { l with conns := l.conns.map TaskStatus.abort }

/-! ## Program points -/

/-- The connect task. It awaits in `dialing`, `peerWait` and `mainLoop`. -/
inductive ConnectPc
  | dialing
  | dialFailed (msg : String) | dialError (msg : String) | dialGone
  | dialed | spawnSender | storeSender
  | peerWait
  | waitLost (msg : String) | waitGone (msg : String)
  | noPeer | noPeerError
  | joined | joinedState | joinedEvent | warm
  | mainLoop
  | loopExit | loopExitState
  | returned
  deriving DecidableEq, Repr

def ConnectPc.awaits : ConnectPc → Bool
  | .dialing | .peerWait | .mainLoop => true
  | _ => false

/-- `teardown`; `done` is the answer of its first test, `released` whether it went past it. -/
inductive TeardownPc
  | check
  | send (done : Bool)
  | pushEvent | disconnect | abortTask | abortSender | abortSocks5 | abortQuicServer
  | dropQuicClient | clearQuicRx | takeNat | takeTun | takeEngine
  | returned (released : Bool)
  deriving DecidableEq, Repr

/-- `ensure_quic_acceptor`. -/
inductive AcceptorPc
  | checkSlot | claim | build
  | store (i : ℕ)
  | returned
  deriving DecidableEq, Repr

/-- A call of the API, with where it stands. -/
inductive Call
  | teardown (pc : TeardownPc)
  | startServer
  | startServerInstall
  | attachTun (fd : ℤ)
  | attachTunPrecheck
  | attachTunInstall
  /-- `start_server` or `attach_tun` in `ensure_quic_acceptor`, or returned. -/
  | acceptor (pc : AcceptorPc)
  | enableSocks5
  | enableSocks5Bind
  | enableSocks5Store (i : ℕ)
  | enableSocks5Returned
  | ensureQuic
  | ensureQuicLock | ensureQuicRecheck | ensureQuicConnected | ensureQuicClaim
  | ensureQuicHandshake | ensureQuicInstall | ensureQuicReturned
  deriving DecidableEq, Repr

def Call.isReturned : Call → Bool
  | .teardown (.returned _) | .acceptor .returned | .enableSocks5Returned | .ensureQuicReturned => true
  | _ => false

/-- `keeper_task`. -/
inductive KeeperPc
  | read | closed | checkConnected | dropClient | dropRx | recheck | claim | handshake | install
  | clear | returned
  deriving DecidableEq, Repr

/-- Who sets the tunnel's state. -/
inductive Actor
  | connectTask
  | call (i : ℕ)
  deriving DecidableEq, Repr

structure LkTunnel where
  role : TunnelRole
  /-- Some handle is left. -/
  alive : Bool := true
  state : TunnelState := .connecting
  /-- Live receivers of the state channel. -/
  receivers : ℕ := 1
  events : List Event := []
  connected : Bool := false
  task : Bool := true
  senderTask : Bool := false
  engine : Bool := false
  socks5Handle : Option ℕ := none
  quicServerHandle : Option ℕ := none
  quicClient : Bool := false
  quicRxTx : Bool := false
  connectLock : Bool := false
  nat : Bool := false
  tun : Bool := false
  connectPc : ConnectPc := .dialing
  connectAborted : Bool := false
  sender : Option TaskStatus := none
  listeners : List Listener := []
  acceptors : List TaskStatus := []
  calls : List Call := []
  keepers : List KeeperPc := []
  /-- Those who sent a terminal state while the tunnel's was a live one, in order, whether or not a receiver
  was there to take it. -/
  ended : List Actor := []
  /-- How far a teardown has got, see `TeardownPc.rank`. -/
  progress : ℕ := 0
  deriving DecidableEq, Repr

namespace LkTunnel

def sendState (t : LkTunnel) (a : Actor) (s : TunnelState) : LkTunnel :=
  { t with
    state := if t.receivers = 0 then t.state else s
    ended := if !t.state.isTerminal && s.isTerminal then t.ended ++ [a] else t.ended }

/-- `state_tx.send` through a `Weak`. -/
def sendStateWeak (t : LkTunnel) (a : Actor) (s : TunnelState) : LkTunnel :=
  if t.alive then t.sendState a s else t

def emitEvent (t : LkTunnel) (kind : EventKind) (info : String) : LkTunnel :=
  { t with events := t.events ++ [⟨kind, info⟩] }

def goto (t : LkTunnel) (pc : ConnectPc) : LkTunnel := { t with connectPc := pc }

end LkTunnel

/-! ## The connect task -/

/-- What an `await` of the connect task returns: the result of `Engine::connect`, an event of the
engine, the end of its channel, the peer-wait timeout, or a probe of the roster. -/
inductive EngineInput
  | dialed
  | dialFailed (msg : String)
  | peerJoined (id : String)
  | peerLeft (id : String)
  | disconnected (msg : String)
  | closed
  | timeout
  | probe (present : Bool)
  deriving DecidableEq, Repr

namespace LkTunnel

def atDialing (t : LkTunnel) : EngineInput → LkTunnel
  | .dialed => t.goto .dialed
  | .dialFailed msg => t.goto (.dialFailed msg)
  | _ => t

def atPeerWait (t : LkTunnel) : EngineInput → LkTunnel
  | .timeout | .closed => t.goto .noPeer
  | .peerJoined id => (t.emitEvent .peerJoined id).goto .joined
  | .peerLeft id => t.emitEvent .peerLeft id
  | .disconnected msg => t.goto (.waitLost msg)
  | _ => t

def atMainLoop (t : LkTunnel) : EngineInput → LkTunnel
  | .closed => t.goto .loopExit
  | .peerJoined id => t.emitEvent .peerJoined id
  | .peerLeft id => t.emitEvent .peerLeft id
  | .disconnected msg => (t.emitEvent .disconnected msg).goto .loopExit
  | .probe present => if present then t else (t.emitEvent .disconnected "room empty").goto .loopExit
  | _ => t

/-- The client role warms its QUIC client up in the background. -/
def warmUp (t : LkTunnel) : LkTunnel :=
  if t.alive && t.role == .client then { t with calls := t.calls ++ [.ensureQuic] } else t

def connectStep (t : LkTunnel) (i : EngineInput) : LkTunnel :=
  if t.connectAborted && t.connectPc.awaits then t.goto .returned
  else match t.connectPc with
    | .dialing => t.atDialing i
    | .dialFailed msg => (t.sendStateWeak .connectTask (.failed msg)).goto (.dialError msg)
    | .dialError msg => (t.emitEvent .error msg).goto .dialGone
    | .dialGone => (t.emitEvent .disconnected "connect failed").goto .returned
    | .dialed =>
      if t.alive then { t with engine := true, connectPc := .spawnSender } else t.goto .returned
    | .spawnSender => { t with sender := some .running, connectPc := .storeSender }
    | .storeSender => { t with senderTask := true, connectPc := .peerWait }
    | .peerWait => t.atPeerWait i
    | .waitLost msg => (t.sendStateWeak .connectTask (.failed msg)).goto (.waitGone msg)
    | .waitGone msg => (t.emitEvent .disconnected msg).goto .returned
    | .noPeer =>
      (t.sendStateWeak .connectTask (.failed "no peer joined within timeout")).goto .noPeerError
    | .noPeerError => (t.emitEvent .error "no peer joined within timeout").goto .returned
    | .joined => { t with connected := true, connectPc := .joinedState }
    | .joinedState => (t.sendStateWeak .connectTask .connected).goto .joinedEvent
    | .joinedEvent => (t.emitEvent .connected "").goto .warm
    | .warm => t.warmUp.goto .mainLoop
    | .mainLoop => t.atMainLoop i
    | .loopExit => { t with connected := false, connectPc := .loopExitState }
    | .loopExitState => (t.sendStateWeak .connectTask .disconnected).goto .returned
    | .returned => t

end LkTunnel

/-! ## Teardown -/

/-- The place of a program point in a teardown that releases; `0` before its first test and for one
that returns early. -/
def TeardownPc.rank : TeardownPc → ℕ
  | .check | .send true | .returned false => 0
  | .send false => 1
  | .pushEvent => 2
  | .disconnect => 3
  | .abortTask => 4
  | .abortSender => 5
  | .abortSocks5 => 6
  | .abortQuicServer => 7
  | .dropQuicClient => 8
  | .clearQuicRx => 9
  | .takeNat => 10
  | .takeTun => 11
  | .takeEngine => 12
  | .returned true => 13

namespace LkTunnel

/-- The listener whose handle is in the slot loses its accept loop; its connections run on. -/
def abortListener (t : LkTunnel) : LkTunnel :=
  match t.socks5Handle with
  | some i =>
    { t with
      socks5Handle := none
      listeners := t.listeners.modify i fun l => { l with status := l.status.abort } }
  | none => t

def abortAcceptor (t : LkTunnel) : LkTunnel :=
  match t.quicServerHandle with
  | some i =>
    { t with quicServerHandle := none, acceptors := t.acceptors.modify i TaskStatus.abort }
  | none => t

/-- One step of `teardown` as call `n`. -/
def teardownStep (t : LkTunnel) (n : ℕ) : TeardownPc → LkTunnel × TeardownPc
  | .check => (t, .send t.state.isTerminal)
  | .send done => (t.sendState (.call n) .disconnected, if done then .returned false else .pushEvent)
  | .pushEvent => (t.emitEvent .disconnected "tunnel torn down", .disconnect)
  | .disconnect => ({ t with connected := false }, .abortTask)
  | .abortTask =>
    (if t.task then { t with task := false, connectAborted := true } else t, .abortSender)
  | .abortSender =>
    (if t.senderTask then
        { t with senderTask := false, sender := t.sender.map TaskStatus.abort } else t, .abortSocks5)
  | .abortSocks5 => (t.abortListener, .abortQuicServer)
  | .abortQuicServer => (t.abortAcceptor, .dropQuicClient)
  | .dropQuicClient => ({ t with quicClient := false }, .clearQuicRx)
  | .clearQuicRx => ({ t with quicRxTx := false }, .takeNat)
  | .takeNat => ({ t with nat := false }, .takeTun)
  | .takeTun => ({ t with tun := false }, .takeEngine)
  | .takeEngine => ({ t with engine := false }, .returned true)
  | .returned released => (t, .returned released)

/-! ## Calls that install -/

def acceptorStep (t : LkTunnel) (ok : Bool) : AcceptorPc → LkTunnel × AcceptorPc
  | .checkSlot =>
    (t, if t.role != .server || t.quicServerHandle.isSome then .returned else .claim)
  | .claim => if t.quicRxTx then (t, .returned) else ({ t with quicRxTx := true }, .build)
  | .build =>
    -- A configuration or endpoint that fails leaves the receive slot claimed.
    if ok then ({ t with acceptors := t.acceptors ++ [.running] }, .store t.acceptors.length)
    else (t, .returned)
  | .store i => ({ t with quicServerHandle := some i }, .returned)
  | .returned => (t, .returned)

/-- The listener `i` that lost the race for the slot is discarded; else it is stored, and QUIC is
warmed up in the background. -/
def storeListener (t : LkTunnel) (i : ℕ) : LkTunnel :=
  if t.socks5Handle.isSome then
    { t with
      listeners := t.listeners.modify i fun l =>
        { l with status := l.status.abort }.abortAllConns }
  else { t with socks5Handle := some i, calls := t.calls ++ [.ensureQuic] }

/-- One step of call `n`; `ok` is the result of the outside call it makes, if any. -/
def stepOf (t : LkTunnel) (n : ℕ) (ok : Bool) : Call → LkTunnel × Call
  | .teardown pc =>
    let (t, pc) := t.teardownStep n pc
    ({ t with progress := max t.progress pc.rank }, .teardown pc)
  | .startServer =>
    (t, if t.role != .server || !t.connected then .acceptor .returned else .startServerInstall)
  | .startServerInstall =>
    if t.tun || t.nat then (t, .acceptor .returned)
    else ({ t with nat := true }, .acceptor .checkSlot)
  | .attachTun fd =>
    (t, if !t.connected || fd < 0 then .acceptor .returned else .attachTunPrecheck)
  | .attachTunPrecheck => (t, if t.nat || t.tun then .acceptor .returned else .attachTunInstall)
  | .attachTunInstall =>
    if t.nat || t.tun then (t, .acceptor .returned)
    else ({ t with tun := true }, .acceptor .checkSlot)
  | .acceptor pc =>
    let (t, pc) := t.acceptorStep ok pc
    (t, .acceptor pc)
  | .enableSocks5 =>
    (t, if t.socks5Handle.isSome then .enableSocks5Returned else .enableSocks5Bind)
  | .enableSocks5Bind =>
    if ok then ({ t with listeners := t.listeners ++ [{}] }, .enableSocks5Store t.listeners.length)
    else (t, .enableSocks5Returned)
  | .enableSocks5Store i => (t.storeListener i, .enableSocks5Returned)
  | .enableSocks5Returned => (t, .enableSocks5Returned)
  | .ensureQuic => (t, if t.quicClient then .ensureQuicReturned else .ensureQuicLock)
  | .ensureQuicLock =>
    if t.connectLock then (t, .ensureQuicLock)
    else ({ t with connectLock := true }, .ensureQuicRecheck)
  | .ensureQuicRecheck =>
    if t.quicClient then ({ t with connectLock := false }, .ensureQuicReturned)
    else (t, .ensureQuicConnected)
  | .ensureQuicConnected =>
    if !t.connected then ({ t with connectLock := false }, .ensureQuicReturned)
    else (t, .ensureQuicClaim)
  | .ensureQuicClaim =>
    if t.quicRxTx then (t, .ensureQuicConnected)
    else ({ t with quicRxTx := true }, .ensureQuicHandshake)
  | .ensureQuicHandshake =>
    if ok then (t, .ensureQuicInstall) else ({ t with quicRxTx := false }, .ensureQuicConnected)
  | .ensureQuicInstall =>
    ({ t with quicClient := true, connectLock := false, keepers := t.keepers ++ [.read] },
      .ensureQuicReturned)
  | .ensureQuicReturned => (t, .ensureQuicReturned)

def keeperStep (t : LkTunnel) (ok : Bool) : KeeperPc → LkTunnel × KeeperPc
  | .read => (t, if t.alive && t.quicClient then .closed else .returned)
  | .closed => (t, .checkConnected)
  | .checkConnected => (t, if t.alive && t.connected then .dropClient else .returned)
  | .dropClient => if t.alive then ({ t with quicClient := false }, .dropRx) else (t, .returned)
  | .dropRx => ({ t with quicRxTx := false }, .recheck)
  | .recheck => (t, if t.alive && t.connected then .claim else .returned)
  | .claim => if t.quicRxTx then (t, .clear) else ({ t with quicRxTx := true }, .handshake)
  | .handshake => if ok then (t, .install) else ({ t with quicRxTx := false }, .clear)
  | .install => if t.alive then ({ t with quicClient := true }, .read) else (t, .returned)
  | .clear => (if t.alive then { t with quicRxTx := false } else t, .recheck)
  | .returned => (t, .returned)

end LkTunnel

/-! ## Runs -/

inductive ApiCall
  | disconnect
  | startServer
  | attachTun (fd : ℤ)
  | enableSocks5
  | ensureQuicClient
  deriving DecidableEq, Repr

def ApiCall.enter : ApiCall → Call
  | .disconnect => .teardown .check
  | .startServer => .startServer
  | .attachTun fd => .attachTun fd
  | .enableSocks5 => .enableSocks5
  | .ensureQuicClient => .ensureQuic

inductive Move
  | connect (i : EngineInput)
  | enter (c : ApiCall)
  | call (n : ℕ) (ok : Bool)
  | keeper (n : ℕ) (ok : Bool)
  /-- The last handle is dropped, which tears the tunnel down. -/
  | drop
  | subscribe
  | unsubscribe
  | senderEnds
  | acceptorEnds (i : ℕ)
  | accept (i : ℕ)
  | spawnConn (i : ℕ)
  | connEnds (i j : ℕ)
  | listenerEnds (i : ℕ)
  deriving DecidableEq, Repr

/-- A task that ends by itself. -/
def TaskStatus.finish : TaskStatus → TaskStatus
  | .running => .finished
  | s => s

namespace LkTunnel

def modifyListener (t : LkTunnel) (i : ℕ) (f : Listener → Listener) : LkTunnel :=
  { t with listeners := t.listeners.modify i f }

def callStep (t : LkTunnel) (n : ℕ) (ok : Bool) : LkTunnel :=
  match t.calls[n]? with
  | some c =>
    let (t, c) := t.stepOf n ok c
    { t with calls := t.calls.set n c }
  | none => t

def keeperMove (t : LkTunnel) (n : ℕ) (ok : Bool) : LkTunnel :=
  match t.keepers[n]? with
  | some pc =>
    let (t, pc) := t.keeperStep ok pc
    { t with keepers := t.keepers.set n pc }
  | none => t

def step (t : LkTunnel) : Move → LkTunnel
  | .connect i => t.connectStep i
  | .enter c => { t with calls := t.calls ++ [c.enter] }
  | .call n ok => t.callStep n ok
  | .keeper n ok => t.keeperMove n ok
  | .drop => { t with alive := false, calls := t.calls ++ [.teardown .check] }
  | .subscribe => { t with receivers := t.receivers + 1 }
  | .unsubscribe => { t with receivers := t.receivers - 1 }
  | .senderEnds => { t with sender := t.sender.map TaskStatus.finish }
  | .acceptorEnds i => { t with acceptors := t.acceptors.modify i TaskStatus.finish }
  | .accept i => t.modifyListener i fun l =>
      if l.status = .running then { l with accepted := true } else l
  | .spawnConn i => t.modifyListener i fun l =>
      if l.accepted then { l with accepted := false, conns := l.conns ++ [.running] } else l
  | .connEnds i j => t.modifyListener i fun l =>
      { l with conns := l.conns.modify j TaskStatus.finish }
  | .listenerEnds i => t.modifyListener i fun l =>
      if l.accepted then l else { l with status := l.status.finish }

def run (t : LkTunnel) (moves : List Move) : LkTunnel := moves.foldl step t

end LkTunnel

/-- A condition holds of every move of a run, in the state it starts from. -/
def AllMoves (P : LkTunnel → Move → Prop) (t : LkTunnel) : List Move → Prop
  | [] => True
  | m :: ms => P t m ∧ AllMoves P (t.step m) ms

instance {P : LkTunnel → Move → Prop} [∀ t m, Decidable (P t m)] :
    (t : LkTunnel) → (ms : List Move) → Decidable (AllMoves P t ms)
  | _, [] => isTrue trivial
  | t, m :: ms =>
    have : Decidable (AllMoves P (t.step m) ms) := instDecidableAllMoves _ ms
    inferInstanceAs (Decidable (_ ∧ _))

theorem run_invariant {P : LkTunnel → Move → Prop} {I : LkTunnel → Prop}
    (hstep : ∀ t m, P t m → I t → I (t.step m)) {ms : List Move} : ∀ {t : LkTunnel}, I t →
      AllMoves P t ms → I (t.run ms) := by
  induction ms with
  | nil => exact fun h _ => h
  | cons m ms ih => exact fun h hall => ih (hstep _ m hall.1 h) hall.2

end BaleVpn.Tunnel
