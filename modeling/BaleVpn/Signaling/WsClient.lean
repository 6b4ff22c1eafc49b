import BaleVpn.Signaling.Rpc

/-!
# The WebSocket client (`ws.rs`)

The rule engine (`set_token`, `set_user_disconnect`, `set_manager_active`, `evaluate`), the run loops it
spawns with their sessions, the detached tasks that subscribe again, and the RPC plumbing they share. A
setter and a loop move by the atomics they touch and the critical sections they go through. A loop that
was aborted goes on until it is dropped at an `await`.
-/

namespace BaleVpn.Signaling

/-! ## State -/

/-- `set_token`, `set_user_disconnect` and `set_manager_active`. -/
inductive RuleInput
  | token (token : Option String)
  | userDisconnect (disc : Bool)
  | managerActive (active : Bool)
  deriving DecidableEq, Repr

/-- A setter, with `evaluate`. -/
inductive SetterPc
  | swap | lock
  | reap | reapRunning | reapReady
  | hasToken | userDisconnect | managerActive
  | decide (want : Bool)
  | takeToken
  | startRunning (token : String)
  | spawn (token : String)
  | stopRunning (loop : ℕ)
  | stopReady (loop : ℕ)
  | abort (loop : ℕ)
  /-- The slot is released. -/
  | clearSender (loop : ℕ)
  | drainPending (loop : ℕ)
  | returned
  deriving DecidableEq, Repr

structure Setter where
  input : RuleInput
  pc : SetterPc := .swap
  deriving DecidableEq, Repr

inductive SessionOutcome
  | disconnected | tokenExpired | versionMismatch
  deriving DecidableEq, Repr

/-- `run_loop`, with `attempt_session`. -/
inductive LoopPc
  | top
  /-- `running` was true, and the request is built from the token. -/
  | attempt
  | connecting
  | install
  | reading
  /-- The handshake has been read. -/
  | ready
  | subscribe
  | store (idx : BitVec 32)
  | send (idx : BitVec 32)
  /-- `attempt_session` has returned. -/
  | ended (outcome : SessionOutcome)
  | clearSender (outcome : SessionOutcome)
  | drainPending (outcome : SessionOutcome)
  | outcome (outcome : SessionOutcome)
  | sleeping
  | finished
  deriving DecidableEq, Repr

structure RunLoop where
  token : String
  pc : LoopPc := .top
  /-- Its latest session. -/
  session : ℕ := 0
  aborted : Bool := false
  deriving DecidableEq, Repr

inductive ResubscribePc
  | sleeping
  | store (idx : BitVec 32)
  | send (idx : BitVec 32)
  | done
  deriving DecidableEq, Repr

/-- The detached task that subscribes again when a subscription has failed. -/
structure Resubscribe where
  session : ℕ
  pc : ResubscribePc := .sleeping
  deriving DecidableEq, Repr

structure WsClient where
  accessToken : Option String := none
  userDisconnect : Bool := false
  managerActive : Bool := true
  running : Bool := false
  ready : Bool := false
  /-- A handle is named by its loop. -/
  runloopHandle : Option ℕ := none
  /-- The setter that holds the slot's lock. -/
  lockedBy : Option ℕ := none
  setters : List Setter := []
  loops : List RunLoop := []
  resubscribes : List Resubscribe := []
  rpc : RpcPlumbing := {}
  nextSession : ℕ := 0
  /-- The latest `SubscribeToUpdates` sent on a session. -/
  subscribed : ℕ → Option (BitVec 32) := fun _ => none

namespace WsClient

def setSetter (s : WsClient) (n : ℕ) (pc : SetterPc) : WsClient :=
  { s with setters := s.setters.modify n fun c => { c with pc } }

def setLoop (s : WsClient) (i : ℕ) (pc : LoopPc) : WsClient :=
  { s with loops := s.loops.modify i fun l => { l with pc } }

/-! ## The rule engine -/

/-- The input is swapped; `evaluate` is next if it has changed. -/
def swap (s : WsClient) (n : ℕ) : RuleInput → WsClient
  | .token token =>
    { s with accessToken := token }.setSetter n (if s.accessToken = token then .returned else .lock)
  | .userDisconnect disc =>
    { s with userDisconnect := disc }.setSetter n (if s.userDisconnect = disc then .returned else .lock)
  | .managerActive active =>
    { s with managerActive := active }.setSetter n (if s.managerActive = active then .returned else .lock)

def desiredUp (s : WsClient) : Bool := s.accessToken.isSome && !s.userDisconnect && s.managerActive

/-- The handle of the slot `is_finished`. -/
def handleFinished (s : WsClient) : Bool :=
  match s.runloopHandle with
  | some i =>
    match s.loops[i]? with
    | some l => l.pc = .finished
    | none => false
  | none => false

def setterStep (s : WsClient) (n : ℕ) : WsClient :=
  match s.setters[n]? with
  | some c =>
    match c.pc with
    | .swap => s.swap n c.input
    | .lock => if s.lockedBy = none then { s with lockedBy := some n }.setSetter n .reap else s
    | .reap =>
      if s.handleFinished then { s with runloopHandle := none }.setSetter n .reapRunning
      else s.setSetter n .hasToken
    | .reapRunning => { s with running := false }.setSetter n .reapReady
    | .reapReady => { s with ready := false }.setSetter n .hasToken
    | .hasToken => s.setSetter n (if s.accessToken.isSome then .userDisconnect else .decide false)
    | .userDisconnect => s.setSetter n (if s.userDisconnect then .decide false else .managerActive)
    | .managerActive => s.setSetter n (.decide s.managerActive)
    | .decide want =>
      match want, s.runloopHandle with
      | true, none => s.setSetter n .takeToken
      | false, some i => s.setSetter n (.stopRunning i)
      | _, _ => { s with lockedBy := none }.setSetter n .returned
    | .takeToken => s.setSetter n (.startRunning (s.accessToken.getD ""))
    | .startRunning token => { s with running := true }.setSetter n (.spawn token)
    | .spawn token =>
      let s :=
        { s with
          loops := s.loops ++ [{ token := token : RunLoop }]
          runloopHandle := some s.loops.length
          lockedBy := none }
      s.setSetter n .returned
    | .stopRunning i => { s with running := false }.setSetter n (.stopReady i)
    | .stopReady i => { s with ready := false }.setSetter n (.abort i)
    | .abort i =>
      { s with
        loops := s.loops.modify i fun l => { l with aborted := true }
        runloopHandle := none
        lockedBy := none }.setSetter n (.clearSender i)
    | .clearSender i => { s with rpc := s.rpc.clearSender }.setSetter n (.drainPending i)
    | .drainPending i => { s with rpc := s.rpc.drainPending i }.setSetter n .returned
    | .returned => s
  | none => s

end WsClient

/-! ## The run loop -/

/-- What a loop waits for; `go` where it does not wait. -/
inductive LoopInput
  | go
  | connected
  /-- `connect_async` fails, with 401 or 403 if the token was rejected. -/
  | connectFailed (rejected : Bool)
  | handshake (wellFormed : Bool)
  | versionMismatch
  | response (resp : RpcResponse)
  /-- The connection ends, with code 4401 if the token has expired. -/
  | closed (expired : Bool)
  deriving DecidableEq, Repr

namespace WsClient

/-- A `SubscribeToUpdates` frame goes into the session's queue, if that still has its receiver. -/
def sendSubscribe (s : WsClient) (session : ℕ) (idx : BitVec 32) : WsClient :=
  if session ∈ s.rpc.closed then s
  else { s with subscribed := Function.update s.subscribed session (some idx) }

/-- The reader has had an RPC frame. -/
def onRpcFrame (s : WsClient) (i : ℕ) (l : RunLoop) (resp : RpcResponse) : WsClient :=
  match s.rpc.dispatchRpcResponse resp with
  | (rpc, .subscribeRotation) => { s with rpc }.setLoop i .subscribe
  | (rpc, .subscribeFailed _ _) =>
    { s with rpc, resubscribes := s.resubscribes ++ [{ session := l.session }] }
  | (rpc, .subscribePush _) | (rpc, .dropped _) => { s with rpc }

/-- What a loop does without waiting. -/
def loopGo (s : WsClient) (i : ℕ) (l : RunLoop) : WsClient :=
  match l.pc with
  | .top => s.setLoop i (if s.running then .attempt else .finished)
  | .attempt => s.setLoop i .connecting
  | .install =>
    { s with
      rpc := s.rpc.installSender s.nextSession
      nextSession := s.nextSession + 1
      loops := s.loops.modify i fun l => { l with pc := .reading, session := s.nextSession } }
  | .ready => { s with ready := true }.setLoop i .subscribe
  | .subscribe => { s with rpc := s.rpc.fetchAdd }.setLoop i (.store s.rpc.rpcIdx)
  | .store idx => { s with rpc := s.rpc.setSubscribeIdx idx }.setLoop i (.send idx)
  | .send idx => (s.sendSubscribe l.session idx).setLoop i .reading
  | .ended outcome => { s with ready := false }.setLoop i (.clearSender outcome)
  | .clearSender outcome => { s with rpc := s.rpc.clearSender }.setLoop i (.drainPending outcome)
  | .drainPending outcome => { s with rpc := s.rpc.drainPending i }.setLoop i (.outcome outcome)
  | .outcome outcome =>
    s.setLoop i (if outcome = .disconnected ∧ s.running then .sleeping else .finished)
  -- The backoff always suspends, so that an aborted loop does not outlast it.
  | .sleeping => if l.aborted then s else s.setLoop i .top
  | .connecting | .reading | .finished => s

def loopStep (s : WsClient) (i : ℕ) (input : LoopInput) : WsClient :=
  match s.loops[i]? with
  | some l =>
    match input with
    | .go => s.loopGo i l
    | .connected => if l.pc = .connecting then s.setLoop i .install else s
    | .connectFailed rejected =>
      if l.pc = .connecting then s.setLoop i (.ended (if rejected then .tokenExpired else .disconnected))
      else s
    | .handshake wellFormed =>
      if l.pc = .reading then s.setLoop i (if wellFormed then .ready else .subscribe) else s
    | .versionMismatch => if l.pc = .reading then s.setLoop i (.ended .versionMismatch) else s
    | .response resp => if l.pc = .reading then s.onRpcFrame i l resp else s
    | .closed expired =>
      if l.pc = .reading then s.setLoop i (.ended (if expired then .tokenExpired else .disconnected))
      else s
  | none => s

/-- An aborted loop is dropped where it waits. -/
def dropLoop (s : WsClient) (i : ℕ) : WsClient :=
  match s.loops[i]? with
  | some l =>
    if l.aborted ∧ l.pc ∈ [.top, .connecting, .reading, .sleeping] then s.setLoop i .finished else s
  | none => s

/-- The task has slept, takes an `idx`, stores it and sends its frame. -/
def resubscribeStep (s : WsClient) (j : ℕ) : WsClient :=
  match s.resubscribes[j]? with
  | some t =>
    let setTask (s : WsClient) (pc : ResubscribePc) : WsClient :=
      { s with resubscribes := s.resubscribes.modify j fun t => { t with pc } }
    match t.pc with
    | .sleeping => setTask { s with rpc := s.rpc.fetchAdd } (.store s.rpc.rpcIdx)
    | .store idx => setTask { s with rpc := s.rpc.setSubscribeIdx idx } (.send idx)
    | .send idx => setTask (s.sendSubscribe t.session idx) .done
    | .done => s
  | none => s

end WsClient

/-! ## Runs -/

inductive WsMove
  /-- A setter is called. -/
  | set (input : RuleInput)
  | setter (n : ℕ)
  | loop (i : ℕ) (input : LoopInput)
  | drop (i : ℕ)
  | resubscribe (j : ℕ)
  | rpcCall
  | rpcStep (n : ℕ)
  | rpcTimeout (n : ℕ)
  /-- The writer of a session is gone. -/
  | close (session : ℕ)
  deriving DecidableEq, Repr

namespace WsClient

def move (s : WsClient) : WsMove → WsClient
  | .set input => { s with setters := s.setters ++ [{ input }] }
  | .setter n => s.setterStep n
  | .loop i input => s.loopStep i input
  | .drop i => s.dropLoop i
  | .resubscribe j => s.resubscribeStep j
  | .rpcCall => { s with rpc := s.rpc.rpcCall }
  | .rpcStep n => { s with rpc := s.rpc.rpcStep n }
  | .rpcTimeout n => { s with rpc := s.rpc.timeout n }
  | .close session => { s with rpc := s.rpc.close session }

def run (s : WsClient) (ms : List WsMove) : WsClient := ms.foldl move s

end WsClient

end BaleVpn.Signaling
