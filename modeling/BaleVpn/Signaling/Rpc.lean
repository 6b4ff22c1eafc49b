import Mathlib.Data.List.Infix
import Mathlib.Data.Int.Notation
import Mathlib.Logic.Function.Basic

/-!
# RPC plumbing (`ws.rs`)

`rpc_call` files a responder in `pending` before it looks up the sender, and takes the entry out again
when it has its result. The run loop's reader answers entries by `idx`; a teardown clears the sender and
then drains the map. What is done to a responder outside the lock commutes with the timer of its call,
so that a response and a drain are one move each.
-/

namespace BaleVpn.Signaling

/-! ## State -/

structure RpcError where
  code : ℤ := 0
  message : String := ""
  deriving DecidableEq, Repr

/-- The error is decoded. -/
structure RpcResponse where
  idx : BitVec 32
  error : Option RpcError := none
  payload : Option (List UInt8) := none
  deriving DecidableEq, Repr

inductive RpcCallError
  | notConnected | canceled | timeout
  | rpc (e : RpcError)
  deriving DecidableEq, Repr

/-- What goes through the oneshot. -/
abbrev Reply := Except RpcError (List UInt8)

abbrev RpcResult := Except RpcCallError (List UInt8)

def RpcResponse.reply (resp : RpcResponse) : Reply :=
  match resp.error, resp.payload with
  | some e, _ => .error e
  | none, some payload => .ok payload
  | none, none => .ok []

inductive UnmatchedRpcOutcome
  | subscribeRotation
  | subscribeFailed (code : ℤ) (message : String)
  | subscribePush (payload : List UInt8)
  | dropped (idx : BitVec 32)
  deriving DecidableEq, Repr

inductive Responder
  | waiting
  | answered (reply : Reply)
  /-- By a drain, in the teardown of a run loop, or with its entry. -/
  | dropped (teardown : Option ℕ)
  deriving DecidableEq, Repr

inductive RpcPc
  | insert | lookup
  | send (session : ℕ)
  | awaiting
  | remove (result : RpcResult)
  | returned (result : RpcResult)
  deriving DecidableEq, Repr

structure RpcCall where
  idx : BitVec 32
  pc : RpcPc := .insert
  responder : Responder := .waiting
  /-- The session whose queue has the frame. -/
  session : Option ℕ := none
  deriving DecidableEq, Repr

structure RpcPlumbing where
  rpcIdx : BitVec 32 := 1
  pending : BitVec 32 → Option ℕ := fun _ => none
  /-- A sender is named by its session. -/
  sendTx : Option ℕ := none
  subscribeIdx : BitVec 32 := -1
  /-- The sessions whose queue has lost its receiver. -/
  closed : List ℕ := []
  calls : List RpcCall := []

namespace RpcPlumbing

def modify (s : RpcPlumbing) (n : ℕ) (f : RpcCall → RpcCall) : RpcPlumbing :=
  { s with calls := s.calls.modify n f }

def setPc (s : RpcPlumbing) (n : ℕ) (pc : RpcPc) : RpcPlumbing := s.modify n fun c => { c with pc }

/-- The entry of an `idx` leaves the map, and its responder is dropped. -/
def removePending (s : RpcPlumbing) (idx : BitVec 32) : RpcPlumbing :=
  let removed := { s with pending := Function.update s.pending idx none }
  match s.pending idx with
  | some n => removed.modify n fun c => { c with responder := .dropped none }
  | none => removed

/-! ## `rpc_call` -/

/-- `rpc_idx.fetch_add(1)`. -/
def fetchAdd (s : RpcPlumbing) : RpcPlumbing := { s with rpcIdx := s.rpcIdx + 1 }

def rpcCall (s : RpcPlumbing) : RpcPlumbing :=
  { s with calls := s.calls ++ [{ idx := s.rpcIdx }] : RpcPlumbing }.fetchAdd

/-- What `rpc_call` returns for a reply. -/
def ofReply : Reply → RpcResult
  | .ok payload => .ok payload
  | .error e => .error (.rpc e)

def rpcStep (s : RpcPlumbing) (n : ℕ) : RpcPlumbing :=
  match s.calls[n]? with
  | some c =>
    match c.pc with
    | .insert =>
      let s := s.removePending c.idx
      { s with pending := Function.update s.pending c.idx (some n) }.setPc n .lookup
    | .lookup =>
      match s.sendTx with
      | some k => s.setPc n (.send k)
      | none => s.setPc n (.remove (.error .notConnected))
    | .send k =>
      if k ∈ s.closed then s.setPc n (.remove (.error .notConnected))
      else s.modify n fun c => { c with pc := .awaiting, session := some k }
    | .awaiting =>
      match c.responder with
      | .waiting => s
      | .answered reply => s.setPc n (.remove (ofReply reply))
      | .dropped _ => s.setPc n (.remove (.error .canceled))
    | .remove result => (s.removePending c.idx).setPc n (.returned result)
    | .returned _ => s
  | none => s

/-- The 30 seconds are over; the receiver is polled before the timer. -/
def timeout (s : RpcPlumbing) (n : ℕ) : RpcPlumbing :=
  match s.calls[n]? with
  | some c =>
    if c.pc = .awaiting ∧ c.responder = .waiting then s.setPc n (.remove (.error .timeout)) else s
  | none => s

/-! ## The run loop's side -/

def isExpectedSubscribeRotation (error : Option RpcError) (payload : Option (List UInt8)) : Bool :=
  match error with
  | some e =>
    if payload.isSome then false
    else if e.code = 4 then true
    else if e.code = 2 then "want <EOF>".toList <:+: e.message.toList
    else if e.code = 13 then "cardinality violation".toList <:+: e.message.toList
    else false
  | none => false

/-- What `dispatch_rpc_response` makes of a response that nobody waits for. -/
def classify (s : RpcPlumbing) (resp : RpcResponse) : UnmatchedRpcOutcome :=
  if resp.idx = s.subscribeIdx then
    if isExpectedSubscribeRotation resp.error resp.payload then .subscribeRotation
    else
      match resp.error, resp.payload with
      | none, some payload => .subscribePush payload
      | some e, _ => .subscribeFailed e.code e.message
      | none, none => .dropped resp.idx
  else .dropped resp.idx

def dispatchRpcResponse (s : RpcPlumbing) (resp : RpcResponse) : RpcPlumbing × UnmatchedRpcOutcome :=
  match s.pending resp.idx with
  | some n =>
    ({ s with pending := Function.update s.pending resp.idx none }.modify n fun c =>
      { c with responder := .answered (resp.reply) }, .dropped resp.idx)
  | none => (s, s.classify resp)

/-- The drain of a run loop's teardown. -/
def drainPending (s : RpcPlumbing) (teardown : ℕ) : RpcPlumbing :=
  { s with
    pending := fun _ => none
    calls := s.calls.mapIdx fun n c =>
      if s.pending c.idx = some n then { c with responder := .dropped (some teardown) } else c }

def setSubscribeIdx (s : RpcPlumbing) (idx : BitVec 32) : RpcPlumbing := { s with subscribeIdx := idx }

def installSender (s : RpcPlumbing) (session : ℕ) : RpcPlumbing := { s with sendTx := some session }

def clearSender (s : RpcPlumbing) : RpcPlumbing := { s with sendTx := none }

/-- The receiver of a session's queue is dropped. -/
def close (s : RpcPlumbing) (session : ℕ) : RpcPlumbing := { s with closed := session :: s.closed }

end RpcPlumbing

/-! ## Runs -/

inductive RpcMove
  | call
  | step (n : ℕ)
  | timeout (n : ℕ)
  | response (resp : RpcResponse)
  /-- An `idx` for `SubscribeToUpdates`. -/
  | fetchAdd
  | setSubscribeIdx (idx : BitVec 32)
  | installSender (session : ℕ)
  | clearSender
  | drainPending (teardown : ℕ)
  | close (session : ℕ)
  deriving DecidableEq, Repr

/-- The move takes an `idx`. -/
def RpcMove.Allocates : RpcMove → Bool
  | .call | .fetchAdd => true
  | _ => false

namespace RpcPlumbing

def move (s : RpcPlumbing) : RpcMove → RpcPlumbing
  | .call => s.rpcCall
  | .step n => s.rpcStep n
  | .timeout n => s.timeout n
  | .response resp => (s.dispatchRpcResponse resp).1
  | .fetchAdd => s.fetchAdd
  | .setSubscribeIdx idx => s.setSubscribeIdx idx
  | .installSender session => s.installSender session
  | .clearSender => s.clearSender
  | .drainPending teardown => s.drainPending teardown
  | .close session => s.close session

def run (s : RpcPlumbing) (ms : List RpcMove) : RpcPlumbing := ms.foldl move s

end RpcPlumbing

end BaleVpn.Signaling
