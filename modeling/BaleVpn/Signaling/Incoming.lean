import Mathlib.Data.Finset.Basic
import Mathlib.Data.List.Induction
import Mathlib.Logic.Function.Basic
import BaleVpn.Daemon.Sessions
import BaleVpn.Lib.Update

/-!
# Incoming calls (`ws.rs`, `signaling.rs`, `manager.rs`)

A push of the update stream is dispatched by `dispatch_xc`. One that announces a call spawns a task of
`on_incoming_call`: it checks the caller, enters the call in `in_flight_calls`, asks the manager's
`InternalHandler`, sends `AcceptCall`, and hands a session on. One that ends a call is looked up in
`active_peers`, and the server manager gets an event for the peer.

A task moves by the critical sections of the source. What the decider answers, what the server replies
and when a session of the manager is over are inputs. A peer is its user id. Display names and the
reasons of an end are left out.
-/

namespace BaleVpn.Signaling

open Lib Daemon

/-- `i32::MAX`. -/
def I32_MAX : ℤ := 2147483647

/-! ## Pushes -/

structure CallEntity where
  callId : ℤ := 0
  token : String := ""
  url : String := ""
  callerId : ℤ := 0
  isLivekit : Bool := false
  deriving DecidableEq, Repr

/-- The call updates of the `xC` union, as their parsers return them. -/
inductive XcUpdate
  | callStarted (call : Option CallEntity)
  | callReceived (callId callerId : ℤ)
  | callEnded (callId : ℤ)
  deriving DecidableEq, Repr

/-- What `dispatch_xc` fires `on_call_received` with. -/
def XcUpdate.received : XcUpdate → Option (ℤ × Option CallEntity)
  | .callStarted call => some ((call.map (·.callId)).getD 0, call)
  | .callReceived callId callerId =>
    if callId ≠ 0 then some (callId, if callerId ≠ 0 then some { callId, callerId } else none) else none
  | .callEnded _ => none

/-! ## State -/

/-- `on_incoming_call`. -/
inductive HandlerPc
  | start | lookup
  /-- `InternalHandler::decide`; it waits in `deciding` for the decider or for its cancellation. -/
  | decider | register | deciding
  | clear (d : CallDecision)
  | decided (d : CallDecision)
  | accepting | discarding
  | track (accepted : CallEntity)
  | announce (accepted : CallEntity)
  /-- The guard is dropped. -/
  | release
  | returned
  /-- It returned before it had a guard. -/
  | ignored
  deriving DecidableEq, Repr

structure Handler where
  callId : ℤ
  call : Option CallEntity
  pc : HandlerPc := .start
  /-- Its `callEnded` came while its decision was open; for the record only. -/
  hungUp : Bool := false
  deriving DecidableEq, Repr

namespace Handler

def callerId (h : Handler) : ℤ := (h.call.map (·.callerId)).getD 0

def isLivekit (h : Handler) : Bool := (h.call.map (·.isLivekit)).getD false

/-- The caller passes the checks. -/
def Valid (h : Handler) : Prop := h.callerId ≠ 0 ∧ ¬ (h.callerId > I32_MAX ∨ h.callerId < 0)

instance (h : Handler) : Decidable h.Valid := inferInstanceAs (Decidable (_ ∧ _))

end Handler

/-- A `TransportSession` sent on `accepted_sessions`, and the call it is for. -/
structure Session where
  callId : ℤ
  peer : ℤ
  url : String
  token : String
  deriving DecidableEq, Repr

structure BaleSignaling where
  /-- `set_incoming_handler`, `set_admission` and `accepted_sessions` were called. -/
  hasHandler : Bool
  hasDecider : Bool
  hasConsumer : Bool
  handlers : List Handler := []
  inFlightCalls : Finset ℤ := ∅
  activePeers : ℤ → Option ℤ := fun _ => none
  /-- The server manager's `PendingMap`; a sender is named by its task. -/
  pending : ℤ → Option ℕ := fun _ => none
  /-- The peers that the manager has a session of. -/
  registry : ℤ → Bool := fun _ => false
  /-- The `AcceptCall` requests sent, each with its task. -/
  acceptCalls : List (ℤ × ℕ) := []
  sessions : List Session := []
  /-- How many of them the manager has taken. -/
  drained : ℕ := 0
  /-- The `CallEnded` events the manager is yet to take, each with the task it hangs up on, if any. -/
  events : List (ℤ × Option ℕ) := []
  /-- The peers that the manager's `CallEnded` handler has emitted `Failed` for. -/
  failed : List ℤ := []

namespace BaleSignaling

def setPc (s : BaleSignaling) (n : ℕ) (pc : HandlerPc) : BaleSignaling :=
  { s with handlers := s.handlers.modify n fun h => { h with pc } }

/-! ## Tasks -/

/-- One critical section of task `n`, outside its waits. -/
def handlerStep (s : BaleSignaling) (n : ℕ) : BaleSignaling :=
  match s.handlers[n]? with
  | some h =>
    match h.pc with
    | .start =>
      if h.Valid then
        if h.callId ∈ s.inFlightCalls then s.setPc n .ignored
        else { s with inFlightCalls := insert h.callId s.inFlightCalls }.setPc n .lookup
      else s.setPc n .ignored
    | .lookup => s.setPc n (if s.hasHandler then .decider else .release)
    | .decider => s.setPc n (if s.hasDecider then .register else .decided .silentlyIgnore)
    | .register => { s with pending := Function.update s.pending h.callerId (some n) }.setPc n .deciding
    | .clear d => { s with pending := Function.update s.pending h.callerId none }.setPc n (.decided d)
    | .decided .accept => { s with acceptCalls := s.acceptCalls ++ [(h.callId, n)] }.setPc n .accepting
    | .decided .reject => s.setPc n .discarding
    | .decided .silentlyIgnore => s.setPc n .release
    | .track accepted =>
      { s with activePeers := Function.update s.activePeers h.callId (some h.callerId) }.setPc n
        (.announce accepted)
    | .announce accepted =>
      let session : Session :=
        { callId := h.callId, peer := h.callerId, url := accepted.url, token := accepted.token }
      { s with sessions := if s.hasConsumer then s.sessions ++ [session] else s.sessions }.setPc n .release
    | .release => { s with inFlightCalls := s.inFlightCalls.erase h.callId }.setPc n .returned
    | .deciding | .accepting | .discarding | .returned | .ignored => s
  | none => s

/-- The decider answers. -/
def answer (s : BaleSignaling) (n : ℕ) (d : CallDecision) : BaleSignaling :=
  match s.handlers[n]? with
  | some h => if h.pc = .deciding then s.setPc n (.clear d) else s
  | none => s

/-- The `select!` sees that the cancel sender is gone. -/
def cancel (s : BaleSignaling) (n : ℕ) : BaleSignaling :=
  match s.handlers[n]? with
  | some h =>
    if h.pc = .deciding ∧ s.pending h.callerId ≠ some n then s.setPc n (.clear .silentlyIgnore) else s
  | none => s

/-- `accept_call` returns. -/
def reply (s : BaleSignaling) (n : ℕ) (accepted : Option CallEntity) : BaleSignaling :=
  match s.handlers[n]? with
  | some h =>
    if h.pc = .accepting then
      match accepted with
      | some accepted =>
        if !(h.isLivekit || accepted.isLivekit) || accepted.token == "" then s.setPc n .release
        else s.setPc n (.track accepted)
      | none => s.setPc n .release
    else s
  | none => s

/-- `discard_call` returns. -/
def discarded (s : BaleSignaling) (n : ℕ) : BaleSignaling :=
  match s.handlers[n]? with
  | some h => if h.pc = .discarding then s.setPc n .release else s
  | none => s

/-! ## The end of a call -/

end BaleSignaling

/-- `decide` has been called and has not returned. -/
def HandlerPc.InDecide : HandlerPc → Bool
  | .decider | .register | .deciding | .clear _ => true
  | _ => false

namespace BaleSignaling

/-- The task whose decision on the call is open. -/
def openTask (s : BaleSignaling) (callId : ℤ) : Option ℕ :=
  s.handlers.findIdx? fun h => h.callId = callId && h.pc.InDecide

/-- `on_call_ended_internal`. -/
def callEnded (s : BaleSignaling) (callId : ℤ) : BaleSignaling :=
  let task := s.openTask callId
  let s :=
    match task with
    | some n => { s with handlers := s.handlers.modify n fun h => { h with hungUp := true } }
    | none => s
  match s.activePeers callId with
  | some peer =>
    { s with
      activePeers := Function.update s.activePeers callId none
      events := s.events ++ [(peer, task)] }
  | none => s

/-- `on_ws_call_ended` of the server manager. -/
def onWsCallEnded (s : BaleSignaling) (peer : ℤ) : BaleSignaling :=
  if s.registry peer then s
  else if (s.pending peer).isSome then
    { s with pending := Function.update s.pending peer none, failed := s.failed ++ [peer] }
  else s

def takeEvent (s : BaleSignaling) : BaleSignaling :=
  match s.events with
  | (peer, _) :: events => { s with events }.onWsCallEnded peer
  | [] => s

/-- The manager takes the next session and registers its tunnel. -/
def takeSession (s : BaleSignaling) : BaleSignaling :=
  match s.sessions[s.drained]? with
  | some session =>
    { s with registry := Function.update s.registry session.peer true, drained := s.drained + 1 }
  | none => s

/-- `dispatch_xc`. -/
def dispatchXc (s : BaleSignaling) : XcUpdate → BaleSignaling
  | .callEnded callId => if callId ≠ 0 then s.callEnded callId else s
  | update =>
    match update.received with
    | some (callId, call) => { s with handlers := s.handlers ++ [{ callId, call }] }
    | none => s

end BaleSignaling

/-! ## Runs -/

inductive SignalingMove
  | push (update : XcUpdate)
  | step (n : ℕ)
  | answer (n : ℕ) (d : CallDecision)
  | cancel (n : ℕ)
  | reply (n : ℕ) (accepted : Option CallEntity)
  | discarded (n : ℕ)
  | takeEvent
  | takeSession
  /-- The watcher of a session takes it out of the registry. -/
  | sessionOver (peer : ℤ)
  /-- An outgoing call is tracked. -/
  | placed (callId peer : ℤ)
  | setHandler
  | setDecider
  | setConsumer
  deriving DecidableEq, Repr

namespace BaleSignaling

def move (s : BaleSignaling) : SignalingMove → BaleSignaling
  | .push update => s.dispatchXc update
  | .step n => s.handlerStep n
  | .answer n d => s.answer n d
  | .cancel n => s.cancel n
  | .reply n accepted => s.reply n accepted
  | .discarded n => s.discarded n
  | .takeEvent => s.takeEvent
  | .takeSession => s.takeSession
  | .sessionOver peer => { s with registry := Function.update s.registry peer false }
  | .placed callId peer => { s with activePeers := Function.update s.activePeers callId (some peer) }
  | .setHandler => { s with hasHandler := true }
  | .setDecider => { s with hasDecider := true }
  | .setConsumer => { s with hasConsumer := true }

def run (s : BaleSignaling) (ms : List SignalingMove) : BaleSignaling := ms.foldl move s

/-- `BaleSignaling::new`, and what the manager has installed by then. -/
def start (hasHandler hasDecider hasConsumer : Bool) : BaleSignaling :=
  { hasHandler, hasDecider, hasConsumer }

theorem run_snoc (s : BaleSignaling) (ms : List SignalingMove) (m : SignalingMove) :
    s.run (ms ++ [m]) = (s.run ms).move m := by
  simp [run]

theorem getElem?_setPc {s : BaleSignaling} {n l : ℕ} {t b : Handler} {pc : HandlerPc}
    (ht : s.handlers[n]? = some t) (hb : (s.setPc n pc).handlers[l]? = some b) :
    n = l ∧ b = { t with pc } ∨ n ≠ l ∧ s.handlers[l]? = some b := by
  obtain ⟨hn, hb⟩ | ⟨hn, hold⟩ := getElem?_modify_cases ht hb
  · exact .inl ⟨hn.symm, hb⟩
  · exact .inr ⟨hn.symm, hold⟩

end BaleSignaling

end BaleVpn.Signaling
