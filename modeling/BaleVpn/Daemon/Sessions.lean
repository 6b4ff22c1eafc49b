import Mathlib.Data.List.AList
import Mathlib.Logic.Function.Basic
import BaleVpn.Lib.Machine

/-!
# Sessions of the server daemon (`daemon.rs`, `server.rs`, `manager.rs`)

From an incoming call to the end of its session: the admission decision, the tunnel the manager builds
for an accepted call, the watcher of that tunnel, the daemon's loop over session events, the task it
spawns for each session, and `ServerState` with its clients and its pool of kernel-TUN slots. Each
part moves in atomic steps, in any order.

A tunnel is named by the order in which it was accepted. Session events say which peer they are about
and, but for `Connected`, not which tunnel; the queue keeps that beside them, for the record only.
What the engine reports, which outside calls succeed, when a decision is abandoned and what the UI
asks for are inputs. Display names, counters and times are left out, and so is a switch of modes but
for `clear_all`.
-/

namespace BaleVpn.Daemon

open Lib

variable {P : Type} [DecidableEq P]

def KERNEL_TUN_SLOT_LIMIT : ℕ := 254

def MAX_CLIENTS_LIMIT : ℕ := 253

/-! ## State -/

inductive CallDecision
  | accept | reject | silentlyIgnore
  deriving DecidableEq, Repr

/-- An incoming call: `AdmissionDecider::decide`, then what signaling does with the answer. -/
inductive CallPc
  | blacklist | capacity | admission | park | parked
  | decided (d : CallDecision)
  | ended
  deriving DecidableEq, Repr

structure Call (P : Type) where
  peer : P
  pc : CallPc := .blacklist
  deriving DecidableEq, Repr

/-- `spawn_server_watcher`; `emitted` says whether it has sent `Connected`. -/
inductive WatcherPc
  | waiting
  | entered
  | ended (emitted : Bool)
  deriving DecidableEq, Repr

/-- `handle_server_session`. -/
inductive TaskPc
  | fetchDisplayName
  | allocSlot
  | openTun (slot : ℕ)
  | attachTun (slot : ℕ)
  | startServer
  | natFailed
  | install (slot : Option ℕ)
  | parked
  | remove
  | returned
  deriving DecidableEq, Repr

/-- A tunnel with its watcher, and its session task once that is spawned. -/
structure Tunnel (P : Type) where
  peer : P
  /-- `disconnect` was called on it. -/
  down : Bool := false
  watcher : WatcherPc := .waiting
  task : Option TaskPc := none
  deriving DecidableEq, Repr

structure ActiveClient where
  tunnel : ℕ
  kernelSlot : Option ℕ
  deriving DecidableEq, Repr

inductive SessionEvent (P : Type)
  | connected (peer : P) (tunnel : ℕ)
  | disconnected (peer : P)
  | failed (peer : P)
  deriving DecidableEq, Repr

structure AppState (P : Type) where
  maxClients : ℕ
  /-- `--nat-mode kernel`. -/
  kernelNat : Bool
  admission : List P := []
  blacklist : List P := []
  calls : List (Call P) := []
  /-- `ServerState.pending`: the call whose decision is parked. -/
  pending : P → Option ℕ := fun _ => none
  tunnels : List (Tunnel P) := []
  /-- The manager's registry. -/
  sessions : P → Option ℕ := fun _ => none
  events : List (SessionEvent P × ℕ) := []
  /-- The daemon loop's map; a sender is named by the session it belongs to. -/
  done : P → Option ℕ := fun _ => none
  loopRunning : Bool := true
  clients : AList fun _ : P => ActiveClient := ∅
  /-- The pool, its top first. -/
  kernelSlots : List ℕ := List.range KERNEL_TUN_SLOT_LIMIT
  /-- What `clear_all` has taken out of the map and not yet released. -/
  clearing : List ActiveClient := []

namespace AppState

/-- `ServerState::with_config`. -/
def start (maxClients : ℕ) (kernelNat : Bool) (admission blacklist : List P) : AppState P :=
  { maxClients := min (max maxClients 1) MAX_CLIENTS_LIMIT, kernelNat, admission, blacklist }

/-! ## `ServerState` -/

def modifyTunnel (s : AppState P) (i : ℕ) (f : Tunnel P → Tunnel P) : AppState P :=
  { s with tunnels := s.tunnels.modify i f }

/-- `LkTunnel::disconnect`. -/
def disconnect (s : AppState P) (i : ℕ) : AppState P := s.modifyTunnel i fun t => { t with down := true }

def releaseKernelSlot (s : AppState P) (slot : ℕ) : AppState P :=
  if slot ∈ s.kernelSlots then s else { s with kernelSlots := slot :: s.kernelSlots }

/-- What is done with an entry that has left the map. -/
def releaseClient (s : AppState P) (c : ActiveClient) : AppState P :=
  match c.kernelSlot with
  | some slot => (s.disconnect c.tunnel).releaseKernelSlot slot
  | none => s.disconnect c.tunnel

def removeClient (s : AppState P) (peer : P) : AppState P :=
  match s.clients.lookup peer with
  | some c => { s with clients := s.clients.erase peer }.releaseClient c
  | none => s

def setCall (s : AppState P) (n : ℕ) (pc : CallPc) : AppState P :=
  { s with calls := s.calls.modify n fun c => { c with pc } }

/-- A parked decision gets its answer; a call that is past waiting takes none. -/
def decideParked (s : AppState P) (n : ℕ) (d : CallDecision) : AppState P :=
  { s with
    calls := s.calls.modify n fun c => if c.pc = .parked then { c with pc := .decided d } else c }

def pendingResolve (s : AppState P) (peer : P) (d : CallDecision) : AppState P :=
  match s.pending peer with
  | some n => { s with pending := Function.update s.pending peer none }.decideParked n d
  | none => s

/-- A later entry of the same peer drops the sender of the one before. -/
def pendingPark (s : AppState P) (peer : P) (n : ℕ) : AppState P :=
  let parked := { s with pending := Function.update s.pending peer (some n) }
  match s.pending peer with
  | some old => parked.decideParked old .silentlyIgnore
  | none => parked

/-! ## Admission -/

/-- One step of call `n`. -/
def callStep (s : AppState P) (n : ℕ) : AppState P :=
  match s.calls[n]? with
  | some c =>
    match c.pc with
    | .blacklist => s.setCall n (if c.peer ∈ s.blacklist then .decided .reject else .capacity)
    | .capacity =>
      s.setCall n
        (if s.clients.entries.length ≥ s.maxClients then .decided .silentlyIgnore else .admission)
    | .admission => s.setCall n (if c.peer ∈ s.admission then .decided .accept else .park)
    | .park => (s.pendingPark c.peer n).setCall n .parked
    | .parked | .decided .accept | .ended => s
    | .decided _ => s.setCall n .ended
  | none => s

/-- The manager abandons a decision that is still open. -/
def cancel (s : AppState P) (n : ℕ) : AppState P :=
  { s with
    calls := s.calls.modify n fun c =>
      match c.pc with
      | .decided _ | .ended => c
      | _ => { c with pc := .decided .silentlyIgnore } }

/-- The decision times out; the daemon clears the peer's entry, whoever's it is by now. -/
def timeout (s : AppState P) (n : ℕ) : AppState P :=
  match s.calls[n]? with
  | some c =>
    if c.pc = .parked then
      (s.pendingResolve c.peer .silentlyIgnore).setCall n (.decided .silentlyIgnore)
    else s
  | none => s

/-- The accept RPC answers; if it succeeds the manager builds a tunnel, registers it and disconnects
the one it replaces. -/
def acceptCall (s : AppState P) (n : ℕ) (ok : Bool) : AppState P :=
  match s.calls[n]? with
  | some c =>
    if c.pc = .decided .accept then
      let s := s.setCall n .ended
      if ok then
        let s' :=
          { s with
            tunnels := s.tunnels ++ [{ peer := c.peer }]
            sessions := Function.update s.sessions c.peer (some s.tunnels.length) }
        match s.sessions c.peer with
        | some old => s'.disconnect old
        | none => s'
      else s
    else s
  | none => s

/-! ## Watchers -/

def setWatcher (s : AppState P) (i : ℕ) (watcher : WatcherPc) : AppState P :=
  s.modifyTunnel i fun t => { t with watcher }

/-- The tunnel reports `Connected`; `upgrade` says whether the tunnel is still there to hand on. -/
def tunnelConnected (s : AppState P) (i : ℕ) (upgrade : Bool) : AppState P :=
  match s.tunnels[i]? with
  | some t =>
    if t.watcher = .waiting then
      if upgrade then
        { s with events := s.events ++ [(SessionEvent.connected t.peer i, i)] }.setWatcher i .entered
      else s.setWatcher i (.ended false)
    else s
  | none => s

/-- The tunnel reports `Disconnected`. -/
def tunnelGone (s : AppState P) (i : ℕ) : AppState P :=
  match s.tunnels[i]? with
  | some t =>
    let leave (event : SessionEvent P) (emitted : Bool) :=
      { s with
        sessions :=
          if s.sessions t.peer = some i then Function.update s.sessions t.peer none else s.sessions
        events := s.events ++ [(event, i)] }.setWatcher i (.ended emitted)
    match t.watcher with
    | .entered => leave (.disconnected t.peer) true
    | .waiting => leave (.failed t.peer) false
    | .ended _ => s
  | none => s

/-- The tunnel's event stream ends with no further event. -/
def watcherEnds (s : AppState P) (i : ℕ) : AppState P :=
  s.modifyTunnel i fun t =>
    match t.watcher with
    | .waiting => { t with watcher := .ended false }
    | .entered => { t with watcher := .ended true }
    | .ended _ => t

/-! ## The loop and its tasks -/

def setTask (s : AppState P) (i : ℕ) (pc : TaskPc) : AppState P :=
  s.modifyTunnel i fun t => { t with task := some pc }

def handleEvent (s : AppState P) : AppState P :=
  if s.loopRunning then
    match s.events with
    | (.connected peer i, _) :: events =>
      { s with events, done := Function.update s.done peer (some i) }.setTask i .fetchDisplayName
    | (.disconnected peer, _) :: events =>
      { s with events, done := Function.update s.done peer none }
    | (.failed peer, _) :: events => { s with events }.pendingResolve peer .silentlyIgnore
    | [] => s
  else s

/-- One step of the session of tunnel `i`; `ok` is the result of the outside call it makes. The wait
for `done` ends when its sender has sent or is gone. -/
def sessionStep (s : AppState P) (i : ℕ) (peer : P) (ok : Bool) : TaskPc → AppState P × TaskPc
  | .fetchDisplayName => (s, if s.kernelNat then .allocSlot else .startServer)
  | .allocSlot =>
    match s.kernelSlots with
    | slot :: kernelSlots => ({ s with kernelSlots }, .openTun slot)
    | [] => (s, .startServer)
  | .openTun slot =>
    if ok then (s, .attachTun slot) else (s.releaseKernelSlot slot, .startServer)
  | .attachTun slot =>
    if ok then (s, .install (some slot)) else (s.releaseKernelSlot slot, .startServer)
  | .startServer => (s, if ok then .install none else .natFailed)
  | .natFailed => (s.disconnect i, .returned)
  | .install kernelSlot =>
    ({ s with clients := s.clients.insert peer { tunnel := i, kernelSlot } }, .parked)
  | .parked => (s, if s.done peer = some i then .parked else .remove)
  | .remove => (s.removeClient peer, .returned)
  | .returned => (s, .returned)

def taskStep (s : AppState P) (i : ℕ) (ok : Bool) : AppState P :=
  match s.tunnels[i]? with
  | some t =>
    match t.task with
    | some pc =>
      let (s, pc) := s.sessionStep i t.peer ok pc
      s.setTask i pc
    | none => s
  | none => s

/-- One entry that `clear_all` has taken. -/
def clearStep (s : AppState P) : AppState P :=
  match s.clearing with
  | c :: clearing => { s with clearing }.releaseClient c
  | [] => s

end AppState

/-! ## Runs -/

inductive DaemonMove (P : Type)
  | invite (peer : P)
  | call (n : ℕ)
  | cancel (n : ℕ)
  | timeout (n : ℕ)
  | resolve (peer : P) (d : CallDecision)
  | acceptCall (n : ℕ) (ok : Bool)
  | tunnelConnected (i : ℕ) (upgrade : Bool)
  | tunnelGone (i : ℕ)
  | watcherEnds (i : ℕ)
  | handleEvent
  | loopEnds
  | task (i : ℕ) (ok : Bool)
  /-- `remove_client` by the UI. -/
  | removeClient (peer : P)
  /-- `clear_all`: the map is taken, then its entries are released, then the decisions dropped. -/
  | clearAll
  | clearStep
  | clearPending
  | setLists (admission blacklist : List P)
  deriving DecidableEq, Repr

namespace AppState

def step (s : AppState P) : DaemonMove P → AppState P
  | .invite peer => { s with calls := s.calls ++ [{ peer }] }
  | .call n => s.callStep n
  | .cancel n => s.cancel n
  | .timeout n => s.timeout n
  | .resolve peer d => s.pendingResolve peer d
  | .acceptCall n ok => s.acceptCall n ok
  | .tunnelConnected i upgrade => s.tunnelConnected i upgrade
  | .tunnelGone i => s.tunnelGone i
  | .watcherEnds i => s.watcherEnds i
  | .handleEvent => s.handleEvent
  | .loopEnds => { s with loopRunning := false, done := fun _ => none }
  | .task i ok => s.taskStep i ok
  | .removeClient peer => s.removeClient peer
  | .clearAll =>
    { s with clients := ∅, clearing := s.clearing ++ s.clients.entries.map Sigma.snd }
  | .clearStep => s.clearStep
  | .clearPending =>
    { s with
      pending := fun _ => none
      calls := s.calls.map fun c =>
        if c.pc = .parked then { c with pc := .decided .silentlyIgnore } else c }
  | .setLists admission blacklist => { s with admission, blacklist }

def run (s : AppState P) (ms : List (DaemonMove P)) : AppState P := ms.foldl step s

end AppState

end BaleVpn.Daemon
