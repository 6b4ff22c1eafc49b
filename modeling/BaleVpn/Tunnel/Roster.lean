import BaleVpn.Lib.Machine
import BaleVpn.Lib.Notices

/-!
# The roster of the room (`rtc.rs`)

The engine keeps the identities of the remote participants, first from the roster of the join response and
then from the updates of the SFU, and reports to the tunnel loop who comes and goes. The two sources test a
participant's state differently: `seed_peers` takes the active ones, `apply_participant_update` all that are
not disconnected. The set and the events are changed together, under the lock of the set.
-/

namespace BaleVpn.Tunnel

open Lib

/-! ## The engine's set and its events -/

structure ParticipantInfo where
  identity : String
  state : Int32
  deriving DecidableEq, Repr

/-- The values of `participant_info::State` in the protocol's generated code that the source compares
with. -/
structure ParticipantState where
  active : Int32
  disconnected : Int32

inductive EngineEvent
  | peerJoined (identity : String)
  | peerLeft (identity : String)
  | disconnected (reason : String)
  deriving DecidableEq, Repr

/-- `signal_response::Message`, as far as the roster goes. -/
inductive SignalMessage
  | update (participants : List ParticipantInfo)
  | leave
  | other
  deriving DecidableEq, Repr

inductive SignalEvent
  | close (reason : String)
  | message (msg : SignalMessage)
  deriving DecidableEq, Repr

/-- Where `Engine::connect` and the task that it spawns are. -/
inductive EnginePc
  | connecting (otherParticipants : List ParticipantInfo)
  | signalLoop
  | returned
  deriving DecidableEq, Repr

/-- The set of peers, and what was sent on the event channel. -/
structure Engine where
  localIdentity : String
  peers : Finset String := ∅
  events : List EngineEvent := []
  pc : EnginePc
  deriving DecidableEq

namespace Engine

def send (e : Engine) (ev : EngineEvent) : Engine := { e with events := e.events ++ [ev] }

/-- `if set.insert(identity) { send(PeerJoined(identity)) }` -/
def insertPeer (e : Engine) (identity : String) : Engine :=
  if identity ∈ e.peers then e
  else { e with peers := insert identity e.peers }.send (.peerJoined identity)

/-- `if set.remove(identity) { send(PeerLeft(identity)) }` -/
def removePeer (e : Engine) (identity : String) : Engine :=
  if identity ∈ e.peers then { e with peers := e.peers.erase identity }.send (.peerLeft identity)
  else e

variable (State : ParticipantState)

def seedPeer (e : Engine) (p : ParticipantInfo) : Engine :=
  if p.identity = e.localIdentity then e
  else if p.state = State.active then e.insertPeer p.identity
  else e

def seedPeers (e : Engine) (roster : List ParticipantInfo) : Engine := roster.foldl (seedPeer State) e

def applyParticipant (e : Engine) (p : ParticipantInfo) : Engine :=
  if p.identity = e.localIdentity then e
  else if p.state = State.disconnected then e.removePeer p.identity
  else e.insertPeer p.identity

def applyParticipantUpdate (e : Engine) (participants : List ParticipantInfo) : Engine :=
  participants.foldl (applyParticipant State) e

/-- What `signal_loop` does with an event. -/
def onSignal (e : Engine) : SignalEvent → Engine
  | .close reason => { e.send (.disconnected ("signal closed: " ++ reason)) with pc := .returned }
  | .message (.update participants) => e.applyParticipantUpdate State participants
  | .message .leave => { e.send (.disconnected "server leave") with pc := .returned }
  | .message .other => e

def peerPresent (e : Engine) : Bool := !decide (e.peers = ∅)

end Engine

/-! ## Runs -/

inductive EngineMove
  /-- `connect` seeds the set and spawns the signal loop. -/
  | seed
  | signal (ev : SignalEvent)
  /-- The stream of signals is over. -/
  | streamEnded
  /-- A peer connection fails, or the read loop of a carrier track ends: both hold a sender of their own. -/
  | mediaLost (reason : String)
  /-- `close` aborts the task, which it can only do where the task waits for a signal. -/
  | abort
  deriving DecidableEq, Repr

namespace Engine

variable (State : ParticipantState)

def step (e : Engine) : EngineMove → Engine
  | .seed =>
    match e.pc with
    | .connecting otherParticipants => { e.seedPeers State otherParticipants with pc := .signalLoop }
    | .signalLoop | .returned => e
  | .signal ev => if e.pc = .signalLoop then e.onSignal State ev else e
  | .streamEnded =>
    if e.pc = .signalLoop then { e.send (.disconnected "signal stream ended") with pc := .returned }
    else e
  | .mediaLost reason => e.send (.disconnected reason)
  | .abort => if e.pc = .signalLoop then { e with pc := .returned } else e

def run (e : Engine) (ms : List EngineMove) : Engine := ms.foldl (step State) e

end Engine

/-! ## The set agrees with the events -/

/-- The events that report the peers. -/
def rosterNotices : Notices String EngineEvent where
  added := .peerJoined
  removed := .peerLeft
  added_injective _ _ h := EngineEvent.peerJoined.inj h
  removed_injective _ _ h := EngineEvent.peerLeft.inj h
  added_ne_removed := nofun

namespace Engine

/-- The `PeerJoined` and `PeerLeft` events of an identity, in order. -/
def eventsOf (e : Engine) (identity : String) : List EngineEvent := rosterNotices.about identity e.events

/-- The events agree with the set, and there are none about ourselves. -/
structure Consistent (localIdentity : String) (e : Engine) : Prop where
  identity : e.localIdentity = localIdentity
  agrees : rosterNotices.Agrees e.peers e.events
  silent : e.eventsOf localIdentity = []

namespace Consistent

variable {localIdentity identity : String} {e : Engine}

theorem connecting (localIdentity : String) (otherParticipants : List ParticipantInfo) :
    Consistent localIdentity { localIdentity, pc := .connecting otherParticipants } :=
  ⟨rfl, .nil, rfl⟩

theorem goto (h : e.Consistent localIdentity) (pc : EnginePc) : Consistent localIdentity { e with pc } :=
  ⟨h.identity, h.agrees, h.silent⟩

theorem send_disconnected (h : e.Consistent localIdentity) (reason : String) :
    (e.send (.disconnected reason)).Consistent localIdentity := by
  have hforeign : rosterNotices.Foreign (.disconnected reason) := fun _ => ⟨nofun, nofun⟩
  have hsame := Notices.about_append_of_ne e.events (hforeign localIdentity)
  exact ⟨h.identity, h.agrees.foreign hforeign, hsame.trans h.silent⟩

theorem insertPeer (h : e.Consistent localIdentity) (hremote : identity ≠ localIdentity) :
    (e.insertPeer identity).Consistent localIdentity := by
  unfold Engine.insertPeer
  split
  · exact h
  · next hnew =>
    have hsame := Notices.about_append_of_ne (N := rosterNotices) e.events (Notices.added_of_ne hremote)
    exact ⟨h.identity, h.agrees.insert hnew, hsame.trans h.silent⟩

theorem removePeer (h : e.Consistent localIdentity) (hremote : identity ≠ localIdentity) :
    (e.removePeer identity).Consistent localIdentity := by
  unfold Engine.removePeer
  split
  · next hknown =>
    have hsame := Notices.about_append_of_ne (N := rosterNotices) e.events (Notices.removed_of_ne hremote)
    exact ⟨h.identity, h.agrees.erase hknown, hsame.trans h.silent⟩
  · exact h

variable (State : ParticipantState)

theorem seedPeer (h : e.Consistent localIdentity) (p : ParticipantInfo) :
    (e.seedPeer State p).Consistent localIdentity := by
  unfold Engine.seedPeer
  rw [h.identity]
  split
  · exact h
  · next hremote =>
    split
    · exact h.insertPeer hremote
    · exact h

theorem applyParticipant (h : e.Consistent localIdentity) (p : ParticipantInfo) :
    (e.applyParticipant State p).Consistent localIdentity := by
  unfold Engine.applyParticipant
  rw [h.identity]
  split
  · exact h
  · next hremote =>
    split
    · exact h.removePeer hremote
    · exact h.insertPeer hremote

theorem onSignal (h : e.Consistent localIdentity) (ev : SignalEvent) :
    (e.onSignal State ev).Consistent localIdentity := by
  rcases ev with reason | participants | _ | _
  · exact (h.send_disconnected _).goto _
  · exact foldl_invariant (fun _ p h => h.applyParticipant State p) participants h
  · exact (h.send_disconnected _).goto _
  · exact h

theorem step (h : e.Consistent localIdentity) (m : EngineMove) :
    (e.step State m).Consistent localIdentity := by
  rcases m with _ | ev | _ | reason | _
  · rw [Engine.step]
    split
    · next roster _ => exact (foldl_invariant (fun _ p h => h.seedPeer State p) roster h).goto _
    all_goals exact h
  · rw [Engine.step]
    split
    · exact h.onSignal State ev
    · exact h
  · rw [Engine.step]
    split
    · exact (h.send_disconnected _).goto _
    · exact h
  · exact h.send_disconnected reason
  · rw [Engine.step]
    split
    · exact h.goto _
    · exact h

theorem run (h : e.Consistent localIdentity) (ms : List EngineMove) :
    (e.run State ms).Consistent localIdentity :=
  foldl_invariant (fun _ m h => h.step State m) ms h

theorem not_mem (h : e.Consistent localIdentity) : localIdentity ∉ e.peers := by
  intro hmem
  have hlast := (h.agrees.mem_iff localIdentity).mp hmem
  rw [← eventsOf, h.silent] at hlast
  cases hlast

theorem peerPresent_iff (h : e.Consistent localIdentity) : e.peerPresent = true ↔
    ∃ identity, identity ≠ localIdentity ∧ (e.eventsOf identity).getLast? = some (.peerJoined identity) := by
  have hne : e.peerPresent = true ↔ e.peers.Nonempty := by
    rw [peerPresent, Bool.not_eq_true', decide_eq_false_iff_not, Finset.nonempty_iff_ne_empty]
  rw [hne]
  constructor
  · rintro ⟨identity, hmem⟩
    refine ⟨identity, ?_, (h.agrees.mem_iff identity).mp hmem⟩
    rintro rfl
    exact h.not_mem hmem
  · rintro ⟨identity, -, hlast⟩
    exact ⟨identity, (h.agrees.mem_iff identity).mpr hlast⟩

end Consistent

/-- In every state of every run, whatever the roster and the updates say: the events of each identity
alternate and begin with `PeerJoined`, the peers are those whose last event it is, and we are none of
them. -/
theorem roster_agrees (State : ParticipantState) (localIdentity : String)
    (otherParticipants : List ParticipantInfo) (ms : List EngineMove) :
    let e := run State { localIdentity, pc := .connecting otherParticipants } ms
    (∀ identity, rosterNotices.Alternates identity (e.eventsOf identity)) ∧
    (∀ identity, identity ∈ e.peers ↔ (e.eventsOf identity).getLast? = some (.peerJoined identity)) ∧
    localIdentity ∉ e.peers ∧ e.eventsOf localIdentity = [] ∧
    (e.peerPresent = true ↔ ∃ identity, identity ≠ localIdentity ∧
      (e.eventsOf identity).getLast? = some (.peerJoined identity)) := by
  intro e
  have h : e.Consistent localIdentity := (Consistent.connecting localIdentity otherParticipants).run State ms
  exact ⟨h.agrees.alternates, h.agrees.mem_iff, h.not_mem, h.silent, h.peerPresent_iff⟩

end Engine

end BaleVpn.Tunnel
