import Mathlib.Data.List.Induction
import BaleVpn.Daemon.Sessions
import BaleVpn.Lib.Update

/-!
# Admission decisions (`manager.rs`, `daemon.rs`, `server.rs`)

`InternalHandler::decide` files a cancel sender in the manager's `PendingMap` and races the daemon's
`AdmissionDecider::decide` against it; the latter parks in `ServerState.pending`. Both maps are keyed
by peer. A call of `decide` moves by the critical sections of the source; where its future waits, the
`select!` may drop it.

A decision does not disturb those of other peers. A later one of its own peer replaces it and loses the
cancel sender to it, so that decisions are isolated from each other when no two of the same peer overlap.
One that is dropped while it is parked leaves its entry behind; when it was a `CallEnded` that took the
cancel sender, a `Failed` follows, and the daemon's loop then takes the entry out.
-/

namespace BaleVpn.Daemon

open Lib

variable {P : Type} [DecidableEq P]

/-! ## State -/

/-- A call of `InternalHandler::decide`, with `AdmissionDecider::decide` inside its `select!`. -/
inductive DecidePc
  | decider | register
  | blacklist | capacity | admission | park
  /-- The sender is parked, or has gone with the map's entry and is yet to be noticed. -/
  | parked
  | answered (d : CallDecision)
  /-- The 60 seconds are over; `pending_resolve` is next. -/
  | expired
  /-- The `select!` is over; the manager's entry is next. -/
  | clear (d : CallDecision)
  | returned (d : CallDecision)
  deriving DecidableEq, Repr

namespace DecidePc

/-- From the entry in the manager's map to its removal. -/
def Entered : DecidePc → Prop
  | .decider | .register | .returned _ => False
  | _ => True

instance : DecidablePred Entered := fun pc => by cases pc <;> unfold Entered <;> infer_instance

/-- The decider's future is waiting, for a lock or for its answer, and may be dropped. -/
def Waiting : DecidePc → Prop
  | .blacklist | .admission | .parked | .answered _ => True
  | _ => False

instance : DecidablePred Waiting := fun pc => by cases pc <;> unfold Waiting <;> infer_instance

/-- From the parking until the answer has come or `pending_resolve` has run. -/
def Holding : DecidePc → Prop
  | .parked | .expired => True
  | _ => False

theorem Holding.entered {pc : DecidePc} (h : pc.Holding) : pc.Entered := by
  cases pc <;> trivial

end DecidePc

structure Decide (P : Type) where
  peer : P
  pc : DecidePc := .decider
  deriving DecidableEq, Repr

structure Admission (P : Type) where
  /-- `set_admission` was called on the manager. -/
  hasDecider : Bool := true
  admission : List P := []
  blacklist : List P := []
  clientCount : ℕ := 0
  maxClients : ℕ := 1
  decides : List (Decide P) := []
  /-- The manager's `PendingMap`; a cancel sender is named by its call. -/
  cancels : P → Option ℕ := fun _ => none
  /-- `ServerState.pending`. -/
  pending : P → Option ℕ := fun _ => none
  /-- The peers of those `Failed` events of `on_ws_call_ended` that the daemon is yet to act on. -/
  failures : List P := []

namespace Admission

def setPc (s : Admission P) (n : ℕ) (pc : DecidePc) : Admission P :=
  { s with decides := s.decides.modify n fun c => { c with pc } }

/-- A sender of `ServerState.pending` sends or is dropped; only a call that still waits notices. -/
def answer (s : Admission P) (n : ℕ) (d : CallDecision) : Admission P :=
  { s with
    decides := s.decides.modify n fun c => if c.pc = .parked then { c with pc := .answered d } else c }

/-! ## `ServerState` -/

def pendingPark (s : Admission P) (peer : P) (n : ℕ) : Admission P :=
  let parked := { s with pending := Function.update s.pending peer (some n) }
  match s.pending peer with
  | some old => parked.answer old .silentlyIgnore
  | none => parked

def pendingResolve (s : Admission P) (peer : P) (d : CallDecision) : Admission P :=
  match s.pending peer with
  | some n => { s with pending := Function.update s.pending peer none }.answer n d
  | none => s

def clearPending (s : Admission P) : Admission P :=
  { s with
    pending := fun _ => none
    decides := s.decides.mapIdx fun n c =>
      if c.pc = .parked ∧ s.pending c.peer = some n then { c with pc := .answered .silentlyIgnore }
      else c }

/-! ## `decide` -/

/-- One critical section of call `n`. -/
def decideStep (s : Admission P) (n : ℕ) : Admission P :=
  match s.decides[n]? with
  | some c =>
    match c.pc with
    | .decider => s.setPc n (if s.hasDecider then .register else .returned .silentlyIgnore)
    | .register => { s with cancels := Function.update s.cancels c.peer (some n) }.setPc n .blacklist
    | .blacklist => s.setPc n (if c.peer ∈ s.blacklist then .clear .reject else .capacity)
    | .capacity =>
      s.setPc n (if s.clientCount ≥ s.maxClients then .clear .silentlyIgnore else .admission)
    | .admission => s.setPc n (if c.peer ∈ s.admission then .clear .accept else .park)
    | .park => (s.pendingPark c.peer n).setPc n .parked
    | .parked => s
    | .answered d => s.setPc n (.clear d)
    | .expired => (s.pendingResolve c.peer .silentlyIgnore).setPc n (.clear .silentlyIgnore)
    | .clear d => { s with cancels := Function.update s.cancels c.peer none }.setPc n (.returned d)
    | .returned _ => s
  | none => s

/-- `on_ws_call_ended`, for a peer without a session. -/
def onWsCallEnded (s : Admission P) (peer : P) : Admission P :=
  if (s.cancels peer).isSome then
    { s with cancels := Function.update s.cancels peer none, failures := s.failures ++ [peer] }
  else s

/-- The task that the daemon's loop spawns for such an event; these may run in any order. -/
def callFailed (s : Admission P) (peer : P) : Admission P :=
  if peer ∈ s.failures then
    { s with failures := s.failures.erase peer }.pendingResolve peer .silentlyIgnore
  else s

/-- The `select!` sees that the cancel sender is gone and drops the decider's future. -/
def cancel (s : Admission P) (n : ℕ) : Admission P :=
  match s.decides[n]? with
  | some c =>
    if c.pc.Waiting ∧ s.cancels c.peer ≠ some n then s.setPc n (.clear .silentlyIgnore) else s
  | none => s

def timeout (s : Admission P) (n : ℕ) : Admission P :=
  match s.decides[n]? with
  | some c => if c.pc = .parked then s.setPc n .expired else s
  | none => s

end Admission

/-! ## Runs -/

inductive AdmissionMove (P : Type)
  /-- `decide` is called. -/
  | decide (peer : P)
  | step (n : ℕ)
  | cancel (n : ℕ)
  | timeout (n : ℕ)
  /-- `accept_pending` and `reject_pending` of the UI. -/
  | accept (peer : P)
  | reject (peer : P)
  /-- The daemon acts on `SessionEvent::Failed` of a watcher. -/
  | failed (peer : P)
  | callEnded (peer : P)
  /-- The daemon acts on that of a `CallEnded`. -/
  | callFailed (peer : P)
  /-- The end of `clear_all`. -/
  | clearAll
  | setLists (admission blacklist : List P)
  | setClients (clientCount maxClients : ℕ)
  | setDecider
  deriving DecidableEq, Repr

namespace Admission

def move (s : Admission P) : AdmissionMove P → Admission P
  | .decide peer => { s with decides := s.decides ++ [{ peer }] }
  | .step n => s.decideStep n
  | .cancel n => s.cancel n
  | .timeout n => s.timeout n
  | .accept peer => s.pendingResolve peer .accept
  | .reject peer => s.pendingResolve peer .reject
  | .failed peer => s.pendingResolve peer .silentlyIgnore
  | .callEnded peer => s.onWsCallEnded peer
  | .callFailed peer => s.callFailed peer
  | .clearAll => s.clearPending
  | .setLists admission blacklist => { s with admission, blacklist }
  | .setClients clientCount maxClients => { s with clientCount, maxClients }
  | .setDecider => { s with hasDecider := true }

def run (s : Admission P) (ms : List (AdmissionMove P)) : Admission P := ms.foldl move s

/-! ## Isolation -/

/-- The user accepted call `n`: the entry that `accept` took was its own. -/
def UserAccepted (s : Admission P) (ms : List (AdmissionMove P)) (n : ℕ) : Prop :=
  ∃ ms₁ ms₂ peer, ms = ms₁ ++ .accept peer :: ms₂ ∧ (s.run ms₁).pending peer = some n

/-- The peer of call `n` was on the allow-list when the call looked. -/
def AllowListed (s : Admission P) (ms : List (AdmissionMove P)) (n : ℕ) : Prop :=
  ∃ ms₁ ms₂ c, ms = ms₁ ++ .step n :: ms₂ ∧ (s.run ms₁).decides[n]? = some c ∧ c.pc = .admission ∧
    c.peer ∈ (s.run ms₁).admission

/-- The move is the timeout of call `n`, its cancellation, or what follows from them. -/
def Concludes (s : Admission P) (n : ℕ) : AdmissionMove P → Prop
  | .timeout k | .cancel k => k = n
  | .step k => k = n ∧ ∃ c, s.decides[n]? = some c ∧ (c.pc = .expired ∨ ∃ d, c.pc = .clear d)
  | _ => False

/-- Call `k` and its entries stay as they are. -/
structure Untouched (s s' : Admission P) (k : ℕ) : Prop where
  decide : s'.decides[k]? = s.decides[k]?
  pending : ∀ p, s.pending p = some k → s'.pending p = some k
  cancels : ∀ p, s.cancels p = some k → s'.cancels p = some k

def OwnEntries (s : Admission P) (m : AdmissionMove P) : Prop :=
  ∀ n, Concludes s n m → ∀ k ≠ n, Untouched s (s.move m) k

/-- No `decide` is in progress. -/
def Idle (s : Admission P) : Prop := ∀ c ∈ s.decides, ∃ d, c.pc = .returned d

/-- The decisions of a run are isolated from one another. -/
structure Isolated (s : Admission P) (ms : List (AdmissionMove P)) : Prop where
  accept : ∀ n c, (s.run ms).decides[n]? = some c → c.pc = .returned .accept →
    UserAccepted s ms n ∨ AllowListed s ms n
  own : Along move OwnEntries s ms
  empty : (s.run ms).Idle → ∀ p, (s.run ms).pending p = none ∧ (s.run ms).cancels p = none

/-- The timeout or the cancellation of a call leaves the calls of other peers and their entries alone. -/
def OwnPeer (s : Admission P) (m : AdmissionMove P) : Prop :=
  ∀ (n : ℕ) (c : Decide P), s.decides[n]? = some c → Concludes s n m →
    ∀ (k : ℕ) (c' : Decide P), s.decides[k]? = some c' → c'.peer ≠ c.peer → Untouched s (s.move m) k

/-- A call registers when no other of its peer is in progress. -/
def Alone (s : Admission P) : AdmissionMove P → Prop
  | .step n => ∀ c ∈ s.decides[n]?, c.pc = .register →
    ∀ c' ∈ s.decides, c'.peer = c.peer → ¬ c'.pc.Entered
  | _ => True

/-- Call `n` of peer `p` is parked, and without its cancel sender: the next poll of its `select!` drops it. -/
def Drops (s : Admission P) (p : P) (n : ℕ) : Prop :=
  ∃ c, s.decides[n]? = some c ∧ c.peer = p ∧ c.pc = .parked ∧ s.cancels p ≠ some n

/-- Call `n` was dropped while it was parked, with no `Failed` of its peer on its way to the daemon, or with
one that is so still. -/
def LeftBehind (s : Admission P) (ms : List (AdmissionMove P)) (p : P) (n : ℕ) : Prop :=
  ∃ ms₁ ms₂, ms = ms₁ ++ .cancel n :: ms₂ ∧ (s.run ms₁).Drops p n ∧
    (p ∈ (s.run ms₁).failures → p ∈ (s.run ms).failures)

/-- What holds of the decisions of every run. A call that ends takes the entry of its peer out of the
manager's map, also when a later call of the peer has replaced it. -/
structure IsolatedByPeer (s : Admission P) (ms : List (AdmissionMove P)) : Prop where
  accept : ∀ n c, (s.run ms).decides[n]? = some c → c.pc = .returned .accept →
    UserAccepted s ms n ∨ AllowListed s ms n
  own : Along move OwnPeer s ms
  alone : Along move Alone s ms → Along move OwnEntries s ms
  cancels : (s.run ms).Idle → ∀ p, (s.run ms).cancels p = none
  pending : (s.run ms).Idle → ∀ p n, (s.run ms).pending p = some n → LeftBehind s ms p n

/-- A call registers when no other of its peer is in progress, and is not dropped while it is parked. -/
def Apart (s : Admission P) : AdmissionMove P → Prop
  | .step n => ∀ c ∈ s.decides[n]?, c.pc = .register →
    ∀ c' ∈ s.decides, c'.peer = c.peer → ¬ c'.pc.Entered
  | .cancel n => ∀ c ∈ s.decides[n]?, c.pc = .parked → s.cancels c.peer = some n
  | _ => True

instance (s : Admission P) : (m : AdmissionMove P) → Decidable (Apart s m)
  | .step _ => inferInstanceAs (Decidable (∀ c ∈ _, _))
  | .cancel _ => inferInstanceAs (Decidable (∀ c ∈ _, _))
  | .decide _ | .timeout _ | .accept _ | .reject _ | .failed _ | .callEnded _ | .callFailed _
  | .clearAll | .setLists _ _ | .setClients _ _ | .setDecider => isTrue trivial

/-! ## Who may have said yes -/

/-- The call has been told to accept. -/
def Yes (s : Admission P) (n : ℕ) : Prop :=
  ∃ c, s.decides[n]? = some c ∧ c.pc ∈ [.answered .accept, .clear .accept, .returned .accept]

omit [DecidableEq P] in
theorem yes_setPc {s : Admission P} {n k : ℕ} {pc : DecidePc} (h : (s.setPc n pc).Yes k) :
    s.Yes k ∨ k = n ∧ pc ∈ [.answered .accept, .clear .accept, .returned .accept] := by
  obtain ⟨c, hc, hpc⟩ := h
  obtain ⟨a, ha, rfl⟩ := getElem?_modify_eq_some hc
  by_cases hn : n = k
  · exact .inr ⟨hn.symm, by simpa [hn] using hpc⟩
  · exact .inl ⟨a, ha, by simpa [hn] using hpc⟩

omit [DecidableEq P] in
theorem yes_answer {s : Admission P} {n k : ℕ} {d : CallDecision} (h : (s.answer n d).Yes k) :
    s.Yes k ∨ k = n ∧ d = .accept := by
  obtain ⟨c, hc, hpc⟩ := h
  obtain ⟨a, ha, rfl⟩ := getElem?_modify_eq_some hc
  by_cases hn : n = k
  · by_cases hp : a.pc = .parked
    · refine .inr ⟨hn.symm, ?_⟩
      simpa [hn, hp] using hpc
    · exact .inl ⟨a, ha, by simpa [hn, hp] using hpc⟩
  · exact .inl ⟨a, ha, by simpa [hn] using hpc⟩

theorem yes_pendingResolve {s : Admission P} {k : ℕ} {peer : P} {d : CallDecision}
    (h : (s.pendingResolve peer d).Yes k) : s.Yes k ∨ s.pending peer = some k ∧ d = .accept := by
  unfold pendingResolve at h
  split at h
  · next n hn =>
    obtain h | ⟨rfl, rfl⟩ := yes_answer h
    · exact .inl h
    · exact .inr ⟨hn, rfl⟩
  · exact .inl h

theorem yes_pendingPark {s : Admission P} {n k : ℕ} {peer : P} (h : (s.pendingPark peer n).Yes k) :
    s.Yes k := by
  unfold pendingPark at h
  split at h
  · obtain h | ⟨-, hd⟩ := yes_answer h
    · exact h
    · cases hd
  · exact h

theorem yes_decideStep {s : Admission P} {n k : ℕ} (h : (s.decideStep n).Yes k) :
    s.Yes k ∨ k = n ∧ ∃ c, s.decides[n]? = some c ∧ c.pc = .admission ∧ c.peer ∈ s.admission := by
  unfold decideStep at h
  split at h
  · next c hc =>
    split at h
    · obtain h | ⟨-, hpc⟩ := yes_setPc h
      · exact .inl h
      · split at hpc <;> simp at hpc
    · obtain h | ⟨-, hpc⟩ := yes_setPc h
      · exact .inl h
      · simp at hpc
    · obtain h | ⟨-, hpc⟩ := yes_setPc h
      · exact .inl h
      · split at hpc <;> simp at hpc
    · obtain h | ⟨-, hpc⟩ := yes_setPc h
      · exact .inl h
      · split at hpc <;> simp at hpc
    · next hadm =>
      obtain h | ⟨rfl, hpc⟩ := yes_setPc h
      · exact .inl h
      · split at hpc
        · next hmem => exact .inr ⟨rfl, c, hc, hadm, hmem⟩
        · simp at hpc
    · obtain h | ⟨-, hpc⟩ := yes_setPc h
      · exact .inl (yes_pendingPark h)
      · simp at hpc
    · exact .inl h
    · next d hd =>
      obtain h | ⟨rfl, hpc⟩ := yes_setPc h
      · exact .inl h
      · have hd' : d = .accept := by simpa using hpc
        exact .inl ⟨c, hc, by simp [hd, hd']⟩
    · obtain h | ⟨-, hpc⟩ := yes_setPc h
      · obtain h | ⟨-, hd⟩ := yes_pendingResolve h
        · exact .inl h
        · cases hd
      · simp at hpc
    · next d hd =>
      obtain h | ⟨rfl, hpc⟩ := yes_setPc h
      · exact .inl h
      · have hd' : d = .accept := by simpa using hpc
        exact .inl ⟨c, hc, by simp [hd, hd']⟩
    · exact .inl h
  · exact .inl h

theorem yes_move {s : Admission P} {m : AdmissionMove P} {k : ℕ} (h : (s.move m).Yes k) :
    s.Yes k ∨ (∃ peer, m = .accept peer ∧ s.pending peer = some k) ∨
      m = .step k ∧ ∃ c, s.decides[k]? = some c ∧ c.pc = .admission ∧ c.peer ∈ s.admission := by
  cases m with
  | decide peer =>
    obtain ⟨c, hc, hpc⟩ := h
    obtain hc | ⟨-, rfl⟩ := getElem?_concat_eq_some hc
    · exact .inl ⟨c, hc, hpc⟩
    · simp at hpc
  | step n =>
    obtain h | ⟨rfl, hadm⟩ := yes_decideStep h
    · exact .inl h
    · exact .inr (.inr ⟨rfl, hadm⟩)
  | cancel n =>
    simp only [move, cancel] at h
    split at h
    · split at h
      · obtain h | ⟨-, hpc⟩ := yes_setPc h
        · exact .inl h
        · simp at hpc
      · exact .inl h
    · exact .inl h
  | timeout n =>
    simp only [move, timeout] at h
    split at h
    · split at h
      · obtain h | ⟨-, hpc⟩ := yes_setPc h
        · exact .inl h
        · simp at hpc
      · exact .inl h
    · exact .inl h
  | accept peer =>
    obtain h | ⟨hp, -⟩ := yes_pendingResolve h
    · exact .inl h
    · exact .inr (.inl ⟨peer, rfl, hp⟩)
  | reject peer =>
    obtain h | ⟨-, hd⟩ := yes_pendingResolve h
    · exact .inl h
    · cases hd
  | failed peer =>
    obtain h | ⟨-, hd⟩ := yes_pendingResolve h
    · exact .inl h
    · cases hd
  | clearAll =>
    obtain ⟨c, hc, hpc⟩ := h
    simp only [move, clearPending, List.getElem?_mapIdx] at hc
    obtain ⟨a, ha, rfl⟩ := Option.map_eq_some_iff.mp hc
    refine .inl ⟨a, ha, ?_⟩
    split at hpc
    · simp at hpc
    · exact hpc
  | callEnded peer =>
    simp only [move, onWsCallEnded] at h
    split at h <;> exact .inl h
  | callFailed peer =>
    simp only [move, callFailed] at h
    split at h
    · obtain h | ⟨-, hd⟩ := yes_pendingResolve h
      · exact .inl h
      · cases hd
    · exact .inl h
  | setLists admission blacklist => exact .inl h
  | setClients clientCount maxClients => exact .inl h
  | setDecider => exact .inl h

theorem run_snoc (s : Admission P) (ms : List (AdmissionMove P)) (m : AdmissionMove P) :
    s.run (ms ++ [m]) = (s.run ms).move m := by
  simp [run]

/-- In every run, whoever is told to accept was accepted by the user or is on the allow-list. -/
theorem yes_run {s : Admission P} (hs : s.decides = []) (ms : List (AdmissionMove P)) :
    ∀ {n : ℕ}, (s.run ms).Yes n → UserAccepted s ms n ∨ AllowListed s ms n := by
  induction ms using List.reverseRecOn with
  | nil =>
    intro n h
    obtain ⟨c, hc, -⟩ := h
    simp [run, hs] at hc
  | append_singleton ms m ih =>
    intro n h
    rw [run_snoc] at h
    obtain h | ⟨peer, rfl, hp⟩ | ⟨rfl, c, hc, hpc, hmem⟩ := yes_move h
    · obtain ⟨ms₁, ms₂, peer, rfl, hp⟩ | ⟨ms₁, ms₂, c, rfl, hc⟩ := ih h
      · exact .inl ⟨ms₁, ms₂ ++ [m], peer, by simp, hp⟩
      · exact .inr ⟨ms₁, ms₂ ++ [m], c, by simp, hc⟩
    · exact .inl ⟨ms, [], peer, rfl, hp⟩
    · exact .inr ⟨ms, [], c, rfl, hc, hpc, hmem⟩

/-! ## Whose the entries are -/

theorem getElem?_pendingResolve {s : Admission P} {n : ℕ} {c : Decide P} (peer : P) (d : CallDecision)
    (hc : s.decides[n]? = some c) (hpc : c.pc ≠ .parked) :
    (s.pendingResolve peer d).decides[n]? = some c := by
  unfold pendingResolve
  split
  · simp [answer, List.getElem?_modify, hc, hpc]
  · exact hc

theorem pendingResolve_pending (s : Admission P) (peer : P) (d : CallDecision) :
    (s.pendingResolve peer d).pending = Function.update s.pending peer none := by
  unfold pendingResolve
  split
  · rfl
  · next hp => rw [← hp, Function.update_eq_self]

theorem pendingPark_pending (s : Admission P) (peer : P) (n : ℕ) :
    (s.pendingPark peer n).pending = Function.update s.pending peer (some n) := by
  unfold pendingPark
  split <;> rfl

theorem pendingResolve_failures (s : Admission P) (peer : P) (d : CallDecision) :
    (s.pendingResolve peer d).failures = s.failures := by
  unfold pendingResolve
  split <;> rfl

theorem pendingPark_failures (s : Admission P) (peer : P) (n : ℕ) :
    (s.pendingPark peer n).failures = s.failures := by
  unfold pendingPark
  split <;> rfl

theorem pendingResolve_cancels (s : Admission P) (peer : P) (d : CallDecision) :
    (s.pendingResolve peer d).cancels = s.cancels := by
  unfold pendingResolve
  split <;> rfl

/-! ## What is left alone -/

omit [DecidableEq P] in
theorem untouched_setPc (s : Admission P) {n k : ℕ} (hk : k ≠ n) (pc : DecidePc) :
    Untouched s (s.setPc n pc) k :=
  ⟨by simp [setPc, hk.symm], fun _ hp => hp, fun _ hp => hp⟩

omit [DecidableEq P] in
theorem Untouched.refl (s : Admission P) (k : ℕ) : Untouched s s k :=
  ⟨rfl, fun _ hp => hp, fun _ hp => hp⟩

omit [DecidableEq P] in
theorem Untouched.trans {s s' s'' : Admission P} {k : ℕ} (h : Untouched s s' k)
    (h' : Untouched s' s'' k) : Untouched s s'' k :=
  ⟨h'.decide.trans h.decide, fun p hp => h'.pending p (h.pending p hp),
    fun p hp => h'.cancels p (h.cancels p hp)⟩

omit [DecidableEq P] in
theorem untouched_timeout (s : Admission P) {n k : ℕ} (hk : k ≠ n) : Untouched s (s.timeout n) k := by
  unfold timeout
  split
  · split
    · exact untouched_setPc s hk _
    · exact .refl s k
  · exact .refl s k

omit [DecidableEq P] in
theorem untouched_cancel (s : Admission P) {n k : ℕ} (hk : k ≠ n) : Untouched s (s.cancel n) k := by
  unfold cancel
  split
  · split
    · exact untouched_setPc s hk _
    · exact .refl s k
  · exact .refl s k

/-! ## Entries and their peers -/

/-- Entries are filed under their peer, in the manager's map as long as their call is in progress. -/
structure Keyed (s : Admission P) : Prop where
  pending : ∀ p n, s.pending p = some n → ∃ c, s.decides[n]? = some c ∧ c.peer = p
  cancels : ∀ p n, s.cancels p = some n → ∃ c, s.decides[n]? = some c ∧ c.peer = p ∧ c.pc.Entered

namespace Keyed

variable {s : Admission P} {n : ℕ} {c : Decide P} {pc : DecidePc}

omit [DecidableEq P] in
theorem advance (h : Keyed s) {s' : Admission P} (f : ℕ → Decide P → Decide P)
    (hdecides : ∀ l, s'.decides[l]? = s.decides[l]?.map (f l)) (hpeer : ∀ l a, (f l a).peer = a.peer)
    (hpending : ∀ p l, s'.pending p = some l → s.pending p = some l)
    (hcancels : ∀ p l, s'.cancels p = some l → s.cancels p = some l)
    (hent : ∀ l a, s.decides[l]? = some a → s'.cancels a.peer = some l → a.pc.Entered →
      (f l a).pc.Entered) : Keyed s' where
  pending p l hl := by
    obtain ⟨a, ha, rfl⟩ := h.pending p l (hpending p l hl)
    exact ⟨f l a, by rw [hdecides, ha]; rfl, hpeer l a⟩
  cancels p l hl := by
    obtain ⟨a, ha, rfl, hpc⟩ := h.cancels p l (hcancels p l hl)
    exact ⟨f l a, by rw [hdecides, ha]; rfl, hpeer l a, hent l a ha hl hpc⟩

omit [DecidableEq P] in
theorem setPc (h : Keyed s) (hc : s.decides[n]? = some c)
    (hent : s.cancels c.peer = some n → c.pc.Entered → pc.Entered) : Keyed (s.setPc n pc) := by
  refine h.advance (fun l a => if n = l then { a with pc } else a) (fun l => List.getElem?_modify ..)
    (fun l a => ?_) (fun _ _ hp => hp) (fun _ _ hp => hp) (fun l a ha hp hpc => ?_)
  · split <;> rfl
  · split
    · next hn =>
      subst hn
      obtain rfl : c = a := by simpa [hc] using ha
      exact hent hp hpc
    · exact hpc

omit [DecidableEq P] in
theorem answer (h : Keyed s) (n : ℕ) (d : CallDecision) : Keyed (s.answer n d) := by
  refine h.advance
    (fun l a => if n = l then (if a.pc = .parked then { a with pc := .answered d } else a) else a)
    (fun l => List.getElem?_modify ..) (fun l a => ?_) (fun _ _ hp => hp) (fun _ _ hp => hp)
    (fun l a _ _ hpc => ?_)
  · split
    · split <;> rfl
    · rfl
  · split
    · split
      · trivial
      · exact hpc
    · exact hpc

theorem erasePending (h : Keyed s) (peer : P) :
    Keyed { s with pending := Function.update s.pending peer none } := by
  refine ⟨fun p l hl => ?_, h.cancels⟩
  by_cases hp : p = peer
  · simp [hp] at hl
  · exact h.pending p l (by simpa [Function.update_of_ne hp] using hl)

theorem eraseCancel (h : Keyed s) (peer : P) :
    Keyed { s with cancels := Function.update s.cancels peer none } := by
  refine ⟨h.pending, fun p l hl => ?_⟩
  by_cases hp : p = peer
  · simp [hp] at hl
  · exact h.cancels p l (by simpa [Function.update_of_ne hp] using hl)

theorem pendingResolve (h : Keyed s) (peer : P) (d : CallDecision) : Keyed (s.pendingResolve peer d) := by
  unfold Admission.pendingResolve
  split
  · next n hn => exact (h.erasePending peer).answer n d
  · exact h

theorem pendingPark (h : Keyed s) (hc : s.decides[n]? = some c) : Keyed (s.pendingPark c.peer n) := by
  have hparked : Keyed { s with pending := Function.update s.pending c.peer (some n) } := by
    refine ⟨fun p l hl => ?_, h.cancels⟩
    by_cases hp : p = c.peer
    · subst hp
      obtain rfl : n = l := by simpa using hl
      exact ⟨c, hc, rfl⟩
    · exact h.pending p l (by simpa [Function.update_of_ne hp] using hl)
  unfold Admission.pendingPark
  split
  · next old _ => exact hparked.answer old .silentlyIgnore
  · exact hparked

theorem register (h : Keyed s) (hc : s.decides[n]? = some c) :
    Keyed ({ s with cancels := Function.update s.cancels c.peer (some n) }.setPc n .blacklist) where
  pending p l hl := by
    have hmoved : Keyed (s.setPc n .blacklist) := h.setPc hc fun _ _ => trivial
    exact hmoved.pending p l hl
  cancels p l hl := by
    by_cases hp : p = c.peer
    · subst hp
      obtain rfl : n = l := by simpa [Admission.setPc] using hl
      exact ⟨{ c with pc := .blacklist }, by simp [Admission.setPc, hc], rfl, trivial⟩
    · have hmoved : Keyed (s.setPc n .blacklist) := h.setPc hc fun _ _ => trivial
      exact hmoved.cancels p l (by simpa [Admission.setPc, Function.update_of_ne hp] using hl)

theorem getElem?_pendingPark {s : Admission P} {n k : ℕ} {c : Decide P} (peer : P)
    (hc : s.decides[k]? = some c) (hpc : c.pc ≠ .parked) :
    (s.pendingPark peer n).decides[k]? = some c := by
  unfold Admission.pendingPark
  split
  · simp [Admission.answer, List.getElem?_modify, hc, hpc]
  · exact hc

theorem step (h : Keyed s) (n : ℕ) : Keyed (s.decideStep n) := by
  unfold decideStep
  split
  · next c hc =>
    split
    · next hpc => exact h.setPc hc fun _ hent => by simp [hpc, DecidePc.Entered] at hent
    · exact h.register hc
    · exact h.setPc hc fun _ _ => by split <;> trivial
    · exact h.setPc hc fun _ _ => by split <;> trivial
    · exact h.setPc hc fun _ _ => by split <;> trivial
    · next hpc =>
      have hc' := getElem?_pendingPark (n := n) c.peer hc (by simp [hpc])
      exact (h.pendingPark hc).setPc hc' fun _ _ => trivial
    · exact h
    · exact h.setPc hc fun _ _ => trivial
    · next hpc =>
      have hc' := getElem?_pendingResolve c.peer .silentlyIgnore hc (by simp [hpc])
      exact (h.pendingResolve c.peer .silentlyIgnore).setPc hc' fun _ _ => trivial
    · exact (h.eraseCancel c.peer).setPc hc fun hp _ => by simp at hp
    · exact h
  · exact h

theorem move (h : Keyed s) (m : AdmissionMove P) : Keyed (s.move m) := by
  cases m with
  | decide peer =>
    refine ⟨fun p n hn => ?_, fun p n hn => ?_⟩
    · obtain ⟨c, hc, hpeer⟩ := h.pending p n hn
      exact ⟨c, getElem?_concat_of_eq_some hc _, hpeer⟩
    · obtain ⟨c, hc, hpc⟩ := h.cancels p n hn
      exact ⟨c, getElem?_concat_of_eq_some hc _, hpc⟩
  | step n => exact h.step n
  | cancel n =>
    simp only [Admission.move, Admission.cancel]
    split
    · next c hc =>
      split
      · exact h.setPc hc fun _ _ => trivial
      · exact h
    · exact h
  | timeout n =>
    simp only [Admission.move, Admission.timeout]
    split
    · next c hc =>
      split
      · exact h.setPc hc fun _ _ => trivial
      · exact h
    · exact h
  | accept peer => exact h.pendingResolve peer .accept
  | reject peer => exact h.pendingResolve peer .reject
  | failed peer => exact h.pendingResolve peer .silentlyIgnore
  | callEnded peer =>
    simp only [Admission.move, onWsCallEnded]
    split
    · have herased := h.eraseCancel peer
      exact ⟨herased.pending, herased.cancels⟩
    · exact h
  | callFailed peer =>
    simp only [Admission.move, callFailed]
    split
    · have hkept : Keyed { s with failures := s.failures.erase peer } := ⟨h.pending, h.cancels⟩
      exact hkept.pendingResolve peer .silentlyIgnore
    · exact h
  | clearAll =>
    refine h.advance
      (fun n a => if a.pc = .parked ∧ s.pending a.peer = some n then
        { a with pc := .answered .silentlyIgnore } else a)
      (fun l => List.getElem?_mapIdx) (fun l a => ?_) (fun p l hl => by cases hl) (fun _ _ hp => hp)
      (fun l a _ _ hpc => ?_)
    · split <;> rfl
    · split
      · trivial
      · exact hpc
  | setLists admission blacklist => exact ⟨h.pending, h.cancels⟩
  | setClients clientCount maxClients => exact ⟨h.pending, h.cancels⟩
  | setDecider => exact ⟨h.pending, h.cancels⟩

variable {k : ℕ} {c' : Decide P}

omit [DecidableEq P] in
theorem eq_of_pending (h : Keyed s) (hc' : s.decides[k]? = some c') {p : P} (hp : s.pending p = some k) :
    p = c'.peer := by
  obtain ⟨a, ha, rfl⟩ := h.pending p k hp
  obtain rfl : c' = a := by simpa [hc'] using ha
  rfl

omit [DecidableEq P] in
theorem eq_of_cancels (h : Keyed s) (hc' : s.decides[k]? = some c') {p : P}
    (hp : s.cancels p = some k) : p = c'.peer := by
  obtain ⟨a, ha, rfl, -⟩ := h.cancels p k hp
  obtain rfl : c' = a := by simpa [hc'] using ha
  rfl

theorem untouched_pendingResolve (h : Keyed s) (hc' : s.decides[k]? = some c') {peer : P}
    (hne : c'.peer ≠ peer) (d : CallDecision) : Untouched s (s.pendingResolve peer d) k where
  decide := by
    unfold Admission.pendingResolve
    split
    · next l hl =>
      have hlk : l ≠ k := by
        rintro rfl
        exact hne (h.eq_of_pending hc' hl).symm
      simp [Admission.answer, hlk]
    · rfl
  pending p hp := by
    obtain rfl := h.eq_of_pending hc' hp
    rw [pendingResolve_pending, Function.update_of_ne hne, hp]
  cancels p hp := by rw [pendingResolve_cancels, hp]

theorem untouched_clear (h : Keyed s) (hc' : s.decides[k]? = some c') {peer : P}
    (hne : c'.peer ≠ peer) :
    Untouched s { s with cancels := Function.update s.cancels peer none } k where
  decide := rfl
  pending _ hp := hp
  cancels p hp := by
    obtain rfl := h.eq_of_cancels hc' hp
    simp [Function.update_of_ne hne, hp]

theorem ownPeer (h : Keyed s) (m : AdmissionMove P) : OwnPeer s m := by
  intro n c hc hm k c' hc' hne
  have hk : k ≠ n := by
    rintro rfl
    obtain rfl : c = c' := by simpa [hc] using hc'
    exact hne rfl
  cases m with
  | timeout l =>
    obtain rfl : l = n := hm
    exact untouched_timeout s hk
  | cancel l =>
    obtain rfl : l = n := hm
    exact untouched_cancel s hk
  | step l =>
    obtain ⟨rfl, a, ha, hpc⟩ := hm
    obtain rfl : c = a := by simpa [hc] using ha
    simp only [Admission.move, decideStep, hc]
    obtain hpc | ⟨d, hpc⟩ := hpc
    · rw [hpc]
      exact (h.untouched_pendingResolve hc' hne _).trans (untouched_setPc _ hk _)
    · rw [hpc]
      exact (h.untouched_clear hc' hne).trans (untouched_setPc _ hk _)
  | _ => exact hm.elim

omit [DecidableEq P] in
theorem cancels_eq_none (h : Keyed s) (hidle : s.Idle) (p : P) : s.cancels p = none := by
  cases hp : s.cancels p with
  | none => rfl
  | some n =>
    obtain ⟨c, hc, -, hent⟩ := h.cancels p n hp
    obtain ⟨d, hd⟩ := hidle c (List.mem_of_getElem? hc)
    simp [hd, DecidePc.Entered] at hent

end Keyed

/-! ## One call of a peer at a time -/

/-- Calls move on, but none is entered or parked, and no entry is filed. -/
structure Onward (s s' : Admission P) : Prop where
  calls : ∀ (n : ℕ) (c' : Decide P), s'.decides[n]? = some c' → ∃ c, s.decides[n]? = some c ∧
    c'.peer = c.peer ∧ (c'.pc.Entered → c.pc.Entered) ∧ (c'.pc.Holding → c.pc.Holding)
  pending : ∀ p n, s'.pending p = some n → s.pending p = some n

namespace Onward

variable {s s' s'' : Admission P} {n : ℕ} {c : Decide P} {pc : DecidePc}

omit [DecidableEq P] in
theorem of_decides (hdecides : s'.decides = s.decides)
    (hpending : ∀ p n, s'.pending p = some n → s.pending p = some n) : Onward s s' where
  calls n c' hc' := ⟨c', by rw [← hdecides, hc'], rfl, id, id⟩
  pending := hpending

omit [DecidableEq P] in
theorem trans (h : Onward s s') (h' : Onward s' s'') : Onward s s'' where
  calls n c'' hc'' := by
    obtain ⟨c', hc', hpeer', hent', hhold'⟩ := h'.calls n c'' hc''
    obtain ⟨c, hc, hpeer, hent, hhold⟩ := h.calls n c' hc'
    exact ⟨c, hc, hpeer'.trans hpeer, fun he => hent (hent' he), fun hh => hhold (hhold' hh)⟩
  pending p n hp := h.pending p n (h'.pending p n hp)

omit [DecidableEq P] in
theorem setPc (hc : s.decides[n]? = some c) (hent : pc.Entered → c.pc.Entered)
    (hhold : pc.Holding → c.pc.Holding) : Onward s (s.setPc n pc) where
  calls l c' hc' := by
    obtain ⟨rfl, rfl⟩ | ⟨-, hold⟩ := getElem?_modify_cases hc hc'
    · exact ⟨c, hc, rfl, hent, hhold⟩
    · exact ⟨c', hold, rfl, id, id⟩
  pending _ _ hp := hp

omit [DecidableEq P] in
theorem answer (s : Admission P) (n : ℕ) (d : CallDecision) : Onward s (s.answer n d) where
  calls l c' hc' := by
    obtain ⟨a, ha, rfl⟩ := getElem?_modify_eq_some hc'
    refine ⟨a, ha, ?_⟩
    split
    · split
      · next hparked => exact ⟨rfl, fun _ => by rw [hparked]; trivial, False.elim⟩
      · exact ⟨rfl, id, id⟩
    · exact ⟨rfl, id, id⟩
  pending _ _ hp := hp

theorem pendingResolve (s : Admission P) (peer : P) (d : CallDecision) :
    Onward s (s.pendingResolve peer d) := by
  unfold Admission.pendingResolve
  split
  · next l _ =>
    have herased : Onward s { s with pending := Function.update s.pending peer none } := by
      refine .of_decides rfl fun p k hk => ?_
      by_cases hp : p = peer
      · simp [hp] at hk
      · simpa [Function.update_of_ne hp] using hk
    exact herased.trans (.answer _ l d)
  · exact .of_decides rfl fun _ _ hp => hp

omit [DecidableEq P] in
theorem clearPending (s : Admission P) : Onward s s.clearPending where
  calls l c' hc' := by
    simp only [Admission.clearPending, List.getElem?_mapIdx] at hc'
    obtain ⟨a, ha, rfl⟩ := Option.map_eq_some_iff.mp hc'
    refine ⟨a, ha, ?_⟩
    split
    · next hparked => exact ⟨rfl, fun _ => by rw [hparked.1]; trivial, False.elim⟩
    · exact ⟨rfl, id, id⟩
  pending _ _ hp := by cases hp

theorem pendingPark_calls (s : Admission P) (peer : P) (n l : ℕ) (c' : Decide P)
    (hc' : (s.pendingPark peer n).decides[l]? = some c') : ∃ c, s.decides[l]? = some c ∧ c'.peer = c.peer ∧
      (c'.pc.Entered → c.pc.Entered) ∧ (c'.pc.Holding → c.pc.Holding) := by
  unfold Admission.pendingPark at hc'
  split at hc'
  · next old _ => exact (Onward.answer _ old .silentlyIgnore).calls l c' hc'
  · exact ⟨c', hc', rfl, id, id⟩

theorem decideStep (hc : s.decides[n]? = some c) (hreg : c.pc ≠ .register) (hpark : c.pc ≠ .park) :
    Onward s (s.decideStep n) := by
  simp only [Admission.decideStep, hc]
  split
  · next hpc =>
    refine .setPc hc (fun hent => ?_) fun hhold => ?_
    · split at hent <;> exact hent.elim
    · split at hhold <;> exact hhold.elim
  · next hpc => exact absurd hpc hreg
  · next hpc =>
    refine .setPc hc (fun _ => by rw [hpc]; trivial) fun hhold => ?_
    split at hhold <;> exact hhold.elim
  · next hpc =>
    refine .setPc hc (fun _ => by rw [hpc]; trivial) fun hhold => ?_
    split at hhold <;> exact hhold.elim
  · next hpc =>
    refine .setPc hc (fun _ => by rw [hpc]; trivial) fun hhold => ?_
    split at hhold <;> exact hhold.elim
  · next hpc => exact absurd hpc hpark
  · exact .of_decides rfl fun _ _ hp => hp
  · next hpc => exact .setPc hc (fun _ => by rw [hpc]; trivial) False.elim
  · next hpc =>
    have hc' := getElem?_pendingResolve c.peer .silentlyIgnore hc (by simp [hpc])
    exact (Onward.pendingResolve s c.peer .silentlyIgnore).trans
      (.setPc hc' (fun _ => by rw [hpc]; trivial) False.elim)
  · have herased : Onward s { s with cancels := Function.update s.cancels c.peer none } :=
      .of_decides rfl fun _ _ hp => hp
    exact herased.trans (.setPc hc False.elim False.elim)
  · exact .of_decides rfl fun _ _ hp => hp

theorem move {m : AdmissionMove P} (hdecide : ∀ peer, m ≠ .decide peer) (hstep : ∀ n, m ≠ .step n)
    (s : Admission P) : Onward s (s.move m) := by
  have hsame : Onward s s := .of_decides rfl fun _ _ hp => hp
  cases m with
  | decide peer => exact absurd rfl (hdecide peer)
  | step n => exact absurd rfl (hstep n)
  | cancel n =>
    simp only [Admission.move, Admission.cancel]
    split
    · next c hc =>
      split
      · next hwait =>
        refine .setPc hc (fun _ => ?_) False.elim
        have hw := hwait.1
        cases hpc : c.pc <;> rw [hpc] at hw <;> trivial
      · exact hsame
    · exact hsame
  | timeout n =>
    simp only [Admission.move, Admission.timeout]
    split
    · next c hc =>
      split
      · next hpc => exact .setPc hc (fun _ => by rw [hpc]; trivial) fun _ => by rw [hpc]; trivial
      · exact hsame
    · exact hsame
  | accept peer => exact .pendingResolve s peer .accept
  | reject peer => exact .pendingResolve s peer .reject
  | failed peer => exact .pendingResolve s peer .silentlyIgnore
  | callEnded peer =>
    simp only [Admission.move, onWsCallEnded]
    split
    · exact .of_decides rfl fun _ _ hp => hp
    · exact hsame
  | callFailed peer =>
    simp only [Admission.move, callFailed]
    split
    · have hkept : Onward s { s with failures := s.failures.erase peer } :=
        .of_decides rfl fun _ _ hp => hp
      exact hkept.trans (.pendingResolve _ peer .silentlyIgnore)
    · exact hsame
  | clearAll => exact .clearPending s
  | setLists admission blacklist => exact .of_decides rfl fun _ _ hp => hp
  | setClients clientCount maxClients => exact .of_decides rfl fun _ _ hp => hp
  | setDecider => exact .of_decides rfl fun _ _ hp => hp

end Onward

/-- One call of a peer is in progress at a time; while it holds its entry, no other does. -/
structure Lone (s : Admission P) : Prop extends Keyed s where
  single : ∀ (n k : ℕ) (c c' : Decide P), s.decides[n]? = some c → s.decides[k]? = some c' →
    c.peer = c'.peer → c.pc.Entered → c'.pc.Entered → n = k
  row : ∀ (n : ℕ) (c : Decide P), s.decides[n]? = some c → c.pc.Holding →
    ∀ k, s.pending c.peer = some k → k = n

namespace Lone

variable {s s' : Admission P} {n k : ℕ} {c : Decide P}

omit [DecidableEq P] in
theorem onward (h : Lone s) (hkeyed : Keyed s') (hon : Onward s s') : Lone s' where
  toKeyed := hkeyed
  single i j a b hi hj hpeer hei hej := by
    obtain ⟨a', ha, hpa, hea, -⟩ := hon.calls i a hi
    obtain ⟨b', hb, hpb, heb, -⟩ := hon.calls j b hj
    exact h.single i j a' b' ha hb (by rw [← hpa, ← hpb, hpeer]) (hea hei) (heb hej)
  row l a hl hhold k hk := by
    obtain ⟨a', ha, hpa, -, hha⟩ := hon.calls l a hl
    exact h.row l a' ha (hha hhold) k (hpa ▸ hon.pending _ _ hk)

theorem register (h : Lone s) (hc : s.decides[n]? = some c)
    (halone : ∀ c' ∈ s.decides, c'.peer = c.peer → ¬ c'.pc.Entered) :
    Lone ({ s with cancels := Function.update s.cancels c.peer (some n) }.setPc n .blacklist) where
  toKeyed := h.toKeyed.register hc
  single i j ci cj hi hj hpeer hei hej := by
    -- Besides the call itself, none of its peer is in progress.
    have other : ∀ (l : ℕ) (cl : Decide P), s.decides[l]? = some cl → cl.peer = c.peer →
        ¬ cl.pc.Entered :=
      fun l cl hl => halone cl (List.mem_of_getElem? hl)
    obtain ⟨rfl, rfl⟩ | ⟨-, hiold⟩ := getElem?_modify_cases hc hi
    · obtain ⟨rfl, -⟩ | ⟨-, hjold⟩ := getElem?_modify_cases hc hj
      · rfl
      · exact absurd hej (other j cj hjold hpeer.symm)
    · obtain ⟨-, rfl⟩ | ⟨-, hjold⟩ := getElem?_modify_cases hc hj
      · exact absurd hei (other i ci hiold hpeer)
      · exact h.single i j ci cj hiold hjold hpeer hei hej
  row l a hl hhold k hk := by
    obtain ⟨rfl, rfl⟩ | ⟨-, hold⟩ := getElem?_modify_cases hc hl
    · exact hhold.elim
    · exact h.row l a hold hhold k hk

theorem park (h : Lone s) (hc : s.decides[n]? = some c) (hpc : c.pc = .park) :
    Lone ((s.pendingPark c.peer n).setPc n .parked) := by
  have hkeyed : Keyed ((s.pendingPark c.peer n).setPc n .parked) := by
    have hstep := h.toKeyed.step n
    simpa only [decideStep, hc, hpc] using hstep
  have hent : c.pc.Entered := by rw [hpc]; trivial
  have hcalls := Onward.pendingPark_calls s c.peer n
  have hc' := Keyed.getElem?_pendingPark (n := n) c.peer hc (by simp [hpc])
  refine ⟨hkeyed, fun i j a b hi hj hpeer hei hej => ?_, fun l a hl hhold k hk => ?_⟩
  · -- The call itself was in progress before.
    have hback : ∀ (l : ℕ) (a : Decide P),
        ((s.pendingPark c.peer n).setPc n .parked).decides[l]? = some a → a.pc.Entered →
          ∃ a', s.decides[l]? = some a' ∧ a.peer = a'.peer ∧ a'.pc.Entered := by
      intro l a hl he
      obtain ⟨rfl, rfl⟩ | ⟨-, hold⟩ := getElem?_modify_cases hc' hl
      · exact ⟨c, hc, rfl, hent⟩
      · obtain ⟨a', ha', hp, hea, -⟩ := hcalls l a hold
        exact ⟨a', ha', hp, hea he⟩
    obtain ⟨a', ha, hpa, hea⟩ := hback i a hi hei
    obtain ⟨b', hb, hpb, heb⟩ := hback j b hj hej
    exact h.single i j a' b' ha hb (by rw [← hpa, ← hpb, hpeer]) hea heb
  · have hrow : Function.update s.pending c.peer (some n) a.peer = some k :=
      (congrFun (pendingPark_pending s c.peer n) a.peer).symm.trans hk
    obtain ⟨rfl, rfl⟩ | ⟨hne, hold⟩ := getElem?_modify_cases hc' hl
    · simpa using hrow.symm
    · obtain ⟨a', ha', hp, -, hha⟩ := hcalls l a hold
      by_cases hpeer : a.peer = c.peer
      · exact absurd (h.single l n a' c ha' hc (hp.symm.trans hpeer) (hha hhold).entered hent) hne
      · rw [Function.update_of_ne hpeer] at hrow
        exact h.row l a' ha' (hha hhold) k (hp ▸ hrow)

theorem move (h : Lone s) (m : AdmissionMove P) (halone : Alone s m) : Lone (s.move m) := by
  have hkeyed := h.toKeyed.move m
  cases m with
  | decide peer =>
    refine ⟨hkeyed, fun i j a b hi hj hpeer hei hej => ?_, fun l a hl hhold k hk => ?_⟩
    · obtain hi | ⟨-, rfl⟩ := getElem?_concat_eq_some hi
      · obtain hj | ⟨-, rfl⟩ := getElem?_concat_eq_some hj
        · exact h.single i j a b hi hj hpeer hei hej
        · exact hej.elim
      · exact hei.elim
    · obtain hl | ⟨-, rfl⟩ := getElem?_concat_eq_some hl
      · exact h.row l a hl hhold k hk
      · exact hhold.elim
  | step n =>
    cases hc : s.decides[n]? with
    | none =>
      simp only [Admission.move, decideStep, hc]
      exact h
    | some c =>
      by_cases hreg : c.pc = .register
      · simp only [Admission.move, decideStep, hc, hreg]
        exact h.register hc (halone c hc hreg)
      · by_cases hpark : c.pc = .park
        · simp only [Admission.move, decideStep, hc, hpark]
          exact h.park hc hpark
        · exact h.onward hkeyed (.decideStep hc hreg hpark)
  | _ => exact h.onward hkeyed (.move (fun _ h => by cases h) (fun _ h => by cases h) s)

theorem untouched_pendingResolve (h : Lone s) (hc : s.decides[n]? = some c) (hhold : c.pc.Holding)
    (hk : k ≠ n) (d : CallDecision) : Untouched s (s.pendingResolve c.peer d) k where
  decide := by
    unfold Admission.pendingResolve
    split
    · next l hl =>
      have hlk : l ≠ k := by
        rw [h.row n c hc hhold l hl]
        exact hk.symm
      simp [answer, hlk]
    · rfl
  pending p hp := by
    have hne : p ≠ c.peer := by
      rintro rfl
      exact hk (h.row n c hc hhold k hp)
    rw [pendingResolve_pending, Function.update_of_ne hne, hp]
  cancels p hp := by rw [pendingResolve_cancels, hp]

theorem untouched_clear (h : Lone s) (hc : s.decides[n]? = some c) (hent : c.pc.Entered) (hk : k ≠ n) :
    Untouched s { s with cancels := Function.update s.cancels c.peer none } k where
  decide := rfl
  pending _ hp := hp
  cancels p hp := by
    have hne : p ≠ c.peer := by
      rintro rfl
      obtain ⟨a, ha, hpeer, hea⟩ := h.cancels _ k hp
      exact hk (h.single k n a c ha hc hpeer hea hent)
    simp [Function.update_of_ne hne, hp]

theorem ownEntries (h : Lone s) (m : AdmissionMove P) : OwnEntries s m := by
  intro n hm k hk
  cases m with
  | timeout l =>
    obtain rfl : l = n := hm
    exact untouched_timeout s hk
  | cancel l =>
    obtain rfl : l = n := hm
    exact untouched_cancel s hk
  | step l =>
    obtain ⟨rfl, c, hc, hpc⟩ := hm
    simp only [Admission.move, decideStep, hc]
    obtain hpc | ⟨d, hpc⟩ := hpc
    · rw [hpc]
      have hhold : c.pc.Holding := by rw [hpc]; trivial
      exact (h.untouched_pendingResolve hc hhold hk _).trans (untouched_setPc _ hk _)
    · rw [hpc]
      have hent : c.pc.Entered := by rw [hpc]; trivial
      exact (h.untouched_clear hc hent hk).trans (untouched_setPc _ hk _)
  | _ => exact hm.elim

end Lone

/-! ## Entries that are left -/

/-- Call `n` of peer `p` is there to take its entry out, or to be told that it is gone. -/
def HoldsRow (s : Admission P) (p : P) (n : ℕ) : Prop :=
  ∃ c, s.decides[n]? = some c ∧ c.peer = p ∧ c.pc.Holding

section Rows

variable {s : Admission P} {m : AdmissionMove P} {p : P} {n : ℕ}

/-- An entry of `ServerState.pending` is an old one, or its call has just parked. -/
theorem row_old_or_parked (hrow : (s.move m).pending p = some n) :
    s.pending p = some n ∨ HoldsRow (s.move m) p n := by
  cases m with
  | decide peer => exact .inl hrow
  | step l =>
    cases hc : s.decides[l]? with
    | none => exact .inl (by simpa only [Admission.move, decideStep, hc] using hrow)
    | some c =>
      by_cases hreg : c.pc = .register
      · exact .inl (by simpa only [Admission.move, decideStep, hc, hreg, setPc] using hrow)
      · by_cases hpark : c.pc = .park
        · simp only [Admission.move, decideStep, hc, hpark] at hrow ⊢
          have hrow' : Function.update s.pending c.peer (some l) p = some n :=
            (congrFun (pendingPark_pending s c.peer l) p).symm.trans hrow
          by_cases hp : p = c.peer
          · subst hp
            obtain rfl : l = n := by simpa using hrow'
            have hc' := Keyed.getElem?_pendingPark (n := l) c.peer hc (by simp [hpark])
            exact .inr ⟨{ c with pc := .parked }, by simp [setPc, hc'], rfl, trivial⟩
          · rw [Function.update_of_ne hp] at hrow'
            exact .inl hrow'
        · exact .inl ((Onward.decideStep hc hreg hpark).pending p n hrow)
  | _ => exact .inl ((Onward.move (fun _ h => by cases h) (fun _ h => by cases h) s).pending p n hrow)

omit [DecidableEq P] in
theorem HoldsRow.setPc (h : HoldsRow s p n) {l : ℕ} (hl : l ≠ n) (pc : DecidePc) :
    HoldsRow (s.setPc l pc) p n := by
  obtain ⟨c, hc, hpeer, hhold⟩ := h
  exact ⟨c, by simp [Admission.setPc, hl, hc], hpeer, hhold⟩

omit [DecidableEq P] in
theorem HoldsRow.answer (h : HoldsRow s p n) {l : ℕ} (hl : l ≠ n) (d : CallDecision) :
    HoldsRow (s.answer l d) p n := by
  obtain ⟨c, hc, hpeer, hhold⟩ := h
  exact ⟨c, by simp [Admission.answer, hl, hc], hpeer, hhold⟩

omit [DecidableEq P] in
theorem Keyed.ne_of_holdsRow (h : Keyed s) (hhold : HoldsRow s p n) {peer : P} (hne : p ≠ peer) {l : ℕ}
    (hl : s.pending peer = some l) : l ≠ n := by
  rintro rfl
  obtain ⟨c, hc, rfl, -⟩ := hhold
  exact hne (h.eq_of_pending hc hl).symm

theorem HoldsRow.pendingResolve (hhold : HoldsRow s p n) (h : Keyed s) {peer : P} {d : CallDecision}
    (hrow : (s.pendingResolve peer d).pending p = some n) : HoldsRow (s.pendingResolve peer d) p n := by
  rw [pendingResolve_pending] at hrow
  have hne : p ≠ peer := by
    rintro rfl
    simp at hrow
  unfold Admission.pendingResolve
  split
  · next l hl =>
    have hkept : HoldsRow { s with pending := Function.update s.pending peer none } p n := hhold
    exact hkept.answer (h.ne_of_holdsRow hhold hne hl) d
  · exact hhold

theorem HoldsRow.pendingPark (hhold : HoldsRow s p n) (h : Keyed s) {peer : P} (hne : p ≠ peer) (l : ℕ) :
    HoldsRow (s.pendingPark peer l) p n := by
  have hkept : HoldsRow { s with pending := Function.update s.pending peer (some l) } p n := hhold
  unfold Admission.pendingPark
  split
  · next old hold => exact hkept.answer (h.ne_of_holdsRow hhold hne hold) .silentlyIgnore
  · exact hkept

theorem HoldsRow.decideStep (hhold : HoldsRow s p n) (h : Keyed s) {l : ℕ} (hl : l ≠ n)
    (hrow : (s.decideStep l).pending p = some n) : HoldsRow (s.decideStep l) p n := by
  unfold Admission.decideStep at hrow ⊢
  split
  · next c hc =>
    simp only [hc] at hrow
    split
    · exact hhold.setPc hl _
    · have hkept : HoldsRow { s with cancels := Function.update s.cancels c.peer (some l) } p n := hhold
      exact hkept.setPc hl _
    · exact hhold.setPc hl _
    · exact hhold.setPc hl _
    · exact hhold.setPc hl _
    · next hpc =>
      simp only [hpc] at hrow
      have hne : p ≠ c.peer := by
        rintro rfl
        have hrow' := (congrFun (pendingPark_pending s c.peer l) c.peer).symm.trans hrow
        rw [Function.update_self] at hrow'
        exact hl (Option.some.inj hrow')
      exact (hhold.pendingPark h hne l).setPc hl _
    · exact hhold
    · exact hhold.setPc hl _
    · next hpc =>
      simp only [hpc] at hrow
      exact (hhold.pendingResolve h hrow).setPc hl _
    · have hkept : HoldsRow { s with cancels := Function.update s.cancels c.peer none } p n := hhold
      exact hkept.setPc hl _
    · exact hhold
  · exact hhold

/-- Who holds its entry does so until the entry is gone, or until it is dropped. -/
theorem HoldsRow.move (hhold : HoldsRow s p n) (h : Keyed s) (hrow : (s.move m).pending p = some n) :
    HoldsRow (s.move m) p n ∨ m = .cancel n ∧ s.Drops p n := by
  have hcopy := hhold
  obtain ⟨c, hc, hpeer, hpc⟩ := hhold
  cases m with
  | decide peer => exact .inl ⟨c, getElem?_concat_of_eq_some hc _, hpeer, hpc⟩
  | step l =>
    by_cases hl : l = n
    · subst hl
      cases hcase : c.pc <;> rw [hcase] at hpc <;> try exact hpc.elim
      case parked =>
        simp only [Admission.move, Admission.decideStep, hc, hcase]
        exact .inl hcopy
      case expired =>
        -- It takes the entry of its own peer out.
        subst hpeer
        simp only [Admission.move, Admission.decideStep, hc, hcase, Admission.setPc, pendingResolve_pending,
          Function.update_self] at hrow
        cases hrow
    · exact .inl (hcopy.decideStep h hl hrow)
  | cancel l =>
    simp only [Admission.move, Admission.cancel] at hrow ⊢
    split
    · next c' hc' =>
      split
      · next hwait =>
        by_cases hl : l = n
        · subst hl
          obtain rfl : c = c' := by simpa [hc] using hc'
          refine .inr ⟨rfl, c, hc, hpeer, ?_, hpeer ▸ hwait.2⟩
          cases hcase : c.pc <;> rw [hcase] at hpc hwait <;> first
            | rfl
            | exact hpc.elim
            | exact hwait.1.elim
        · exact .inl (hcopy.setPc hl _)
      · exact .inl hcopy
    · exact .inl hcopy
  | timeout l =>
    simp only [Admission.move, Admission.timeout] at hrow ⊢
    split
    · next c' hc' =>
      split
      · by_cases hl : l = n
        · subst hl
          exact .inl ⟨{ c with pc := .expired }, by simp [Admission.setPc, hc], hpeer, trivial⟩
        · exact .inl (hcopy.setPc hl _)
      · exact .inl hcopy
    · exact .inl hcopy
  | accept peer => exact .inl (hcopy.pendingResolve h hrow)
  | reject peer => exact .inl (hcopy.pendingResolve h hrow)
  | failed peer => exact .inl (hcopy.pendingResolve h hrow)
  | callEnded peer =>
    simp only [Admission.move, onWsCallEnded]
    split
    · exact .inl ⟨c, hc, hpeer, hpc⟩
    · exact .inl hcopy
  | callFailed peer =>
    simp only [Admission.move, Admission.callFailed] at hrow ⊢
    split
    · next hmem =>
      rw [if_pos hmem] at hrow
      have hkept : HoldsRow { s with failures := s.failures.erase peer } p n := hcopy
      exact .inl (hkept.pendingResolve ⟨h.pending, h.cancels⟩ hrow)
    · exact .inl hcopy
  | clearAll => cases hrow
  | setLists admission blacklist => exact .inl hcopy
  | setClients clientCount maxClients => exact .inl hcopy
  | setDecider => exact .inl hcopy

theorem decideStep_failures (s : Admission P) (l : ℕ) : (s.decideStep l).failures = s.failures := by
  unfold Admission.decideStep
  split
  · next c _ =>
    split
    case h_6 => exact pendingPark_failures s c.peer l
    case h_9 => exact pendingResolve_failures s c.peer .silentlyIgnore
    all_goals rfl
  · rfl

/-- No entry outlives a `Failed` of its peer. -/
theorem failures_move (hrow : (s.move m).pending p = some n) (hp : p ∈ s.failures) :
    p ∈ (s.move m).failures := by
  cases m with
  | step l => exact (decideStep_failures s l).symm ▸ hp
  | cancel l =>
    simp only [Admission.move, Admission.cancel]
    split
    · split <;> exact hp
    · exact hp
  | timeout l =>
    simp only [Admission.move, Admission.timeout]
    split
    · split <;> exact hp
    · exact hp
  | accept peer => exact (pendingResolve_failures s peer .accept).symm ▸ hp
  | reject peer => exact (pendingResolve_failures s peer .reject).symm ▸ hp
  | failed peer => exact (pendingResolve_failures s peer .silentlyIgnore).symm ▸ hp
  | callEnded peer =>
    simp only [Admission.move, onWsCallEnded]
    split
    · exact List.mem_append_left _ hp
    · exact hp
  | callFailed peer =>
    simp only [Admission.move, Admission.callFailed] at hrow ⊢
    split
    · next hmem =>
      rw [if_pos hmem, pendingResolve_pending] at hrow
      have hne : p ≠ peer := by
        rintro rfl
        simp at hrow
      rw [pendingResolve_failures]
      exact (List.mem_erase_of_ne hne).mpr hp
    · exact hp
  | decide peer => exact hp
  | clearAll => exact hp
  | setLists admission blacklist => exact hp
  | setClients clientCount maxClients => exact hp
  | setDecider => exact hp

end Rows

/-- Before the first call. -/
def start (hasDecider : Bool) (admission blacklist : List P) (clientCount maxClients : ℕ) : Admission P :=
  { hasDecider, admission, blacklist, clientCount, maxClients }

omit [DecidableEq P] in
theorem keyed_start (hasDecider : Bool) (admission blacklist : List P) (clientCount maxClients : ℕ) :
    Keyed (start hasDecider admission blacklist clientCount maxClients) where
  pending _ _ hp := by cases hp
  cancels _ _ hp := by cases hp

omit [DecidableEq P] in
theorem lone_start (hasDecider : Bool) (admission blacklist : List P) (clientCount maxClients : ℕ) :
    Lone (start hasDecider admission blacklist clientCount maxClients) where
  toKeyed := keyed_start hasDecider admission blacklist clientCount maxClients
  single _ _ _ _ hc := by simp [start] at hc
  row _ _ hc := by simp [start] at hc

/-- In every run, an entry of `ServerState.pending` has its call, or was left behind. -/
theorem rows_run {s : Admission P} (hkeyed : Keyed s) (hnew : ∀ p, s.pending p = none)
    (ms : List (AdmissionMove P)) : ∀ {p : P} {n : ℕ}, (s.run ms).pending p = some n →
      HoldsRow (s.run ms) p n ∨ LeftBehind s ms p n := by
  induction ms using List.reverseRecOn with
  | nil =>
    intro p n hrow
    rw [show s.run [] = s from rfl, hnew p] at hrow
    cases hrow
  | append_singleton ms m ih =>
    intro p n hrow
    have hkeyed' : Keyed (s.run ms) := foldl_invariant (fun _ m h => h.move m) ms hkeyed
    rw [run_snoc] at hrow ⊢
    obtain hold | hparked := row_old_or_parked hrow
    · obtain hhold | ⟨ms₁, ms₂, rfl, hdrops, hfailed⟩ := ih hold
      · obtain hhold' | ⟨rfl, hdrops⟩ := hhold.move hkeyed' hrow
        · exact .inl hhold'
        · exact .inr ⟨ms, [], rfl, hdrops, fun hp => by rw [run_snoc]; exact failures_move hrow hp⟩
      · exact .inr ⟨ms₁, ms₂ ++ [m], by simp, hdrops,
          fun hp => by rw [run_snoc]; exact failures_move hrow (hfailed hp)⟩
    · exact .inl hparked

/-! ## Isolated decisions -/

section Isolated

variable (hasDecider : Bool) (admission blacklist : List P) (clientCount maxClients : ℕ)
  {ms : List (AdmissionMove P)}

theorem ownEntries_of_alone
    (h : Along move Alone (start hasDecider admission blacklist clientCount maxClients) ms) :
    Along move OwnEntries (start hasDecider admission blacklist clientCount maxClients) ms :=
  Along.imp (fun _ m halone hlone => ⟨hlone.move m halone, hlone.ownEntries m⟩)
    (lone_start hasDecider admission blacklist clientCount maxClients) h

theorem cancels_of_idle
    (hidle : ((start hasDecider admission blacklist clientCount maxClients).run ms).Idle) (p : P) :
    ((start hasDecider admission blacklist clientCount maxClients).run ms).cancels p = none := by
  have hkeyed : Keyed ((start hasDecider admission blacklist clientCount maxClients).run ms) :=
    foldl_invariant (fun _ m h => h.move m) ms
      (keyed_start hasDecider admission blacklist clientCount maxClients)
  exact hkeyed.cancels_eq_none hidle p

theorem leftBehind_of_idle
    (hidle : ((start hasDecider admission blacklist clientCount maxClients).run ms).Idle) {p : P} {n : ℕ}
    (hrow : ((start hasDecider admission blacklist clientCount maxClients).run ms).pending p = some n) :
    LeftBehind (start hasDecider admission blacklist clientCount maxClients) ms p n := by
  have hkeyed := keyed_start hasDecider admission blacklist clientCount maxClients
  refine (rows_run hkeyed (fun _ => rfl) ms hrow).resolve_left ?_
  rintro ⟨c, hc, -, hhold⟩
  obtain ⟨d, hd⟩ := hidle c (List.mem_of_getElem? hc)
  rw [hd] at hhold
  exact hhold

/-- When no two calls of one peer overlap and none is dropped while parked, decisions are isolated. -/
theorem isolated_of_apart
    (h : Along move Apart (start hasDecider admission blacklist clientCount maxClients) ms) :
    Isolated (start hasDecider admission blacklist clientCount maxClients) ms where
  accept n c hc hpc := yes_run rfl ms ⟨c, hc, by simp [hpc]⟩
  own := by
    refine ownEntries_of_alone hasDecider admission blacklist clientCount maxClients ?_
    refine Along.imp (I := fun _ => True) (fun _ m hapart _ => ⟨trivial, ?_⟩) trivial h
    cases m <;> first | exact hapart | trivial
  empty hidle p := by
    refine ⟨?_, cancels_of_idle hasDecider admission blacklist clientCount maxClients hidle p⟩
    cases hrow : ((start hasDecider admission blacklist clientCount maxClients).run ms).pending p with
    | none => rfl
    | some n =>
      obtain ⟨ms₁, ms₂, rfl, ⟨c, hc, rfl, hpc, hgone⟩, -⟩ :=
        leftBehind_of_idle hasDecider admission blacklist clientCount maxClients hidle hrow
      exact absurd (h.middle c hc hpc) hgone

/-- The user accepts one caller while the decision on another times out. -/
example :
    Isolated (start true [] [] 0 2)
      ([AdmissionMove.decide 4, .decide 7] ++ List.replicate 6 (AdmissionMove.step 0) ++
        List.replicate 6 (AdmissionMove.step 1) ++
        [AdmissionMove.accept 4, .timeout 1, .step 0, .step 1, .step 0, .step 1] : List (AdmissionMove ℕ)) :=
  isolated_of_apart true [] [] 0 2 (by decide +kernel)

end Isolated

theorem decisions_isolated (hasDecider : Bool) (admission blacklist : List P)
    (clientCount maxClients : ℕ) (ms : List (AdmissionMove P)) :
    IsolatedByPeer (start hasDecider admission blacklist clientCount maxClients) ms where
  accept n c hc hpc := yes_run rfl ms ⟨c, hc, by simp [hpc]⟩
  own := Along.of_invariant (fun s m hkeyed => ⟨hkeyed.move m, hkeyed.ownPeer m⟩) ms
    (keyed_start hasDecider admission blacklist clientCount maxClients)
  alone h := ownEntries_of_alone hasDecider admission blacklist clientCount maxClients h
  cancels hidle p := cancels_of_idle hasDecider admission blacklist clientCount maxClients hidle p
  pending hidle _ _ hrow := leftBehind_of_idle hasDecider admission blacklist clientCount maxClients hidle hrow

/-- A peer calls again while its first call is parked, and the first call ends. -/
def recalled : List (AdmissionMove ℕ) :=
  [AdmissionMove.decide 4] ++ List.replicate 6 (AdmissionMove.step 0) ++ [AdmissionMove.decide 4] ++
    List.replicate 6 (AdmissionMove.step 1) ++ [AdmissionMove.step 0]

/-- The clean-up of the first call takes the second one's cancel sender. -/
theorem recall_not_isolated : ¬ Isolated (start true [] [] 0 2) (recalled ++ [AdmissionMove.step 0]) := by
  intro h
  have hover : ((start true [] [] 0 2).run recalled).decides[0]? =
      some { peer := 4, pc := .clear .silentlyIgnore } := by decide +kernel
  have hlater : ((start true [] [] 0 2).run recalled).cancels 4 = some 1 := by decide +kernel
  have hown : OwnEntries ((start true [] [] 0 2).run recalled) (.step 0) := h.own.last
  have hkept := (hown 0 ⟨rfl, _, hover, .inr ⟨_, rfl⟩⟩ 1 (by omega)).cancels 4 hlater
  have hgone : (((start true [] [] 0 2).run recalled).move (.step 0)).cancels 4 = none := by
    decide +kernel
  rw [hgone] at hkept
  cases hkept

end Admission

end BaleVpn.Daemon
