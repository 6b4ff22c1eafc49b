import BaleVpn.Signaling.Incoming

/-!
# Outgoing calls (`signaling.rs`, `manager.rs`)

`ClientTunnelManager::place_call` awaits `BaleSignaling::place_call`, makes a tunnel, puts it in `current`
and spawns a watcher. A `callEnded` push is looked up in `active_peers`; the manager's task takes the
event and disconnects the current tunnel if it is of that peer and has not been entered.

A call that the other side ends before its tunnel is up fails as it should when `active_peers` has it by
the time the push is dispatched, and the manager takes the event when the tunnel is the current one.
Before that the hang-up is dropped, at the one place or at the other.
-/

namespace BaleVpn.Signaling

open Lib Daemon

/-! ## State -/

/-- `ClientTunnelManager::place_call`. -/
inductive PlacePc
  /-- `StartCall` is under way. -/
  | startCall
  | track
  /-- `BaleSignaling::place_call` has returned. -/
  | connect
  | replace
  | supersede (old : Option ℕ)
  | watch
  | returned
  | failed
  deriving DecidableEq, Repr

/-- `spawn_client_watcher`. -/
inductive ClientWatcherPc
  | unspawned | waiting
  /-- `entered` is set. -/
  | connecting
  /-- The tunnel was the current one. -/
  | announcing
  /-- `current` is cleared if it was this tunnel's. -/
  | leaving (wasCurrent : Bool)
  | ended
  deriving DecidableEq, Repr

inductive TunnelEvent
  | connected | disconnected
  deriving DecidableEq, Repr

/-- A call placed, with its tunnel and the watcher of that. -/
structure PlacedCall where
  peer : ℤ
  pc : PlacePc := .startCall
  /-- Of the `StartCall` reply. -/
  callId : ℤ := 0
  /-- The room is up. -/
  connected : Bool := false
  /-- `disconnect` was called. -/
  down : Bool := false
  /-- The tunnel is over and has said so. -/
  gone : Bool := false
  events : List TunnelEvent := []
  watcher : ClientWatcherPc := .unspawned
  entered : Bool := false
  /-- Its `callEnded` came before the tunnel was up; for the record only. -/
  hungUp : Bool := false
  deriving DecidableEq, Repr

/-- The `StartCall` reply is there. -/
def PlacePc.Answered : PlacePc → Bool
  | .startCall | .failed => false
  | _ => true

/-- The tunnel is made. -/
def PlacePc.Made : PlacePc → Bool
  | .replace | .supersede _ | .watch | .returned => true
  | _ => false

/-- The push finds the call answered and its tunnel not up. -/
def PlacedCall.InWindow (callId : ℤ) (c : PlacedCall) : Prop :=
  c.callId = callId ∧ c.pc.Answered = true ∧ c.connected = false

instance (callId : ℤ) (c : PlacedCall) : Decidable (c.InWindow callId) :=
  inferInstanceAs (Decidable (_ ∧ _ ∧ _))

structure Client where
  calls : List PlacedCall := []
  activePeers : ℤ → Option ℤ := fun _ => none
  /-- The `CallEnded` events on their way to the manager, each with its call. -/
  events : List (ℤ × ℤ) := []
  current : Option ℕ := none
  /-- What the watchers have emitted, each with its call. -/
  emitted : List (SessionEvent ℤ × ℕ) := []

namespace Client

def modify (s : Client) (n : ℕ) (f : PlacedCall → PlacedCall) : Client :=
  { s with calls := s.calls.modify n f }

def disconnect (s : Client) (n : ℕ) : Client := s.modify n fun c => { c with down := true }

/-! ## `place_call` -/

/-- `start_call` returns. -/
def reply (s : Client) (n : ℕ) (call : Option CallEntity) : Client :=
  match s.calls[n]? with
  | some c =>
    if c.pc = .startCall then
      match call with
      | some call =>
        if !call.isLivekit || call.token == "" then s.modify n fun c => { c with pc := .failed }
        else s.modify n fun c => { c with pc := .track, callId := call.callId }
      | none => s.modify n fun c => { c with pc := .failed }
    else s
  | none => s

def placeStep (s : Client) (n : ℕ) : Client :=
  match s.calls[n]? with
  | some c =>
    match c.pc with
    | .track =>
      { s with activePeers := Function.update s.activePeers c.callId (some c.peer) }.modify n
        fun c => { c with pc := .connect }
    | .connect => s.modify n fun c => { c with pc := .replace }
    | .replace =>
      { s with current := some n }.modify n fun c => { c with pc := .supersede s.current }
    | .supersede old =>
      let s :=
        match old with
        | some old => s.disconnect old
        | none => s
      s.modify n fun c => { c with pc := .watch }
    | .watch => s.modify n fun c => { c with pc := .returned, watcher := .waiting }
    | .startCall | .returned | .failed => s
  | none => s

/-! ## The end of a call -/

/-- `on_call_ended_internal`. -/
def callEnded (s : Client) (callId : ℤ) : Client :=
  let s :=
    { s with calls := s.calls.map fun c : PlacedCall =>
        if c.InWindow callId then { c with hungUp := true } else c }
  match s.activePeers callId with
  | some peer =>
    { s with
      activePeers := Function.update s.activePeers callId none
      events := s.events ++ [(peer, callId)] }
  | none => s

/-- `on_ws_call_ended` of the client manager. -/
def onWsCallEnded (s : Client) (peer : ℤ) : Client :=
  match s.current with
  | some n =>
    match s.calls[n]? with
    | some c => if c.peer = peer ∧ c.entered = false then s.disconnect n else s
    | none => s
  | none => s

def takeEvent (s : Client) : Client :=
  match s.events with
  | (peer, _) :: events => { s with events }.onWsCallEnded peer
  | [] => s

/-! ## Tunnels and watchers -/

/-- The room comes up. -/
def lkConnected (s : Client) (n : ℕ) : Client :=
  s.modify n fun c =>
    if c.pc.Made ∧ c.connected = false ∧ c.gone = false then
      { c with connected := true, events := c.events ++ [.connected] }
    else c

/-- The tunnel ends, on its own or because it was disconnected. -/
def lkGone (s : Client) (n : ℕ) : Client :=
  s.modify n fun c =>
    if c.pc.Made ∧ c.gone = false then { c with gone := true, events := c.events ++ [.disconnected] } else c

/-- The watcher takes the next event of its tunnel. -/
def watch (s : Client) (n : ℕ) : Client :=
  match s.calls[n]? with
  | some c =>
    if c.watcher = .waiting then
      match c.events with
      | .connected :: events =>
        if c.entered then s.modify n fun c => { c with events }
        else s.modify n fun c => { c with events, entered := true, watcher := .connecting }
      | .disconnected :: events =>
        { s with current := if s.current = some n then none else s.current }.modify n fun c =>
          { c with events, watcher := .leaving (s.current = some n) }
      | [] => s
    else s
  | none => s

/-- What the watcher does about it; a tunnel that is not current may be there no more, which `upgrade`
says. -/
def watchStep (s : Client) (n : ℕ) (upgrade : Bool) : Client :=
  match s.calls[n]? with
  | some c =>
    match c.watcher with
    | .connecting =>
      if s.current = some n then s.modify n fun c => { c with watcher := .announcing }
      else s.modify n fun c => { c with watcher := .ended, down := true }
    | .announcing =>
      if s.current = some n ∨ upgrade then
        { s with emitted := s.emitted ++ [(SessionEvent.connected c.peer n, n)] }.modify n fun c =>
          { c with watcher := .waiting }
      else s.modify n fun c => { c with watcher := .ended }
    | .leaving wasCurrent =>
      let event : SessionEvent ℤ := if c.entered then .disconnected c.peer else .failed c.peer
      { s with emitted := if wasCurrent then s.emitted ++ [(event, n)] else s.emitted }.modify n fun c =>
        { c with watcher := .ended }
    | .unspawned | .waiting | .ended => s
  | none => s

end Client

/-! ## Runs -/

inductive ClientMove
  | placeCall (peer : ℤ)
  | reply (n : ℕ) (call : Option CallEntity)
  | step (n : ℕ)
  | push (callId : ℤ)
  | takeEvent
  | lkConnected (n : ℕ)
  | lkGone (n : ℕ)
  | watch (n : ℕ)
  | watchStep (n : ℕ) (upgrade : Bool)
  deriving DecidableEq, Repr

namespace Client

def move (s : Client) : ClientMove → Client
  | .placeCall peer => { s with calls := s.calls ++ [{ peer }] }
  | .reply n call => s.reply n call
  | .step n => s.placeStep n
  | .push callId => if callId ≠ 0 then s.callEnded callId else s
  | .takeEvent => s.takeEvent
  | .lkConnected n => s.lkConnected n
  | .lkGone n => s.lkGone n
  | .watch n => s.watch n
  | .watchStep n upgrade => s.watchStep n upgrade

def run (s : Client) (ms : List ClientMove) : Client := ms.foldl move s

/-! ## No lost hang-up -/

/-- The watcher has found its tunnel current at the end, and says that the call failed or has said so. -/
def Left (s : Client) (n : ℕ) (c : PlacedCall) : Prop :=
  c.gone = true ∧ c.entered = false ∧
    (c.watcher = .leaving true ∨ c.watcher = .ended ∧ (SessionEvent.failed c.peer, n) ∈ s.emitted)

instance (s : Client) (n : ℕ) (c : PlacedCall) : Decidable (Left s n c) :=
  inferInstanceAs (Decidable (_ ∧ _ ∧ _))

/-- What concerns the call has been taken: its event, its tunnel's end and the tunnel's events. -/
structure Consumed (s : Client) (c : PlacedCall) : Prop where
  event : (c.peer, c.callId) ∉ s.events
  ends : c.down = true → c.gone = true
  tunnel : c.watcher = .waiting → c.events = []
  watcher : c.watcher = .unspawned ∨ c.watcher = .waiting ∨ c.watcher = .ended

/-- Every call that was hung up on in time, and has been placed, has failed. -/
def NoneLost (s : Client) : Prop :=
  ∀ (n : ℕ) (c : PlacedCall), s.calls[n]? = some c → c.hungUp = true → c.pc = .returned → Consumed s c →
    c.gone = true ∧ (SessionEvent.failed c.peer, n) ∈ s.emitted

/-- A hang-up finds the call in `active_peers`; its event is taken while the tunnel is the current one, or
when that has failed by itself; and until then the room does not come up and no other call is placed. -/
def Caught (s : Client) : ClientMove → Prop
  | .push callId => callId ≠ 0 → ∀ c ∈ s.calls, c.InWindow callId → c.hungUp = false →
    s.activePeers callId = some c.peer
  | .takeEvent => ∀ e ∈ s.events.head?, ∀ n ∈ List.range s.calls.length, ∀ c ∈ s.calls[n]?,
    c.hungUp = true → (c.peer, c.callId) = e → s.current = some n ∨ Left s n c
  | .lkConnected n => ∀ c ∈ s.calls[n]?, c.hungUp = false
  | .step k => ∀ c ∈ s.calls[k]?, c.pc = .replace → ∀ n ∈ s.current, ∀ c' ∈ s.calls[n]?, c'.hungUp = false
  | _ => True

instance (s : Client) : (m : ClientMove) → Decidable (Caught s m)
  | .push _ => inferInstanceAs (Decidable (_ → _))
  | .takeEvent => inferInstanceAs (Decidable (∀ e ∈ _, _))
  | .lkConnected _ => inferInstanceAs (Decidable (∀ c ∈ _, _))
  | .step _ => inferInstanceAs (Decidable (∀ c ∈ _, _))
  | .placeCall _ | .reply _ _ | .lkGone _ | .watch _ | .watchStep _ _ => isTrue trivial

end Client

/-- The watcher has not had the end of its tunnel. -/
@[simp]
def ClientWatcherPc.Open : ClientWatcherPc → Bool
  | .unspawned | .waiting | .connecting | .announcing => true
  | _ => false

namespace Client

/-- Where a hang-up is: on its way, acted on, or seen by the watcher. -/
def Pending (s : Client) (n : ℕ) (c : PlacedCall) : Prop :=
  (c.peer, c.callId) ∈ s.events ∨ (s.current = some n ∧ c.down = true) ∨ Left s n c

structure Sound (s : Client) (n : ℕ) (c : PlacedCall) : Prop where
  fresh : c.connected = false →
    TunnelEvent.connected ∉ c.events ∧ c.entered = false ∧ c.watcher ≠ .connecting ∧ c.watcher ≠ .announcing
  held : s.current = some n → c.watcher.Open
  gone : c.gone = true → TunnelEvent.disconnected ∈ c.events ∨ c.watcher.Open = false
  said : TunnelEvent.disconnected ∈ c.events → c.gone = true
  early : c.pc ≠ .returned → c.watcher = .unspawned
  late : c.pc = .returned → c.watcher ≠ .unspawned
  hung : c.hungUp = true → c.connected = false ∧ c.pc.Answered ∧ Pending s n c

def AllSound (s : Client) : Prop := ∀ (n : ℕ) (c : PlacedCall), s.calls[n]? = some c → Sound s n c

theorem AllSound.noneLost {s : Client} (h : AllSound s) : NoneLost s := by
  intro n c hc hup hpc hconsumed
  have hsound := h n c hc
  obtain ⟨-, -, hpending⟩ := hsound.hung hup
  obtain hevent | ⟨hcurrent, hdown⟩ | ⟨hgone, -, hleft⟩ := hpending
  · exact absurd hevent hconsumed.event
  · -- The tunnel is gone, and its watcher has had that, so that it is not current any more.
    have hopen := hsound.held hcurrent
    have hwaiting : c.watcher = .waiting := by
      obtain hw | hw | hw := hconsumed.watcher
      · exact absurd hw (hsound.late hpc)
      · exact hw
      · simp [hw] at hopen
    obtain hmem | hover := hsound.gone (hconsumed.ends hdown)
    · simp [hconsumed.tunnel hwaiting] at hmem
    · exact absurd hopen (by simp only [hover, Bool.false_eq_true, not_false_eq_true])
  · obtain hleaving | ⟨-, hfailed⟩ := hleft
    · have hidle := hconsumed.watcher
      simp [hleaving] at hidle
    · exact ⟨hgone, hfailed⟩

section Steps

variable {s s' : Client} {n : ℕ} {c : PlacedCall}

theorem Pending.frame (h : Pending s n c) (hcurrent : s.current = some n → s'.current = some n)
    (hevents : (c.peer, c.callId) ∈ s.events → (c.peer, c.callId) ∈ s'.events)
    (hemitted : ∀ e ∈ s.emitted, e ∈ s'.emitted) : Pending s' n c := by
  obtain hevent | ⟨hcur, hdown⟩ | ⟨hgone, hentered, hleft⟩ := h
  · exact .inl (hevents hevent)
  · exact .inr (.inl ⟨hcurrent hcur, hdown⟩)
  · refine .inr (.inr ⟨hgone, hentered, ?_⟩)
    obtain hleaving | ⟨hended, hmem⟩ := hleft
    · exact .inl hleaving
    · exact .inr ⟨hended, hemitted _ hmem⟩

theorem Sound.frame (h : Sound s n c) (hcurrent : s'.current = some n ↔ s.current = some n)
    (hevents : (c.peer, c.callId) ∈ s.events → (c.peer, c.callId) ∈ s'.events)
    (hemitted : ∀ e ∈ s.emitted, e ∈ s'.emitted) : Sound s' n c where
  fresh := h.fresh
  held hcur := h.held (hcurrent.mp hcur)
  gone := h.gone
  said := h.said
  early := h.early
  late := h.late
  hung hup := by
    obtain ⟨hconnected, hpc, hpending⟩ := h.hung hup
    exact ⟨hconnected, hpc, hpending.frame hcurrent.mpr hevents hemitted⟩

theorem AllSound.modify (h : AllSound s) (hc : s.calls[n]? = some c) {f : PlacedCall → PlacedCall}
    (hcalls : s'.calls = s.calls.modify n f)
    (hcurrent : ∀ l ≠ n, s'.current = some l ↔ s.current = some l) (hevents : s'.events = s.events)
    (hemitted : ∀ e ∈ s.emitted, e ∈ s'.emitted) (hn : Sound s' n (f c)) : AllSound s' := by
  intro l b hb
  rw [hcalls] at hb
  obtain ⟨rfl, rfl⟩ | ⟨hl, hold⟩ := getElem?_modify_cases hc hb
  · exact hn
  · exact (h l b hold).frame (hcurrent l hl) (by rw [hevents]; exact id) hemitted

theorem Sound.returned (h : Sound s n c) (hspawned : c.watcher ≠ .unspawned) : c.pc = .returned := by
  by_contra hne
  exact hspawned (h.early hne)

theorem Sound.not_hungUp (h : Sound s n c) (hconnected : c.connected = true) : c.hungUp = false := by
  by_contra hup
  have hnot := (h.hung (by simpa using hup)).1
  simp [hconnected] at hnot

/-- Once the room is up it does not matter any more where a hang-up is. -/
theorem Sound.of_connected (hconnected : c.connected = true) (hup : c.hungUp = false) (hreturned : c.pc = .returned)
    (hheld : s.current = some n → c.watcher.Open)
    (hgone : c.gone = true → TunnelEvent.disconnected ∈ c.events ∨ c.watcher.Open = false)
    (hsaid : TunnelEvent.disconnected ∈ c.events → c.gone = true) (hspawned : c.watcher ≠ .unspawned) :
    Sound s n c where
  fresh hnot := by simp [hconnected] at hnot
  held := hheld
  gone := hgone
  said := hsaid
  early hne := absurd hreturned hne
  late _ := hspawned
  hung h := by simp [hup] at h

theorem Pending.down (h : Pending s n c) : Pending s n { c with down := true } := by
  obtain hevent | ⟨hcur, -⟩ | hleft := h
  · exact .inl hevent
  · exact .inr (.inl ⟨hcur, rfl⟩)
  · exact .inr (.inr hleft)

theorem Sound.down (h : Sound s n c) : Sound s n { c with down := true } := by
  refine ⟨h.fresh, h.held, h.gone, h.said, h.early, h.late, fun hup => ?_⟩
  obtain ⟨hconnected, hpc, hpending⟩ := h.hung hup
  exact ⟨hconnected, hpc, hpending.down⟩

theorem AllSound.placeCall (h : AllSound s) (peer : ℤ) :
    AllSound { s with calls := s.calls ++ [{ peer }] } := by
  intro l b hb
  obtain hb | ⟨-, rfl⟩ := getElem?_concat_eq_some hb
  · exact (h l b hb).frame .rfl id fun _ he => he
  · exact ⟨fun _ => ⟨by simp, rfl, by simp, by simp⟩, fun _ => rfl, by simp, by simp, fun _ => rfl, by simp, by simp⟩

theorem AllSound.reply (h : AllSound s) (n : ℕ) (call : Option CallEntity) : AllSound (s.reply n call) := by
  unfold Client.reply
  split
  · next c hc =>
    split
    · next hpc =>
      have hsound := h n c hc
      have hup : c.hungUp = true → False := fun hup => by
        simpa [hpc, PlacePc.Answered] using (hsound.hung hup).2.1
      have hunspawned : c.watcher = .unspawned := hsound.early (by simp [hpc])
      have hfailed : AllSound (s.modify n fun c => { c with pc := .failed }) :=
        h.modify hc rfl (fun _ _ => .rfl) rfl (fun _ he => he)
          ⟨hsound.fresh, hsound.held, hsound.gone, hsound.said, fun _ => hunspawned, by simp, fun h => (hup h).elim⟩
      split
      · split
        · exact hfailed
        · exact h.modify hc rfl (fun _ _ => .rfl) rfl (fun _ he => he)
            ⟨hsound.fresh, hsound.held, hsound.gone, hsound.said, fun _ => hunspawned, by simp, fun h => (hup h).elim⟩
      · exact hfailed
    · exact h
  · exact h

theorem Sound.setPc (h : Sound s n c) (hpc : c.pc ≠ .returned) (pc : PlacePc) (hne : pc ≠ .returned)
    (hanswered : pc.Answered) (hcurrent : s.current = some n → s'.current = some n)
    (hevents : s'.events = s.events) (hemitted : s'.emitted = s.emitted) :
    Sound s' n { c with pc } where
  fresh := h.fresh
  held _ := by simp [h.early hpc]
  gone := h.gone
  said := h.said
  early _ := h.early hpc
  late heq := absurd heq hne
  hung hup := by
    obtain ⟨hconnected, -, hpending⟩ := h.hung hup
    exact ⟨hconnected, hanswered, hpending.frame hcurrent (by rw [hevents]; exact id)
      (by rw [hemitted]; exact fun _ he => he)⟩

theorem AllSound.disconnect (h : AllSound s) (k : ℕ) : AllSound (s.disconnect k) := by
  intro l b hb
  obtain ⟨a, ha, rfl⟩ := getElem?_modify_eq_some hb
  have hsound : Sound (s.disconnect k) l a := (h l a ha).frame .rfl id fun _ he => he
  split
  · exact hsound.down
  · exact hsound

theorem AllSound.step (h : AllSound s) (k : ℕ) (hcaught : Caught s (.step k)) : AllSound (s.placeStep k) := by
  unfold placeStep
  split
  · next c hc =>
    have hsound := h k c hc
    split
    · next hpc =>
      exact h.modify hc rfl (fun _ _ => .rfl) rfl (fun _ he => he)
        (hsound.setPc (by simp [hpc]) .connect (by simp) rfl id rfl rfl)
    · next hpc =>
      exact h.modify hc rfl (fun _ _ => .rfl) rfl (fun _ he => he)
        (hsound.setPc (by simp [hpc]) .replace (by simp) rfl id rfl rfl)
    · next hpc =>
      -- The call that is replaced has not been hung up on.
      intro l b hb
      obtain ⟨rfl, rfl⟩ | ⟨hl, hold⟩ := getElem?_modify_cases hc hb
      · exact hsound.setPc (by simp [hpc]) _ (by simp) rfl (fun _ => rfl) rfl rfl
      · have hsound := h l b hold
        refine ⟨hsound.fresh, fun hcur => ?_, hsound.gone, hsound.said, hsound.early, hsound.late, fun hup => ?_⟩
        · exact absurd (Option.some.inj hcur).symm hl
        · obtain ⟨hconnected, hpc', hpending⟩ := hsound.hung hup
          refine ⟨hconnected, hpc', hpending.frame (fun hcur => ?_) id fun _ he => he⟩
          have hnot := hcaught c hc hpc l hcur b hold
          simp [hup] at hnot
    · next old hpc =>
      cases old with
      | none =>
        exact h.modify hc rfl (fun _ _ => .rfl) rfl (fun _ he => he)
          (hsound.setPc (by simp [hpc]) .watch (by simp) rfl id rfl rfl)
      | some j =>
        have hdisc := h.disconnect j
        have hc' : (s.disconnect j).calls[k]? = some (if j = k then { c with down := true } else c) :=
          getElem?_modify_of_eq_some hc j _
        have hpc' : (if j = k then { c with down := true } else c).pc ≠ .returned := by
          split <;> simp [hpc]
        exact hdisc.modify hc' rfl (fun _ _ => .rfl) rfl (fun _ he => he)
          ((hdisc k _ hc').setPc hpc' .watch (by simp) rfl id rfl rfl)
    · next hpc =>
      refine h.modify hc rfl (fun _ _ => .rfl) rfl (fun _ he => he) ⟨?_, ?_, ?_, hsound.said, ?_, ?_, ?_⟩
      · exact fun hconnected =>
          ⟨(hsound.fresh hconnected).1, (hsound.fresh hconnected).2.1, by simp, by simp⟩
      · exact fun _ => rfl
      · intro hgone
        obtain hmem | hover := hsound.gone hgone
        · exact .inl hmem
        · simp [hsound.early (by simp [hpc])] at hover
      · exact fun hne => absurd rfl hne
      · simp
      · intro hup
        obtain ⟨hconnected, -, hpending⟩ := hsound.hung hup
        refine ⟨hconnected, rfl, ?_⟩
        obtain hevent | hcur | ⟨-, -, hleft⟩ := hpending
        · exact .inl hevent
        · exact .inr (.inl hcur)
        · simp [hsound.early (by simp [hpc])] at hleft
    · exact h
    · exact h
    · exact h
  · exact h

theorem AllSound.callEnded (h : AllSound s) (callId : ℤ)
    (hcaught : ∀ c ∈ s.calls, c.InWindow callId → c.hungUp = false → s.activePeers callId = some c.peer) :
    AllSound (s.callEnded callId) := by
  -- The events only grow, and the hang-up of a call is among them unless it was known before.
  have hmark : ∀ s' : Client, s'.calls = s.calls.map (fun c : PlacedCall =>
        if c.InWindow callId then { c with hungUp := true } else c) → s'.current = s.current →
      s'.emitted = s.emitted → (∀ e ∈ s.events, e ∈ s'.events) →
      (∀ c ∈ s.calls, c.InWindow callId → c.hungUp = false → (c.peer, c.callId) ∈ s'.events) →
      AllSound s' := by
    intro s' hcalls hcurrent hemitted hevents hnews l b hb
    rw [hcalls, List.getElem?_map] at hb
    obtain ⟨a, ha, rfl⟩ := Option.map_eq_some_iff.mp hb
    have hsound := (h l a ha).frame (by rw [hcurrent]) (hevents _) (by rw [hemitted]; exact fun _ he => he)
    split
    · next hwindow =>
      refine ⟨hsound.fresh, hsound.held, hsound.gone, hsound.said, hsound.early, hsound.late, fun _ => ?_⟩
      refine ⟨hwindow.2.2, hwindow.2.1, ?_⟩
      cases hup : a.hungUp with
      | true => exact (hsound.hung hup).2.2
      | false => exact .inl (hnews a (List.mem_of_getElem? ha) hwindow hup)
    · exact hsound
  unfold Client.callEnded
  simp only
  cases hactive : s.activePeers callId with
  | some peer =>
    refine hmark _ rfl rfl rfl (fun e he => List.mem_append_left _ he) fun c hc hwindow hnot => ?_
    have hpeer := hcaught c hc hwindow hnot
    obtain rfl : peer = c.peer := by simpa [hactive] using hpeer
    simp [hwindow.1]
  | none =>
    refine hmark _ rfl rfl rfl (fun _ he => he) fun c hc hwindow hnot => ?_
    have hpeer := hcaught c hc hwindow hnot
    simp [hactive] at hpeer

/-- The first event is gone; the call it was for is the current one, and is disconnected, or has left. -/
theorem Sound.eventTaken (h : Sound s n c) {e : ℤ × ℤ} {events : List (ℤ × ℤ)} (hevents : s.events = e :: events)
    (hhead : c.hungUp = true → (c.peer, c.callId) = e → s.current = some n ∨ Left s n c)
    (hcurrent : s'.current = s.current) (hemitted : s'.emitted = s.emitted) (hrest : s'.events = events)
    (hdown : c.peer = e.1 → c.entered = false → s.current = some n → c.down = true) : Sound s' n c := by
  refine ⟨h.fresh, hcurrent ▸ h.held, h.gone, h.said, h.early, h.late, fun hup => ?_⟩
  obtain ⟨hconnected, hpc, hpending⟩ := h.hung hup
  refine ⟨hconnected, hpc, ?_⟩
  have hleft : Left s n c → Pending s' n c := fun hleft => .inr (.inr (by rwa [Left, hemitted]))
  obtain hevent | ⟨hcur, hdown'⟩ | hleft' := hpending
  · rw [hevents] at hevent
    obtain heq | hmem := List.mem_cons.mp hevent
    · obtain hcur | hleft' := hhead hup heq
      · have hisDown := hdown (congrArg Prod.fst heq) (h.fresh hconnected).2.1 hcur
        exact .inr (.inl ⟨hcurrent.trans hcur, hisDown⟩)
      · exact hleft hleft'
    · exact .inl (by rwa [hrest])
  · exact .inr (.inl ⟨hcurrent.trans hcur, hdown'⟩)
  · exact hleft hleft'

theorem AllSound.takeEvent (h : AllSound s) (hcaught : Caught s .takeEvent) : AllSound s.takeEvent := by
  unfold Client.takeEvent
  split
  · next peer callId events hevents =>
    have hhead : ∀ (n : ℕ) (c : PlacedCall), s.calls[n]? = some c → c.hungUp = true →
        (c.peer, c.callId) = (peer, callId) → s.current = some n ∨ Left s n c := by
      intro n c hc
      exact hcaught (peer, callId) (by simp [hevents]) n
        (List.mem_range.mpr (List.getElem?_eq_some_iff.mp hc).1) c hc
    have htaken : ∀ {s' : Client} (l : ℕ) (a : PlacedCall), s.calls[l]? = some a → s'.current = s.current →
        s'.emitted = s.emitted → s'.events = events →
        (a.peer = peer → a.entered = false → s.current = some l → a.down = true) → Sound s' l a :=
      fun l a ha hcurrent hemitted hrest hdown =>
        (h l a ha).eventTaken hevents (hhead l a ha) hcurrent hemitted hrest hdown
    unfold Client.onWsCallEnded
    cases hcur : s.current with
    | none => exact fun l a ha => htaken l a ha hcur.symm rfl rfl (by simp [hcur])
    | some n =>
      simp only
      cases hn : s.calls[n]? with
      | none =>
        refine fun l a ha => htaken l a ha hcur.symm rfl rfl fun _ _ hl => ?_
        obtain rfl : n = l := by simpa [hcur] using hl
        simp [hn] at ha
      | some c =>
        simp only
        split
        · intro l b hb
          obtain ⟨rfl, rfl⟩ | ⟨hl, hold⟩ := getElem?_modify_cases hn hb
          · exact ((h l c hn).down).eventTaken hevents (hhead l c hn) hcur.symm rfl rfl fun _ _ _ => rfl
          · refine htaken l b hold hcur.symm rfl rfl fun _ _ hcur' => ?_
            exact absurd (Option.some.inj (hcur.symm.trans hcur')).symm hl
        · next hnot =>
          refine fun l a ha => htaken l a ha hcur.symm rfl rfl fun hpeer hentered hl => ?_
          obtain rfl : n = l := by simpa [hcur] using hl
          obtain rfl : c = a := Option.some.inj (hn.symm.trans ha)
          exact absurd ⟨hpeer, hentered⟩ hnot
  · exact h

theorem modify_of_none {f : PlacedCall → PlacedCall} (hn : s.calls[n]? = none) : s.modify n f = s := by
  rw [Client.modify, List.modify_eq_self (List.getElem?_eq_none_iff.mp hn)]

theorem AllSound.lkConnected (h : AllSound s) (n : ℕ) (hcaught : Caught s (.lkConnected n)) :
    AllSound (s.lkConnected n) := by
  unfold Client.lkConnected
  cases hc : s.calls[n]? with
  | none => rwa [modify_of_none hc]
  | some c =>
    refine h.modify hc rfl (fun _ _ => .rfl) rfl (fun _ he => he) ?_
    have hsound := h n c hc
    split
    · refine ⟨by simp, hsound.held, fun hgone => ?_, by simpa using hsound.said, hsound.early, hsound.late,
        fun hup => ?_⟩
      · obtain hmem | hover := hsound.gone hgone
        · exact .inl (List.mem_append_left _ hmem)
        · exact .inr hover
      · have hnot : c.hungUp = false := hcaught c hc
        simp [hnot] at hup
    · exact hsound.frame .rfl id fun _ he => he

theorem AllSound.lkGone (h : AllSound s) (n : ℕ) : AllSound (s.lkGone n) := by
  unfold Client.lkGone
  cases hc : s.calls[n]? with
  | none => rwa [modify_of_none hc]
  | some c =>
    refine h.modify hc rfl (fun _ _ => .rfl) rfl (fun _ he => he) ?_
    have hsound := h n c hc
    split
    · next hgone =>
      refine ⟨fun hconnected => ?_, hsound.held, fun _ => .inl (by simp), fun _ => rfl, hsound.early,
        hsound.late, fun hup => ?_⟩
      · obtain ⟨hnot, hrest⟩ := hsound.fresh hconnected
        exact ⟨by simpa using hnot, hrest⟩
      · obtain ⟨hconnected, hpc, hpending⟩ := hsound.hung hup
        refine ⟨hconnected, hpc, ?_⟩
        obtain hevent | hcur | ⟨hgone', -⟩ := hpending
        · exact .inl hevent
        · exact .inr (.inl hcur)
        · simp [hgone.2] at hgone'
    · exact hsound.frame .rfl id fun _ he => he

theorem AllSound.watch (h : AllSound s) (n : ℕ) : AllSound (s.watch n) := by
  unfold Client.watch
  split
  · next c hc =>
    have hsound := h n c hc
    split
    · next hwaiting =>
      have hreturned := hsound.returned (by simp [hwaiting])
      split
      · next events hevents =>
        have hconnected : c.connected = true := by
          by_contra hnot
          have hnone := (hsound.fresh (by simpa using hnot)).1
          simp [hevents] at hnone
        have hup := hsound.not_hungUp hconnected
        have hgone : c.gone = true → TunnelEvent.disconnected ∈ events := by
          intro hgone
          obtain hmem | hover := hsound.gone hgone
          · simpa [hevents] using hmem
          · simp [hwaiting] at hover
        have hsaid : TunnelEvent.disconnected ∈ events → c.gone = true := fun hmem =>
          hsound.said (by simp [hevents, hmem])
        split
        · exact h.modify hc rfl (fun _ _ => .rfl) rfl (fun _ he => he)
            (.of_connected hconnected hup hreturned (by simp [hwaiting]) (fun h => .inl (hgone h)) hsaid
              (by simp [hwaiting]))
        · exact h.modify hc rfl (fun _ _ => .rfl) rfl (fun _ he => he)
            (.of_connected hconnected hup hreturned (fun _ => rfl) (fun h => .inl (hgone h)) hsaid (by simp))
      · next events hevents =>
        have hgone : c.gone = true := hsound.said (by simp [hevents])
        refine h.modify hc rfl (fun l hl => ?_) rfl (fun _ he => he) ⟨fun hconnected => ?_, fun hcur => ?_,
          fun _ => .inr rfl, fun _ => hgone, fun hne => absurd hreturned hne, by simp, fun hup => ?_⟩
        · by_cases hcur : s.current = some n
          · simp [Client.modify, hcur, hl.symm]
          · simp [Client.modify, hcur]
        · obtain ⟨hnot, hentered, -⟩ := hsound.fresh hconnected
          exact ⟨fun hmem => hnot (by simp [hevents, hmem]), hentered, by simp, by simp⟩
        · simp only [Client.modify] at hcur
          split at hcur
          · cases hcur
          · next hne => exact absurd hcur hne
        · obtain ⟨hconnected, hpc, hpending⟩ := hsound.hung hup
          refine ⟨hconnected, hpc, ?_⟩
          obtain hevent | ⟨hcur, -⟩ | ⟨-, -, hleft⟩ := hpending
          · exact .inl hevent
          · exact .inr (.inr ⟨hgone, (hsound.fresh hconnected).2.1, .inl (by simp [hcur])⟩)
          · simp [hwaiting] at hleft
      · exact h
    · exact h
  · exact h

theorem AllSound.watchStep (h : AllSound s) (n : ℕ) (upgrade : Bool) : AllSound (s.watchStep n upgrade) := by
  unfold Client.watchStep
  split
  · next c hc =>
    have hsound := h n c hc
    -- Outside the end of a tunnel the watcher moves only once the room is up.
    have goOn : ∀ {s' : Client} {c' : PlacedCall}, c.connected = true → c.watcher.Open → c.watcher ≠ .unspawned →
        c' = { c with watcher := c'.watcher, down := c'.down } → (s'.current = some n → c'.watcher.Open) →
        c'.watcher ≠ .unspawned → Sound s' n c' := by
      intro s' c' hconnected hopen hspawned hc' hheld hspawned'
      rw [hc']
      refine .of_connected hconnected (hsound.not_hungUp hconnected) (hsound.returned hspawned) hheld
        (fun hgone => .inl ?_) hsound.said hspawned'
      obtain hmem | hover := hsound.gone hgone
      · exact hmem
      · rw [hopen] at hover
        cases hover
    split
    · next hconnecting =>
      have hconnected : c.connected = true := by
        by_contra hnot
        exact (hsound.fresh (by simpa using hnot)).2.2.1 hconnecting
      split
      · exact h.modify hc rfl (fun _ _ => .rfl) rfl (fun _ he => he)
          (goOn hconnected (by simp [hconnecting]) (by simp [hconnecting]) rfl (fun _ => rfl) (by simp))
      · next hcur =>
        exact h.modify hc rfl (fun _ _ => .rfl) rfl (fun _ he => he)
          (goOn hconnected (by simp [hconnecting]) (by simp [hconnecting]) rfl (fun h => absurd h hcur) (by simp))
    · next hannouncing =>
      have hconnected : c.connected = true := by
        by_contra hnot
        exact (hsound.fresh (by simpa using hnot)).2.2.2 hannouncing
      split
      · exact h.modify hc rfl (fun _ _ => .rfl) rfl (fun e he => List.mem_append_left _ he)
          (goOn hconnected (by simp [hannouncing]) (by simp [hannouncing]) rfl (fun _ => rfl) (by simp))
      · next hcur =>
        exact h.modify hc rfl (fun _ _ => .rfl) rfl (fun _ he => he)
          (goOn hconnected (by simp [hannouncing]) (by simp [hannouncing]) rfl (fun h => absurd (.inl h) hcur)
            (by simp))
    · next wasCurrent hleaving =>
      have hreturned := hsound.returned (by simp [hleaving])
      refine h.modify hc rfl (fun _ _ => .rfl) rfl (fun e he => ?_)
        ⟨fun hconnected => ?_, fun hcur => ?_, fun _ => .inr rfl, hsound.said,
          fun hne => absurd hreturned hne, by simp, fun hup => ?_⟩
      · simp only [Client.modify]
        split
        · exact List.mem_append_left _ he
        · exact he
      · obtain ⟨hnot, hentered, -⟩ := hsound.fresh hconnected
        exact ⟨hnot, hentered, by simp, by simp⟩
      · have hopen := hsound.held hcur
        simp [hleaving] at hopen
      · obtain ⟨hconnected, hpc, hpending⟩ := hsound.hung hup
        refine ⟨hconnected, hpc, ?_⟩
        obtain hevent | ⟨hcur, -⟩ | ⟨hgone, hentered, hleft⟩ := hpending
        · exact .inl hevent
        · have hopen := hsound.held hcur
          simp [hleaving] at hopen
        · obtain rfl : wasCurrent = true := by simpa [hleaving] using hleft
          exact .inr (.inr ⟨hgone, hentered, .inr ⟨rfl, by simp [Client.modify, hentered]⟩⟩)
    · exact h
    · exact h
    · exact h
  · exact h

theorem AllSound.move (h : AllSound s) (m : ClientMove) (hcaught : Caught s m) : AllSound (s.move m) := by
  cases m with
  | placeCall peer => exact h.placeCall peer
  | reply n call => exact h.reply n call
  | step n => exact h.step n hcaught
  | push callId =>
    simp only [Client.move]
    split
    · next hid => exact h.callEnded callId (hcaught hid)
    · exact h
  | takeEvent => exact h.takeEvent hcaught
  | lkConnected n => exact h.lkConnected n hcaught
  | lkGone n => exact h.lkGone n
  | watch n => exact h.watch n
  | watchStep n upgrade => exact h.watchStep n upgrade

end Steps

/-- A hang-up that is caught at both hand-overs is not lost. -/
theorem hang_up_not_lost (ms : List ClientMove) (h : Along move Caught {} ms) : NoneLost (run {} ms) :=
  have hsound : AllSound (run {} ms) :=
    Along.invariant (fun _ m hcaught hsound => hsound.move m hcaught) (fun n c hc => by simp at hc) h
  hsound.noneLost

/-- The reply to `StartCall`. -/
def callReply : CallEntity := { callId := 9, token := "t", isLivekit := true }

/-- The call is ended when the tunnel is on its way up. -/
def endedInTime : List ClientMove :=
  [ClientMove.placeCall 500, .reply 0 (some callReply)] ++ List.replicate 5 (ClientMove.step 0) ++
    [ClientMove.push 9, .takeEvent, .lkGone 0, .watch 0, .watchStep 0 true]

theorem hang_up_not_lost_in_time : NoneLost (run {} endedInTime) :=
  hang_up_not_lost endedInTime (by decide +kernel)

/-- The call is ended right after the reply, before `active_peers` has it. -/
def endedEarly : List ClientMove :=
  [ClientMove.placeCall 500, .reply 0 (some callReply), .push 9] ++ List.replicate 5 (ClientMove.step 0)

/-- The tunnel stays, and the app hears nothing. -/
theorem early_hang_up_lost : ¬ NoneLost (run {} endedEarly) := by
  intro h
  have hlost := h 0 { peer := 500, pc := .returned, callId := 9, watcher := .waiting, hungUp := true }
    (by decide +kernel) rfl rfl ⟨by decide +kernel, by simp, by simp, by simp⟩
  exact absurd hlost.1 (by simp)

end Client

end BaleVpn.Signaling
