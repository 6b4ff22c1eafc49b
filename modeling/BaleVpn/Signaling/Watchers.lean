import BaleVpn.Signaling.Activation
import BaleVpn.Signaling.Outgoing

/-!
# The watchers of client tunnels (`manager.rs`)

One `ActivationDriver` and the client managers that use it one after the other. `place_call` puts its
tunnel into `current` and disconnects the one that was there; each tunnel has a detached watcher, which
asks whether its tunnel is still the current one, counts it with the driver, and tells the subscribers.

It asks under the lock and tells after that. A superseded tunnel is silent when no `place_call` comes in
between.
-/

namespace BaleVpn.Signaling

open Lib Daemon

/-! ## State -/

/-- `ClientTunnelManager::place_call`, once the transport session is there and the tunnel is made. -/
inductive ClientCallPc
  | replace
  | supersede (old : Option ℕ)
  | watch
  | returned
  deriving DecidableEq, Repr

/-- `spawn_client_watcher`. -/
inductive WatcherPc
  | unspawned | recv
  /-- `entered` is set. -/
  | stillCurrent
  | bump
  /-- `bump_session` is that call of the driver. -/
  | upgrade (call : ℕ)
  | announce
  | clear
  | unbump (wasCurrent : Bool)
  | unbumping (wasCurrent : Bool) (call : ℕ)
  | ending (wasCurrent : Bool)
  | finished
  deriving DecidableEq, Repr

/-- A call of a client manager, with its tunnel and the watcher of that. -/
structure ClientCall where
  manager : ℕ
  peer : ℤ
  /-- How often the session count had been reset when the tunnel was made. -/
  epoch : ℕ
  pc : ClientCallPc := .replace
  events : List TunnelEvent := []
  /-- The tunnel's state is terminal. -/
  closed : Bool := false
  /-- Nobody holds the tunnel any more. -/
  dropped : Bool := false
  watcher : WatcherPc := .unspawned
  entered : Bool := false
  /-- Somebody else has taken the tunnel out of `current`; for the record only, as are the next three. -/
  evicted : Bool := false
  /-- And has disconnected it. -/
  shut : Bool := false
  /-- A later call has taken the place of this one in `current`. -/
  superseded : Bool := false
  /-- The watcher has had the `Disconnected` event. -/
  ended : Bool := false
  deriving DecidableEq, Repr

structure ClientManagers where
  driver : ActivationDriver
  /-- How often `set_mode` has reset the session count. -/
  epoch : ℕ := 0
  /-- Of each manager. -/
  current : ℕ → Option ℕ := fun _ => none
  calls : List ClientCall := []
  /-- What the watchers have emitted, each with its call. -/
  emitted : List (SessionEvent ℤ × ℕ) := []

/-! ## Tunnels -/

namespace ClientCall

/-- `LkTunnel::teardown`; a tunnel that is disconnected from outside ends in the same way. One that closed
without an event sends none here, as its state, which a `state()` receiver keeps, is terminal; without a
receiver it sends `Disconnected` as if it had not closed. -/
def teardown (c : ClientCall) : ClientCall :=
  if c.closed then c else { c with closed := true, events := c.events ++ [.disconnected] }

section Teardown

variable (c : ClientCall)

theorem teardown_eq : ∃ events, c.teardown = { c with closed := true, events } ∧
    (TunnelEvent.disconnected ∈ c.events → TunnelEvent.disconnected ∈ events) ∧
    (c.closed = false → TunnelEvent.disconnected ∈ events) := by
  unfold teardown
  split
  · next hclosed => exact ⟨c.events, by rw [← hclosed], id, fun hopen => by simp [hclosed] at hopen⟩
  · exact ⟨_, rfl, List.mem_append_left _, fun _ => List.mem_append_right _ (List.mem_singleton_self _)⟩

@[simp]
theorem teardown_manager : c.teardown.manager = c.manager := by
  obtain ⟨_, h, -⟩ := c.teardown_eq
  rw [h]

@[simp]
theorem teardown_epoch : c.teardown.epoch = c.epoch := by
  obtain ⟨_, h, -⟩ := c.teardown_eq
  rw [h]

@[simp]
theorem teardown_pc : c.teardown.pc = c.pc := by
  obtain ⟨_, h, -⟩ := c.teardown_eq
  rw [h]

@[simp]
theorem teardown_watcher : c.teardown.watcher = c.watcher := by
  obtain ⟨_, h, -⟩ := c.teardown_eq
  rw [h]

@[simp]
theorem teardown_entered : c.teardown.entered = c.entered := by
  obtain ⟨_, h, -⟩ := c.teardown_eq
  rw [h]

@[simp]
theorem teardown_superseded : c.teardown.superseded = c.superseded := by
  obtain ⟨_, h, -⟩ := c.teardown_eq
  rw [h]

end Teardown

def goTo (c : ClientCall) (pc : WatcherPc) : ClientCall := { c with watcher := pc }

end ClientCall

namespace ClientManagers

def modify (s : ClientManagers) (n : ℕ) (f : ClientCall → ClientCall) : ClientManagers :=
  { s with calls := s.calls.modify n f }

section Modify

variable (s : ClientManagers) (n : ℕ) (f : ClientCall → ClientCall)

@[simp]
theorem calls_modify : (s.modify n f).calls = s.calls.modify n f := rfl

@[simp]
theorem current_modify : (s.modify n f).current = s.current := rfl

@[simp]
theorem driver_modify : (s.modify n f).driver = s.driver := rfl

@[simp]
theorem epoch_modify : (s.modify n f).epoch = s.epoch := rfl

end Modify

def go (s : ClientManagers) (n : ℕ) (pc : WatcherPc) : ClientManagers := s.modify n fun c => c.goTo pc

/-- The last holder of a tunnel lets go of it. -/
def drop (s : ClientManagers) (n : ℕ) : ClientManagers :=
  s.modify n fun c =>
    if c.pc = .returned ∧ s.current c.manager ≠ some n ∧ (c.evicted → c.shut) ∧ c.watcher ≠ .announce then
      { c.teardown with dropped := true }
    else c

/-! ## `place_call` -/

/-- The tunnel is made. -/
def placeCall (s : ClientManagers) (manager : ℕ) (peer : ℤ) : ClientManagers :=
  { s with calls := s.calls ++ [{ manager, peer, epoch := s.epoch }] }

/-- A tunnel is taken out of `current`, and its successor, if there is one, put there. -/
def evict (s : ClientManagers) (manager : ℕ) (successor : Option ℕ) : ClientManagers :=
  let s :=
    match s.current manager with
    | some old => s.modify old fun c => { c with evicted := true }
    | none => s
  { s with current := Function.update s.current manager successor }

/-- The calls that were in the place of this one are superseded. -/
def supersede (s : ClientManagers) (manager : ℕ) : ClientManagers :=
  { s with calls := s.calls.map fun c : ClientCall =>
      if c.manager = manager ∧ c.pc ≠ .replace then { c with superseded := true } else c }

def shut (s : ClientManagers) (n : ℕ) : ClientManagers :=
  s.modify n fun c => { c.teardown with shut := true }

def place (s : ClientManagers) (n : ℕ) : ClientManagers :=
  match s.calls[n]? with
  | some c =>
    match c.pc with
    | .replace =>
      ((s.supersede c.manager).evict c.manager (some n)).modify n fun d =>
        { d with pc := .supersede (s.current c.manager) }
    | .supersede old =>
      let s :=
        match old with
        | some old => s.shut old
        | none => s
      s.modify n fun d => { d with pc := .watch }
    | .watch => s.modify n fun d => { d with pc := .returned, watcher := .recv }
    | .returned => s
  | none => s

/-- `Drop`, which no call of the manager outlives. -/
def dropManager (s : ClientManagers) (manager : ℕ) : ClientManagers :=
  if ∀ c ∈ s.calls, c.manager = manager → c.pc = .returned then
    match s.current manager with
    | some old => (s.evict manager none).shut old
    | none => s
  else s

/-! ## The watcher -/

def emit (s : ClientManagers) (event : SessionEvent ℤ) (n : ℕ) : ClientManagers :=
  { s with emitted := s.emitted ++ [(event, n)] }

/-- The call of the driver has returned. -/
def Bumped (s : ClientManagers) (call : ℕ) : Prop := s.driver.calls[call]? = some .returned

instance (s : ClientManagers) (call : ℕ) : Decidable (s.Bumped call) := inferInstanceAs (Decidable (_ = _))

def recv (s : ClientManagers) (n : ℕ) (c : ClientCall) : ClientManagers :=
  match c.events with
  | .connected :: events =>
    if c.entered then s.modify n fun c => { c with events }
    else s.modify n fun c => { c with events, entered := true, watcher := .stillCurrent }
  | .disconnected :: events => s.modify n fun c => { c with events, ended := true, watcher := .clear }
  -- The channel is closed when the tunnel is gone.
  | [] => if c.dropped then s.go n .finished else s

def watch (s : ClientManagers) (n : ℕ) : ClientManagers :=
  match s.calls[n]? with
  | some c =>
    match c.watcher with
    | .recv => s.recv n c
    | .stillCurrent =>
      if s.current c.manager = some n then s.go n .bump
      else s.modify n fun c => c.teardown.goTo .finished
    | .bump =>
      { s with driver := s.driver.bumpSession 1 }.go n (.upgrade s.driver.calls.length)
    | .upgrade call =>
      if s.Bumped call then s.go n (if c.dropped then .finished else .announce) else s
    | .announce => (s.emit (.connected c.peer n) n).go n .recv
    | .clear =>
      if s.current c.manager = some n then
        { s with current := Function.update s.current c.manager none }.go n (.unbump true)
      else s.go n (.unbump false)
    | .unbump wasCurrent =>
      if c.entered then
        { s with driver := s.driver.bumpSession (-1) }.go n (.unbumping wasCurrent s.driver.calls.length)
      else s.go n (.ending wasCurrent)
    | .unbumping wasCurrent call => if s.Bumped call then s.go n (.ending wasCurrent) else s
    | .ending wasCurrent =>
      let event : SessionEvent ℤ := if c.entered then .disconnected c.peer else .failed c.peer
      (if wasCurrent then s.emit event n else s).go n .finished
    | .unspawned | .finished => s
  | none => s

/-! ## The driver -/

def driverStep (s : ClientManagers) (i : ℕ) : ClientManagers :=
  { s with
    driver := s.driver.step i
    epoch := if s.driver.calls[i]? = some .storeActive then s.epoch + 1 else s.epoch }

end ClientManagers

/-! ## Runs -/

inductive ManagersMove
  | setMode (mode : Mode)
  | setForeground (fg : Bool)
  | driver (i : ℕ)
  | task
  | placeCall (manager : ℕ) (peer : ℤ)
  | place (n : ℕ)
  | dropManager (manager : ℕ)
  | watch (n : ℕ)
  /-- The room comes up. -/
  | connected (n : ℕ)
  /-- It ends, or somebody calls `disconnect`. -/
  | disconnect (n : ℕ)
  /-- The tunnel's task ends without an event, as it does when the engine's stream of events ends, while
  somebody has a `state()` receiver. -/
  | close (n : ℕ)
  | drop (n : ℕ)
  deriving DecidableEq, Repr

namespace ClientManagers

def new (fg : Bool) : ClientManagers := { driver := .new fg }

def move (s : ClientManagers) : ManagersMove → ClientManagers
  | .setMode mode => { s with driver := s.driver.setMode mode }
  | .setForeground fg => { s with driver := s.driver.setForeground fg }
  | .driver i => s.driverStep i
  | .task => { s with driver := s.driver.taskStep }
  | .placeCall manager peer => s.placeCall manager peer
  | .place n => s.place n
  | .dropManager manager => s.dropManager manager
  | .watch n => s.watch n
  | .connected n => s.modify n fun c => { c with events := c.events ++ [.connected] }
  | .disconnect n => s.modify n fun c => c.teardown
  | .close n => s.modify n fun c => { c with closed := true }
  | .drop n => s.drop n

def run (s : ClientManagers) (ms : List ManagersMove) : ClientManagers := ms.foldl move s

end ClientManagers

/-! ## Superseded tunnels -/

/-- The watcher has found its tunnel current, and is to say what became of it. -/
@[simp]
def WatcherPc.Committed : WatcherPc → Bool
  | .bump | .upgrade _ | .announce => true
  | .unbump wasCurrent | .unbumping wasCurrent _ | .ending wasCurrent => wasCurrent
  | .unspawned | .recv | .stillCurrent | .clear | .finished => false

namespace ClientManagers

/-- No call takes its place in `current` while the watcher of an earlier one is between its check and what
it says. -/
def Undisturbed (s : ClientManagers) : ManagersMove → Prop
  | .place n => ∀ c ∈ s.calls[n]?, c.pc = .replace → ∀ d ∈ s.calls, d.manager = c.manager →
    d.watcher.Committed = false
  | _ => True

instance (s : ClientManagers) : (m : ManagersMove) → Decidable (Undisturbed s m)
  | .place _ => inferInstanceAs (Decidable (∀ c ∈ _, _))
  | .setMode _ | .setForeground _ | .driver _ | .task | .placeCall _ _ | .dropManager _ | .watch _
  | .connected _ | .disconnect _ | .close _ | .drop _ => isTrue trivial

/-- The move lets no superseded tunnel say anything. -/
def Silent (s : ClientManagers) (m : ManagersMove) : Prop :=
  ∀ (event : SessionEvent ℤ) (n : ℕ), (s.move m).emitted = s.emitted ++ [(event, n)] →
    ∀ c ∈ s.calls[n]?, c.superseded = false

structure Mute (s : ClientManagers) (n : ℕ) (c : ClientCall) : Prop where
  watcher : c.watcher.Committed = false
  current : s.current c.manager ≠ some n
  placed : c.pc ≠ .replace

def Silenced (s : ClientManagers) : Prop :=
  ∀ (n : ℕ) (c : ClientCall), s.calls[n]? = some c → c.superseded = true → Mute s n c

variable {s : ClientManagers}

/-- Only a watcher that has found its tunnel current says anything. -/
theorem emitted_move (s : ClientManagers) (m : ManagersMove) :
    (s.move m).emitted = s.emitted ∨ ∃ (n : ℕ) (c : ClientCall) (event : SessionEvent ℤ),
      s.calls[n]? = some c ∧ c.watcher.Committed = true ∧ (s.move m).emitted = s.emitted ++ [(event, n)] := by
  cases m with
  | watch n =>
    simp only [move, watch]
    split
    · next c hc =>
      split
      · simp only [recv]
        repeat' split
        all_goals exact .inl rfl
      · split <;> exact .inl rfl
      · exact .inl rfl
      · split <;> exact .inl rfl
      · next hpc => exact .inr ⟨n, c, _, hc, by simp [hpc], rfl⟩
      · split <;> exact .inl rfl
      · split <;> exact .inl rfl
      · split <;> exact .inl rfl
      · next wasCurrent hpc =>
        cases wasCurrent with
        | true => exact .inr ⟨n, c, _, hc, by simp [hpc], rfl⟩
        | false => exact .inl rfl
      · exact .inl rfl
      · exact .inl rfl
    · exact .inl rfl
  | place n =>
    simp only [move, place, evict]
    repeat' split
    all_goals exact .inl rfl
  | dropManager manager =>
    simp only [move, dropManager, evict]
    repeat' split
    all_goals exact .inl rfl
  | setMode _ | setForeground _ | driver _ | task | placeCall _ _ | connected _ | disconnect _ | close _
  | drop _ => exact .inl rfl

theorem Mute.congr {n : ℕ} {c : ClientCall} (h : Mute s n c) {s' : ClientManagers}
    (hcurrent : ∀ m, s'.current m = s.current m ∨ s'.current m = none) : Mute s' n c where
  watcher := h.watcher
  current := by
    obtain hsame | hnone := hcurrent c.manager
    · rw [hsame]
      exact h.current
    · simp [hnone]
  placed := h.placed

namespace Silenced

theorem modify (h : Silenced s) {s' : ClientManagers} {n : ℕ} {f : ClientCall → ClientCall}
    (hcalls : s'.calls = s.calls.modify n f)
    (hcurrent : ∀ m, s'.current m = s.current m ∨ s'.current m = none)
    (hf : ∀ c, s.calls[n]? = some c → (f c).superseded = true →
      c.superseded = true ∧ (Mute s n c → Mute s n (f c))) : Silenced s' := by
  intro k d hd hup
  rw [hcalls] at hd
  obtain ⟨a, ha, rfl⟩ := getElem?_modify_eq_some hd
  split at hup
  · next hk =>
    subst hk
    obtain ⟨hsup, hmute⟩ := hf a ha hup
    rw [if_pos rfl]
    exact (hmute (h n a ha hsup)).congr hcurrent
  · next hk =>
    rw [if_neg hk]
    exact (h k a ha hup).congr hcurrent

theorem keep (h : Silenced s) {s' : ClientManagers} {n : ℕ} {f : ClientCall → ClientCall}
    (hcalls : s'.calls = s.calls.modify n f)
    (hcurrent : ∀ m, s'.current m = s.current m ∨ s'.current m = none)
    (hf : ∀ c, s.calls[n]? = some c → (f c).superseded = c.superseded ∧ (f c).manager = c.manager ∧
      ((f c).watcher.Committed = true → c.watcher.Committed = true) ∧
      ((f c).pc = .replace → c.pc = .replace)) : Silenced s' := by
  refine h.modify hcalls hcurrent fun c hc hup => ?_
  obtain ⟨hsup, hmanager, hwatcher, hpc⟩ := hf c hc
  refine ⟨hsup ▸ hup, fun hmute => ⟨?_, hmanager ▸ hmute.current, fun hp => hmute.placed (hpc hp)⟩⟩
  cases hw : (f c).watcher.Committed with
  | false => rfl
  | true =>
    have hcommitted := hwatcher hw
    rw [hmute.watcher] at hcommitted
    cases hcommitted

theorem congr (h : Silenced s) {s' : ClientManagers} (hcalls : s'.calls = s.calls)
    (hcurrent : ∀ m, s'.current m = s.current m ∨ s'.current m = none) : Silenced s' :=
  fun n c hc hup => (h n c (hcalls ▸ hc) hup).congr hcurrent

theorem shut (h : Silenced s) (n : ℕ) : Silenced (s.shut n) :=
  h.keep rfl (fun _ => .inl rfl) fun c _ => ⟨by simp, by simp, by simp, by simp⟩

theorem replaced (h : Silenced s) {n : ℕ} {c : ClientCall} (hc : s.calls[n]? = some c)
    (hpc : c.pc = .replace)
    (hcalm : ∀ d ∈ s.calls, d.manager = c.manager → d.watcher.Committed = false) :
    Silenced ((s.supersede c.manager).evict c.manager (some n)) := by
  intro k d hd hup
  obtain ⟨b, hb, hmanager, hdpc, hwatcher, hsup⟩ : ∃ b, (s.supersede c.manager).calls[k]? = some b ∧
      d.manager = b.manager ∧ d.pc = b.pc ∧ d.watcher = b.watcher ∧ b.superseded = true := by
    unfold evict at hd
    split at hd
    · obtain ⟨b, hb, rfl⟩ := getElem?_modify_eq_some hd
      refine ⟨b, hb, ?_⟩
      split at hup <;> exact ⟨by split <;> rfl, by split <;> rfl, by split <;> rfl, hup⟩
    · exact ⟨d, hd, rfl, rfl, rfl, hup⟩
  obtain ⟨a, ha, rfl⟩ : ∃ a, s.calls[k]? = some a ∧
      (if a.manager = c.manager ∧ a.pc ≠ .replace then { a with superseded := true } else a) = b := by
    simpa [supersede] using hb
  -- It was superseded before, or it is now.
  obtain ⟨hquiet, hplaced, hother⟩ : a.watcher.Committed = false ∧ a.pc ≠ .replace ∧
      (a.manager ≠ c.manager → s.current a.manager ≠ some k) := by
    split at hsup
    · next hold =>
      exact ⟨hcalm a (List.mem_of_getElem? ha) hold.1, hold.2, fun hne => absurd hold.1 hne⟩
    · have hmute := h k a ha hsup
      exact ⟨hmute.watcher, hmute.placed, fun _ => hmute.current⟩
  have hkn : k ≠ n := by
    rintro rfl
    rw [hc] at ha
    obtain rfl := Option.some.inj ha
    exact hplaced hpc
  have hsame : ∀ {α : Type} (g : ClientCall → α), (∀ x : ClientCall, g { x with superseded := true } = g x) →
      g (if a.manager = c.manager ∧ a.pc ≠ .replace then { a with superseded := true } else a) = g a := by
    intro α g hg
    split
    · exact hg a
    · rfl
  have hcurrent : ((s.supersede c.manager).evict c.manager (some n)).current =
      Function.update s.current c.manager (some n) := by
    unfold evict
    split <;> rfl
  refine ⟨?_, ?_, ?_⟩
  · rw [hwatcher, hsame (·.watcher) fun _ => rfl]
    exact hquiet
  · rw [hcurrent, hmanager, hsame (·.manager) fun _ => rfl]
    by_cases hm : a.manager = c.manager
    · simpa [hm] using Ne.symm hkn
    · rw [Function.update_of_ne hm]
      exact hother hm
  · rw [hdpc, hsame (·.pc) fun _ => rfl]
    exact hplaced

theorem place (h : Silenced s) {n : ℕ} (hcalm : Undisturbed s (.place n)) : Silenced (s.place n) := by
  unfold ClientManagers.place
  split
  · next c hc =>
    split
    · next hpc =>
      exact (h.replaced hc hpc (hcalm c hc hpc)).keep rfl (fun _ => .inl rfl)
        fun d _ => ⟨rfl, rfl, by simp, by simp⟩
    · next old hpc =>
      have goOn : ∀ {s' : ClientManagers}, Silenced s' →
          Silenced (s'.modify n fun d => { d with pc := .watch }) :=
        fun h' => h'.keep rfl (fun _ => .inl rfl) fun d _ => ⟨rfl, rfl, by simp, by simp⟩
      cases old with
      | some old => exact goOn (h.shut old)
      | none => exact goOn h
    · exact h.keep rfl (fun _ => .inl rfl) fun d _ => ⟨rfl, rfl, by simp, by simp⟩
    · exact h
  · exact h

theorem dropManager (h : Silenced s) (m : ℕ) : Silenced (s.dropManager m) := by
  unfold ClientManagers.dropManager
  split
  · split
    · next old hold =>
      have hevict : Silenced (s.evict m none) := by
        unfold evict
        rw [hold]
        refine h.keep rfl (fun k => ?_) fun d _ => ⟨rfl, rfl, by simp, by simp⟩
        by_cases hk : k = m
        · exact .inr (by simp [hk])
        · exact .inl (by simp [hk, ClientManagers.modify])
      exact hevict.shut old
    · exact h
  · exact h

theorem watch (h : Silenced s) (n : ℕ) : Silenced (s.watch n) := by
  unfold ClientManagers.watch
  split
  · next c hc =>
    -- The watcher goes on, no nearer to telling.
    have goOn : ∀ {s' : ClientManagers} {pc : WatcherPc}, s'.calls = s.calls → s'.current = s.current →
        (pc.Committed → c.watcher.Committed) → Silenced (s'.go n pc) := by
      intro s' pc hcalls hcurrent hpc
      have hmod : (s'.go n pc).calls = s.calls.modify n fun c => c.goTo pc := by
        rw [← hcalls]
        rfl
      refine h.keep hmod (fun m => .inl (congrFun hcurrent m)) fun d hd => ⟨rfl, rfl, ?_, id⟩
      obtain rfl : c = d := by simpa [hc] using hd
      exact hpc
    split
    · next hpc =>
      unfold recv
      split
      · split
        · exact h.keep rfl (fun _ => .inl rfl) fun d _ => ⟨rfl, rfl, id, id⟩
        · exact h.keep rfl (fun _ => .inl rfl) fun d _ => ⟨rfl, rfl, by simp, id⟩
      · exact h.keep rfl (fun _ => .inl rfl) fun d _ => ⟨rfl, rfl, by simp, id⟩
      · split
        · exact goOn rfl rfl (by simp)
        · exact h
    · next hpc =>
      split
      · next hcur =>
        -- The current tunnel is not superseded.
        refine h.modify rfl (fun _ => .inl rfl) fun d hd hup => ?_
        obtain rfl : c = d := by simpa [hc] using hd
        exact ⟨hup, fun hmute => absurd hcur hmute.current⟩
      · exact h.keep rfl (fun _ => .inl rfl) fun d _ => ⟨by simp [ClientCall.goTo], by simp [ClientCall.goTo],
          by simp [ClientCall.goTo], by simp [ClientCall.goTo]⟩
    · next hpc => exact goOn rfl rfl (by simp [hpc])
    · next call hpc =>
      split
      · exact goOn rfl rfl (by simp [hpc])
      · exact h
    · next hpc => exact goOn rfl rfl (by simp)
    · next hpc =>
      split
      · next hcur =>
        refine h.modify rfl (fun m => ?_) fun d hd hup => ?_
        · by_cases hm : m = c.manager
          · exact .inr (by simp [hm, go, ClientManagers.modify])
          · exact .inl (by simp [hm, go, ClientManagers.modify])
        · obtain rfl : c = d := by simpa [hc] using hd
          exact ⟨hup, fun hmute => absurd hcur hmute.current⟩
      · exact goOn rfl rfl (by simp)
    · next wasCurrent hpc =>
      split
      · exact goOn rfl rfl (by simp [hpc])
      · exact goOn rfl rfl (by simp [hpc])
    · next wasCurrent call hpc =>
      split
      · exact goOn rfl rfl (by simp [hpc])
      · exact h
    · next wasCurrent hpc =>
      refine goOn ?_ ?_ (by simp)
      · split <;> rfl
      · split <;> rfl
    · exact h
    · exact h
  · exact h

theorem move (h : Silenced s) {m : ManagersMove} (hcalm : Undisturbed s m) : Silenced (s.move m) := by
  cases m with
  | setMode mode => exact h.congr rfl fun _ => .inl rfl
  | setForeground fg => exact h.congr rfl fun _ => .inl rfl
  | driver i => exact h.congr rfl fun _ => .inl rfl
  | task => exact h.congr rfl fun _ => .inl rfl
  | placeCall manager peer =>
    intro n c hc hup
    obtain hc | ⟨-, rfl⟩ := getElem?_concat_eq_some hc
    · exact (h n c hc hup).congr fun _ => .inl rfl
    · cases hup
  | place n => exact h.place hcalm
  | dropManager manager => exact h.dropManager manager
  | watch n => exact h.watch n
  | connected n => exact h.keep rfl (fun _ => .inl rfl) fun d _ => ⟨rfl, rfl, id, id⟩
  | disconnect n => exact h.keep rfl (fun _ => .inl rfl) fun d _ => ⟨by simp, by simp, by simp, by simp⟩
  | close n => exact h.keep rfl (fun _ => .inl rfl) fun d _ => ⟨rfl, rfl, id, id⟩
  | drop n =>
    refine h.keep rfl (fun _ => .inl rfl) fun d _ => ?_
    split
    · exact ⟨by simp, by simp, by simp, by simp⟩
    · exact ⟨rfl, rfl, id, id⟩

theorem silent (h : Silenced s) (m : ManagersMove) : Silent s m := by
  intro event n hemit c hc
  obtain hsame | ⟨k, a, event', ha, hcommitted, hadd⟩ := s.emitted_move m
  · rw [hsame] at hemit
    simp at hemit
  · rw [hadd] at hemit
    obtain ⟨-, rfl⟩ := Prod.mk.inj (List.singleton_inj.mp (List.append_cancel_left hemit))
    obtain rfl : a = c := Option.some.inj (ha.symm.trans hc)
    rw [← Bool.not_eq_true]
    intro hup
    rw [(h k a ha hup).watcher] at hcommitted
    cases hcommitted

end Silenced

theorem superseded_silent (fg : Bool) (ms : List ManagersMove) (h : Along move Undisturbed (new fg) ms) :
    Along move Silent (new fg) ms := by
  have hnew : Silenced (new fg) := fun _ _ hc => by cases hc
  exact h.imp (fun _ m hcalm hs => ⟨hs.move hcalm, hs.silent m⟩) hnew

/-- The second call takes the place of the first while that one's watcher is about to say that its tunnel is
up. -/
def staleConnected : List ManagersMove :=
  [.placeCall 0 7, .place 0, .place 0, .place 0, .connected 0, .watch 0, .watch 0, .watch 0,
    .placeCall 0 7, .place 1, .driver 0, .driver 0, .driver 0, .driver 0, .driver 0, .driver 0,
    .driver 1, .driver 1, .driver 1, .driver 1, .driver 1, .driver 1, .watch 0]

theorem superseded_not_silent :
    ¬ ∀ (fg : Bool) (ms : List ManagersMove), Along move Silent (new fg) ms := by
  intro h
  have hrun := (h true (staleConnected ++ [.watch 0])).last
  have hsuperseded : ((new true).run staleConnected).calls[0]?.map (·.superseded) = some true := by
    decide +kernel
  have hemit : (((new true).run staleConnected).move (.watch 0)).emitted =
      ((new true).run staleConnected).emitted ++ [(.connected 7 0, 0)] := by decide +kernel
  obtain ⟨c, hc, hup⟩ := Option.map_eq_some_iff.mp hsuperseded
  rw [hrun _ 0 hemit c hc] at hup
  cases hup

theorem superseded_silent_redial :
    Along move Silent (new true)
      [.placeCall 0 7, .place 0, .place 0, .place 0, .placeCall 0 7, .place 1, .place 1, .watch 0, .watch 0,
        .watch 0, .watch 0] :=
  superseded_silent true _ (by decide +kernel)

end ClientManagers

end BaleVpn.Signaling
