import BaleVpn.Lib.Update
import BaleVpn.Daemon.Sessions

/-!
# What a move of the daemon changes

The admission part leaves the sessions alone, and what happens to clients and their slots leaves the
watchers and the tasks alone. A queued event is about the peer of the tunnel it comes from, and a
tunnel announces itself once, so that it gets one session task at most.
-/

namespace BaleVpn.Daemon

open Lib

variable {P : Type}

/-! ## Admission -/

namespace AppState

/-- At most the admission part differs. -/
def SameSessions (s s' : AppState P) : Prop :=
  ∃ calls pending admission blacklist, s' = { s with calls, pending, admission, blacklist }

theorem SameSessions.refl (s : AppState P) : SameSessions s s := ⟨_, _, _, _, rfl⟩

theorem SameSessions.trans {s s' s'' : AppState P} (h : SameSessions s s')
    (h' : SameSessions s' s'') : SameSessions s s'' := by
  obtain ⟨_, _, _, _, rfl⟩ := h
  obtain ⟨_, _, _, _, rfl⟩ := h'
  exact ⟨_, _, _, _, rfl⟩

theorem sameSessions_setCall (s : AppState P) (n : ℕ) (pc : CallPc) :
    SameSessions s (s.setCall n pc) := ⟨_, _, _, _, rfl⟩

variable [DecidableEq P]

theorem sameSessions_pendingResolve (s : AppState P) (peer : P) (d : CallDecision) :
    SameSessions s (s.pendingResolve peer d) := by
  unfold pendingResolve
  split
  · exact ⟨_, _, _, _, rfl⟩
  · exact .refl s

theorem sameSessions_pendingPark (s : AppState P) (peer : P) (n : ℕ) :
    SameSessions s (s.pendingPark peer n) := by
  unfold pendingPark
  split
  · exact ⟨_, _, _, _, rfl⟩
  · exact ⟨_, _, _, _, rfl⟩

theorem sameSessions_callStep (s : AppState P) (n : ℕ) : SameSessions s (s.callStep n) := by
  unfold callStep
  split
  · split
    · exact sameSessions_setCall ..
    · exact sameSessions_setCall ..
    · exact sameSessions_setCall ..
    · exact (sameSessions_pendingPark ..).trans (sameSessions_setCall ..)
    · exact .refl s
    · exact .refl s
    · exact .refl s
    · exact sameSessions_setCall ..
  · exact .refl s

theorem sameSessions_timeout (s : AppState P) (n : ℕ) : SameSessions s (s.timeout n) := by
  unfold timeout
  split
  · split
    · exact (sameSessions_pendingResolve ..).trans (sameSessions_setCall ..)
    · exact .refl s
  · exact .refl s

end AppState

def DaemonMove.aboutCalls : DaemonMove P → Bool
  | .invite _ | .call _ | .cancel _ | .timeout _ | .resolve .. | .clearPending | .setLists .. => true
  | _ => false

namespace AppState

theorem sameSessions_step [DecidableEq P] (s : AppState P) {m : DaemonMove P} (h : m.aboutCalls = true) :
    SameSessions s (s.step m) := by
  cases m with
  | invite _ | cancel _ | clearPending | setLists _ _ => exact ⟨_, _, _, _, rfl⟩
  | call n => exact sameSessions_callStep s n
  | timeout n => exact sameSessions_timeout s n
  | resolve peer d => exact sameSessions_pendingResolve s peer d
  | acceptCall _ _ | tunnelConnected _ _ | tunnelGone _ | watcherEnds _ | handleEvent | loopEnds
  | task _ _ | removeClient _ | clearAll | clearStep => cases h

/-- The accepted call's tunnel is registered. -/
def registered (s : AppState P) (n : ℕ) (peer : P) (sessions : P → Option ℕ) : AppState P :=
  { s.setCall n .ended with sessions, tunnels := s.tunnels ++ [{ peer }] }

theorem acceptCall_cases [DecidableEq P] (s : AppState P) (n : ℕ) (ok : Bool) :
    s.acceptCall n ok = s ∨ ∃ c, s.calls[n]? = some c ∧ c.pc = .decided .accept ∧
      (s.acceptCall n ok = s.setCall n .ended ∨ ∃ sessions, ∃ old : Option ℕ, s.acceptCall n ok =
        old.elim (registered s n c.peer sessions) (registered s n c.peer sessions).disconnect) := by
  cases hn : s.calls[n]? with
  | none => exact .inl (by simp only [acceptCall, hn])
  | some c =>
    by_cases hpc : c.pc = .decided .accept
    · refine .inr ⟨c, rfl, hpc, ?_⟩
      cases ok with
      | false => exact .inl (by simp [acceptCall, hn, hpc])
      | true =>
        refine .inr ⟨Function.update s.sessions c.peer (some s.tunnels.length), s.sessions c.peer, ?_⟩
        simp only [acceptCall, hn, hpc, if_true]
        cases hold : (s.setCall n .ended).sessions c.peer with
        | none =>
          rw [show s.sessions c.peer = none from hold]
          rfl
        | some old =>
          rw [show s.sessions c.peer = some old from hold]
          rfl
    · exact .inl (by simp only [acceptCall, hn, if_neg hpc])

/-! ## Watchers -/

end AppState

def WatcherPc.isOver : WatcherPc → Bool
  | .ended _ => true
  | _ => false

namespace AppState

theorem tunnelConnected_cases (s : AppState P) (i : ℕ) (upgrade : Bool) :
    s.tunnelConnected i upgrade = s ∨ ∃ t, s.tunnels[i]? = some t ∧ t.watcher = .waiting ∧
      (s.tunnelConnected i upgrade = s.setWatcher i (.ended false) ∨
        s.tunnelConnected i upgrade = { s with
          events := s.events ++ [(SessionEvent.connected t.peer i, i)] }.setWatcher i .entered) := by
  cases ht : s.tunnels[i]? with
  | none => exact .inl (by simp only [tunnelConnected, ht])
  | some t =>
    by_cases hwaiting : t.watcher = .waiting
    · refine .inr ⟨t, rfl, hwaiting, ?_⟩
      cases upgrade with
      | false => exact .inl (by simp [tunnelConnected, ht, hwaiting])
      | true => exact .inr (by simp only [tunnelConnected, ht, hwaiting, if_true])
    · exact .inl (by simp only [tunnelConnected, ht, if_neg hwaiting])

theorem tunnelGone_cases [DecidableEq P] (s : AppState P) (i : ℕ) :
    s.tunnelGone i = s ∨ ∃ t event emitted sessions, s.tunnels[i]? = some t ∧
      (t.watcher = .entered ∧ event = .disconnected t.peer ∨
        t.watcher = .waiting ∧ event = .failed t.peer) ∧
      s.tunnelGone i =
        { s with sessions, events := s.events ++ [(event, i)] }.setWatcher i (.ended emitted) := by
  cases ht : s.tunnels[i]? with
  | none => exact .inl (by simp only [tunnelGone, ht])
  | some t =>
    cases hwatcher : t.watcher with
    | entered =>
      exact .inr ⟨t, _, _, _, rfl, .inl ⟨hwatcher, rfl⟩, by simp only [tunnelGone, ht, hwatcher]; rfl⟩
    | waiting =>
      exact .inr ⟨t, _, _, _, rfl, .inr ⟨hwatcher, rfl⟩, by simp only [tunnelGone, ht, hwatcher]; rfl⟩
    | ended emitted => exact .inl (by simp only [tunnelGone, ht, hwatcher])

theorem watcherEnds_cases (s : AppState P) (i : ℕ) :
    s.watcherEnds i = s ∨ ∃ t emitted, s.tunnels[i]? = some t ∧ t.watcher.isOver = false ∧
      s.watcherEnds i = s.setWatcher i (.ended emitted) := by
  have hcongr {f : Tunnel P → Tunnel P} (g : Tunnel P → Tunnel P)
      (h : ∀ t, s.tunnels[i]? = some t → f t = g t) : s.modifyTunnel i f = s.modifyTunnel i g := by
    rw [modifyTunnel, modifyTunnel, modify_congr h]
  have hsame : s.modifyTunnel i id = s := by rw [modifyTunnel, List.modify_id]
  cases ht : s.tunnels[i]? with
  | none =>
    refine .inl (Eq.trans (hcongr id fun t ht' => ?_) hsame)
    rw [ht] at ht'
    cases ht'
  | some t =>
    cases hwatcher : t.watcher with
    | waiting =>
      refine .inr ⟨t, false, rfl, by rw [hwatcher]; rfl, hcongr _ fun t' ht' => ?_⟩
      rw [Option.some.inj (ht'.symm.trans ht), hwatcher]
    | entered =>
      refine .inr ⟨t, true, rfl, by rw [hwatcher]; rfl, hcongr _ fun t' ht' => ?_⟩
      rw [Option.some.inj (ht'.symm.trans ht), hwatcher]
    | ended emitted =>
      refine .inl (Eq.trans (hcongr id fun t' ht' => ?_) hsame)
      rw [Option.some.inj (ht'.symm.trans ht), hwatcher]
      rfl

/-! ## Clients -/

theorem releaseKernelSlot_eq (s : AppState P) (slot : ℕ) :
    ∃ kernelSlots, s.releaseKernelSlot slot = { s with kernelSlots } := by
  unfold releaseKernelSlot
  split
  · exact ⟨_, rfl⟩
  · exact ⟨_, rfl⟩

theorem releaseClient_eq (s : AppState P) (c : ActiveClient) :
    ∃ kernelSlots, s.releaseClient c = { s.disconnect c.tunnel with kernelSlots } := by
  unfold releaseClient
  split
  · exact releaseKernelSlot_eq _ _
  · exact ⟨_, rfl⟩

variable [DecidableEq P]

theorem removeClient_of_lookup {s : AppState P} {peer : P} {c : ActiveClient}
    (h : s.clients.lookup peer = some c) :
    s.removeClient peer = { s with clients := s.clients.erase peer }.releaseClient c := by
  simp only [removeClient, h]

theorem removeClient_of_none {s : AppState P} {peer : P} (h : s.clients.lookup peer = none) :
    s.removeClient peer = s := by
  simp only [removeClient, h]

/-! ## Tasks -/

theorem taskStep_eq {s : AppState P} {i : ℕ} {t : Tunnel P} (ht : s.tunnels[i]? = some t) {pc : TaskPc}
    (htask : t.task = some pc) (ok : Bool) :
    s.taskStep i ok = (s.sessionStep i t.peer ok pc).1.setTask i (s.sessionStep i t.peer ok pc).2 := by
  simp only [taskStep, ht, htask]

theorem taskStep_cases (s : AppState P) (i : ℕ) (ok : Bool) :
    (∀ t, s.tunnels[i]? = some t → t.task = none) ∧ s.taskStep i ok = s ∨
      ∃ t pc, s.tunnels[i]? = some t ∧ t.task = some pc ∧ s.taskStep i ok =
        (s.sessionStep i t.peer ok pc).1.setTask i (s.sessionStep i t.peer ok pc).2 := by
  cases ht : s.tunnels[i]? with
  | none => exact .inl ⟨by simp, by simp only [taskStep, ht]⟩
  | some t =>
    cases htask : t.task with
    | none => exact .inl ⟨by simp [htask], by simp only [taskStep, ht, htask]⟩
    | some pc => exact .inr ⟨t, pc, rfl, htask, taskStep_eq ht htask ok⟩

end AppState

/-! ## Progress -/

/-- What is left of a tunnel when `disconnect` is not looked at. -/
def Tunnel.progress (t : Tunnel P) : P × WatcherPc × Option TaskPc := (t.peer, t.watcher, t.task)

namespace AppState

/-- Watchers, tasks and queued events are the same. -/
structure SameProgress (s s' : AppState P) : Prop where
  tunnels : s'.tunnels.map Tunnel.progress = s.tunnels.map Tunnel.progress
  events : s'.events = s.events

theorem SameProgress.refl (s : AppState P) : SameProgress s s := ⟨rfl, rfl⟩

theorem SameProgress.symm {s s' : AppState P} (h : SameProgress s s') : SameProgress s' s :=
  ⟨h.tunnels.symm, h.events.symm⟩

theorem SameProgress.tunnel {s s' : AppState P} (h : SameProgress s s') {i : ℕ} {t : Tunnel P}
    (ht : s.tunnels[i]? = some t) :
    ∃ t', s'.tunnels[i]? = some t' ∧ t'.peer = t.peer ∧ t'.watcher = t.watcher ∧ t'.task = t.task := by
  have hmap : (s'.tunnels.map Tunnel.progress)[i]? = some t.progress := by
    rw [h.tunnels, List.getElem?_map, ht]
    rfl
  rw [List.getElem?_map] at hmap
  obtain ⟨t', ht', heq⟩ := Option.map_eq_some_iff.mp hmap
  simp only [Tunnel.progress, Prod.mk.injEq] at heq
  exact ⟨t', ht', heq⟩

theorem SameSessions.sameProgress {s s' : AppState P} (h : SameSessions s s') :
    SameProgress s s' := by
  obtain ⟨_, _, _, _, rfl⟩ := h
  exact ⟨rfl, rfl⟩

theorem sameProgress_disconnect (s : AppState P) (i : ℕ) : SameProgress s (s.disconnect i) :=
  ⟨map_modify_of_eq _ _ fun _ => rfl, rfl⟩

theorem sameProgress_releaseClient (s : AppState P) (c : ActiveClient) :
    SameProgress s (s.releaseClient c) := by
  obtain ⟨_, heq⟩ := releaseClient_eq s c
  rw [heq]
  exact ⟨(sameProgress_disconnect s _).tunnels, rfl⟩

theorem sameProgress_clearStep (s : AppState P) : SameProgress s s.clearStep := by
  unfold clearStep
  split
  · rename_i c clearing _
    have hrelease := sameProgress_releaseClient { s with clearing } c
    exact ⟨hrelease.tunnels, hrelease.events⟩
  · exact .refl s

variable [DecidableEq P]

theorem sameProgress_removeClient (s : AppState P) (peer : P) :
    SameProgress s (s.removeClient peer) := by
  cases h : s.clients.lookup peer with
  | some c =>
    have hrelease := sameProgress_releaseClient { s with clients := s.clients.erase peer } c
    rw [removeClient_of_lookup h]
    exact ⟨hrelease.tunnels, hrelease.events⟩
  | none =>
    rw [removeClient_of_none h]
    exact .refl s

theorem sameProgress_sessionStep (s : AppState P) (i : ℕ) (peer : P) (ok : Bool) (pc : TaskPc) :
    SameProgress s (s.sessionStep i peer ok pc).1 := by
  have hrelease (slot : ℕ) : SameProgress s (s.releaseKernelSlot slot) := by
    obtain ⟨_, heq⟩ := releaseKernelSlot_eq s slot
    rw [heq]
    exact ⟨rfl, rfl⟩
  cases pc with
  | fetchDisplayName | startServer | parked | returned | install _ => exact ⟨rfl, rfl⟩
  | allocSlot =>
    simp only [sessionStep]
    split
    · exact ⟨rfl, rfl⟩
    · exact .refl s
  | openTun slot | attachTun slot =>
    simp only [sessionStep]
    split
    · exact .refl s
    · exact hrelease slot
  | natFailed => exact sameProgress_disconnect s i
  | remove => exact sameProgress_removeClient s peer

end AppState

/-! ## What a move does to it -/

def SessionEvent.peer : SessionEvent P → P
  | .connected peer _ | .disconnected peer | .failed peer => peer

/-- The event hands tunnel `i` to the loop. -/
def SessionEvent.announces (i : ℕ) : SessionEvent P × ℕ → Bool
  | (.connected _ j, _) => j = i
  | _ => false

namespace AppState

inductive Progress (s : AppState P) (m : DaemonMove P) (s' : AppState P) : Prop
  | same (h : SameProgress s s')
  | accept (peer : P) (h : SameProgress { s with tunnels := s.tunnels ++ [{ peer }] } s')
  | leave (i : ℕ) (watcher : WatcherPc)
    (hopen : ∀ t, s.tunnels[i]? = some t → t.watcher.isOver = false) (hwatcher : watcher ≠ .waiting)
    (h : SameProgress (s.setWatcher i watcher) s')
  | emit (i : ℕ) (t : Tunnel P) (event : SessionEvent P) (watcher : WatcherPc)
    (ht : s.tunnels[i]? = some t) (hopen : t.watcher.isOver = false) (hwatcher : watcher ≠ .waiting)
    (hpeer : event.peer = t.peer)
    (hannounces : ∀ j, SessionEvent.announces j (event, i) = true → j = i ∧ t.watcher = .waiting)
    (h : SameProgress ({ s with events := s.events ++ [(event, i)] }.setWatcher i watcher) s')
  | pop (e : SessionEvent P × ℕ) (events : List (SessionEvent P × ℕ)) (hevents : s.events = e :: events)
    (hno : ∀ i, SessionEvent.announces i e = false) (h : SameProgress { s with events } s')
  | spawn (peer : P) (i j : ℕ) (events : List (SessionEvent P × ℕ)) (hm : m = .handleEvent)
    (hloop : s.loopRunning = true) (hevents : s.events = (.connected peer i, j) :: events)
    (h : SameProgress ({ s with events }.setTask i .fetchDisplayName) s')
  | task (i : ℕ) (t : Tunnel P) (pc pc' : TaskPc) (ht : s.tunnels[i]? = some t)
    (htask : t.task = some pc) (hreturned : pc = .returned → pc' = .returned)
    (h : SameProgress (s.setTask i pc') s')

theorem SameProgress.setTask {s s' : AppState P} (h : SameProgress s s') (i : ℕ) (pc : TaskPc) :
    SameProgress (s.setTask i pc) (s'.setTask i pc) := by
  have hmap (l : List (Tunnel P)) : (l.modify i fun t => { t with task := some pc }).map Tunnel.progress =
      (l.map Tunnel.progress).modify i fun p => (p.1, p.2.1, some pc) := map_modify l i fun _ => rfl
  refine ⟨?_, h.events⟩
  simp only [AppState.setTask, modifyTunnel, hmap, h.tunnels]

theorem progress_tunnelConnected (s : AppState P) (m : DaemonMove P) (i : ℕ) (upgrade : Bool) :
    Progress s m (s.tunnelConnected i upgrade) := by
  rcases tunnelConnected_cases s i upgrade with heq | ⟨t, ht, hwaiting, heq | heq⟩
  · rw [heq]
    exact .same (.refl s)
  · rw [heq]
    refine .leave i _ (fun t' ht' => ?_) (by simp) (.refl _)
    rw [Option.some.inj (ht'.symm.trans ht), hwaiting]
    rfl
  · rw [heq]
    refine .emit i t (.connected t.peer i) _ ht (by rw [hwaiting]; rfl) (by simp) rfl (fun j hj => ?_)
      (.refl _)
    exact ⟨(of_decide_eq_true hj).symm, hwaiting⟩

theorem progress_watcherEnds (s : AppState P) (m : DaemonMove P) (i : ℕ) :
    Progress s m (s.watcherEnds i) := by
  rcases watcherEnds_cases s i with heq | ⟨t, emitted, ht, hopen, heq⟩
  · rw [heq]
    exact .same (.refl s)
  · rw [heq]
    refine .leave i _ (fun t' ht' => ?_) (by simp) (.refl _)
    rw [Option.some.inj (ht'.symm.trans ht), hopen]

variable [DecidableEq P]

theorem progress_acceptCall (s : AppState P) (m : DaemonMove P) (n : ℕ) (ok : Bool) :
    Progress s m (s.acceptCall n ok) := by
  rcases acceptCall_cases s n ok with heq | ⟨c, -, -, heq | ⟨sessions, old, heq⟩⟩
  · rw [heq]
    exact .same (.refl s)
  · rw [heq]
    exact .same (sameSessions_setCall ..).sameProgress
  · rw [heq]
    cases old with
    | none => exact .accept c.peer ⟨rfl, rfl⟩
    | some old =>
      have hold := sameProgress_disconnect (registered s n c.peer sessions) old
      exact .accept c.peer ⟨hold.tunnels, hold.events⟩

theorem progress_tunnelGone (s : AppState P) (m : DaemonMove P) (i : ℕ) :
    Progress s m (s.tunnelGone i) := by
  rcases tunnelGone_cases s i with heq | ⟨t, event, emitted, sessions, ht, hevent, heq⟩
  · rw [heq]
    exact .same (.refl s)
  · have hpeer : event.peer = t.peer := by
      rcases hevent with ⟨-, rfl⟩ | ⟨-, rfl⟩ <;> rfl
    have hno (j : ℕ) : SessionEvent.announces j (event, i) = false := by
      rcases hevent with ⟨-, rfl⟩ | ⟨-, rfl⟩ <;> rfl
    have hopen : t.watcher.isOver = false := by
      rcases hevent with ⟨h, -⟩ | ⟨h, -⟩ <;> rw [h] <;> rfl
    rw [heq]
    exact .emit i t event (.ended emitted) ht hopen (by simp) hpeer (by simp [hno]) ⟨rfl, rfl⟩

theorem progress_handleEvent (s : AppState P) : Progress s .handleEvent s.handleEvent := by
  unfold handleEvent
  split
  · rename_i hloop
    split
    · rename_i peer i j events hevents
      exact .spawn peer i j events rfl hloop hevents ⟨rfl, rfl⟩
    · rename_i hevents
      exact .pop _ _ hevents (fun _ => rfl) ⟨rfl, rfl⟩
    · rename_i hevents
      exact .pop _ _ hevents (fun _ => rfl) (sameSessions_pendingResolve ..).sameProgress
    · exact .same (.refl s)
  · exact .same (.refl s)

theorem progress_taskStep (s : AppState P) (m : DaemonMove P) (i : ℕ) (ok : Bool) :
    Progress s m (s.taskStep i ok) := by
  rcases taskStep_cases s i ok with ⟨-, heq⟩ | ⟨t, pc, ht, htask, heq⟩
  · rw [heq]
    exact .same (.refl s)
  · rw [heq]
    refine .task i t pc _ ht htask ?_ ((sameProgress_sessionStep s i t.peer ok pc).setTask i _)
    rintro rfl
    rfl

theorem progress_step (s : AppState P) (m : DaemonMove P) : Progress s m (s.step m) := by
  cases m with
  | invite _ | call _ | cancel _ | timeout _ | resolve _ _ | clearPending | setLists _ _ =>
    exact .same (sameSessions_step s rfl).sameProgress
  | loopEnds | clearAll => exact .same ⟨rfl, rfl⟩
  | removeClient peer => exact .same (sameProgress_removeClient s peer)
  | clearStep => exact .same (sameProgress_clearStep s)
  | acceptCall n ok => exact progress_acceptCall s _ n ok
  | tunnelConnected i upgrade => exact progress_tunnelConnected s _ i upgrade
  | tunnelGone i => exact progress_tunnelGone s _ i
  | watcherEnds i => exact progress_watcherEnds s _ i
  | handleEvent => exact progress_handleEvent s
  | task i ok => exact progress_taskStep s _ i ok

end AppState

/-! ## Events and the tunnels they come from -/

/-- One for a tunnel that may still announce itself, one for a tunnel that has its task. -/
def Tunnel.chances (t : Tunnel P) : ℕ :=
  (if t.watcher = .waiting then 1 else 0) + if t.task.isSome then 1 else 0

namespace AppState

structure Filed (s : AppState P) : Prop where
  peer : ∀ e ∈ s.events, ∃ t, s.tunnels[e.2]? = some t ∧ t.peer = e.1.peer
  origin : ∀ e ∈ s.events, ∀ i, SessionEvent.announces i e = true → i = e.2
  once : ∀ i t, s.tunnels[i]? = some t → t.chances + s.events.countP (SessionEvent.announces i) ≤ 1

theorem filed_start (maxClients : ℕ) (kernelNat : Bool) (admission blacklist : List P) :
    Filed (start maxClients kernelNat admission blacklist) where
  peer e he := by cases he
  origin e he := by cases he
  once i t ht := by cases ht

theorem Filed.sameProgress {s s' : AppState P} (hfiled : Filed s) (h : SameProgress s s') :
    Filed s' where
  peer e he := by
    rw [h.events] at he
    obtain ⟨t, ht, hpeer⟩ := hfiled.peer e he
    obtain ⟨t', ht', hpeer', -, -⟩ := h.tunnel ht
    exact ⟨t', ht', hpeer'.trans hpeer⟩
  origin e he := hfiled.origin e (h.events ▸ he)
  once i t' ht' := by
    obtain ⟨t, ht, -, hwatcher, htask⟩ := h.symm.tunnel ht'
    have honce := hfiled.once i t ht
    rw [h.events]
    simpa [Tunnel.chances, hwatcher, htask] using honce

theorem Filed.modifyTunnel {s : AppState P} (hfiled : Filed s) {i : ℕ} {f : Tunnel P → Tunnel P}
    (hpeer : ∀ t, (f t).peer = t.peer)
    (hchances : ∀ t, s.tunnels[i]? = some t → (f t).chances ≤ t.chances) :
    Filed (s.modifyTunnel i f) where
  peer e he := by
    obtain ⟨t, ht, heq⟩ := hfiled.peer e he
    refine ⟨_, getElem?_modify_of_eq_some ht i f, ?_⟩
    rw [apply_ite Tunnel.peer, hpeer, ite_self, heq]
  origin := hfiled.origin
  once j t' ht' := by
    obtain ⟨t, ht, rfl⟩ := getElem?_modify_eq_some ht'
    have honce := hfiled.once j t ht
    by_cases hij : i = j
    · subst hij
      rw [if_pos rfl]
      exact Nat.le_trans (Nat.add_le_add_right (hchances t ht) _) honce
    · rwa [if_neg hij]

theorem Filed.lt {s : AppState P} (hfiled : Filed s) {e : SessionEvent P × ℕ} (he : e ∈ s.events) :
    e.2 < s.tunnels.length := by
  obtain ⟨t, ht, -⟩ := hfiled.peer e he
  exact (List.getElem?_eq_some_iff.mp ht).choose

theorem Filed.accept {s : AppState P} (hfiled : Filed s) (peer : P) :
    Filed { s with tunnels := s.tunnels ++ [{ peer }] } where
  peer e he := by
    obtain ⟨t, ht, heq⟩ := hfiled.peer e he
    exact ⟨t, by rw [List.getElem?_append_left (hfiled.lt he), ht], heq⟩
  origin := hfiled.origin
  once i t ht := by
    by_cases hi : i < s.tunnels.length
    · rw [List.getElem?_append_left hi] at ht
      exact hfiled.once i t ht
    · -- nothing in the queue announces a tunnel that is new
      have hnone : s.events.countP (SessionEvent.announces i) = 0 := by
        rw [List.countP_eq_zero]
        intro e he hannounces
        have hlt := hfiled.lt he
        rw [← hfiled.origin e he i hannounces] at hlt
        exact hi hlt
      have ht' : t = { peer } := by
        rw [List.getElem?_append_right (by omega)] at ht
        exact (List.mem_singleton.mp (List.mem_of_getElem? ht))
      rw [hnone, ht']
      simp [Tunnel.chances]

theorem Filed.emit {s : AppState P} (hfiled : Filed s) {i : ℕ} {t : Tunnel P}
    (ht : s.tunnels[i]? = some t) {event : SessionEvent P} (hpeer : event.peer = t.peer)
    (hannounces : ∀ j, SessionEvent.announces j (event, i) = true → j = i ∧ t.watcher = .waiting)
    {watcher : WatcherPc} (hwatcher : watcher ≠ .waiting) :
    Filed ({ s with events := s.events ++ [(event, i)] }.setWatcher i watcher) where
  peer e he := by
    have hmem : ∃ t', s.tunnels[e.2]? = some t' ∧ t'.peer = e.1.peer := by
      rcases List.mem_append.mp he with he | he
      · exact hfiled.peer e he
      · rw [List.mem_singleton.mp he]
        exact ⟨t, ht, hpeer.symm⟩
    obtain ⟨t', ht', heq⟩ := hmem
    refine ⟨_, getElem?_modify_of_eq_some ht' i _, ?_⟩
    rw [apply_ite Tunnel.peer, ite_self, heq]
  origin e he j hj := by
    rcases List.mem_append.mp he with he | he
    · exact hfiled.origin e he j hj
    · rw [List.mem_singleton.mp he] at hj ⊢
      exact (hannounces j hj).1
  once j t' ht' := by
    obtain ⟨t₀, ht₀, rfl⟩ := getElem?_modify_eq_some ht'
    have honce := hfiled.once j t₀ ht₀
    show Tunnel.chances _ + (s.events ++ [(event, i)]).countP _ ≤ 1
    rw [List.countP_append, List.countP_singleton]
    by_cases hij : i = j
    · subst hij
      have hsame : t₀ = t := Option.some.inj (ht₀.symm.trans ht)
      subst hsame
      rw [if_pos rfl]
      simp only [Tunnel.chances, if_neg hwatcher] at honce ⊢
      by_cases hnew : SessionEvent.announces i (event, i) = true
      · simp only [hnew, (hannounces i hnew).2, if_true] at honce ⊢
        omega
      · rw [if_neg hnew]
        omega
    · have hno : SessionEvent.announces j (event, i) = false :=
        Bool.eq_false_iff.mpr fun h => hij (hannounces j h).1.symm
      rw [if_neg hij, hno]
      simpa using honce

theorem Filed.pop {s : AppState P} (hfiled : Filed s) {e : SessionEvent P × ℕ}
    {events : List (SessionEvent P × ℕ)} (hevents : s.events = e :: events) :
    Filed { s with events } where
  peer e' he' := hfiled.peer e' (by rw [hevents]; exact List.mem_cons_of_mem _ he')
  origin e' he' := hfiled.origin e' (by rw [hevents]; exact List.mem_cons_of_mem _ he')
  once i t ht := by
    have honce := hfiled.once i t ht
    rw [hevents, List.countP_cons] at honce
    show t.chances + events.countP _ ≤ 1
    omega

theorem Filed.spawn {s : AppState P} (hfiled : Filed s) {peer : P} {i j : ℕ}
    {events : List (SessionEvent P × ℕ)} (hevents : s.events = (.connected peer i, j) :: events)
    (pc : TaskPc) : Filed ({ s with events }.setTask i pc) where
  peer e he := by
    obtain ⟨t, ht, heq⟩ := (hfiled.pop hevents).peer e he
    refine ⟨_, getElem?_modify_of_eq_some ht i _, ?_⟩
    rw [apply_ite Tunnel.peer, ite_self, heq]
  origin := (hfiled.pop hevents).origin
  once k t' ht' := by
    obtain ⟨t, ht, rfl⟩ := getElem?_modify_eq_some ht'
    have honce := hfiled.once k t ht
    rw [hevents, List.countP_cons] at honce
    show Tunnel.chances _ + events.countP _ ≤ 1
    by_cases hik : i = k
    · subst hik
      rw [if_pos rfl]
      simp only [Tunnel.chances, SessionEvent.announces, decide_true, if_true] at honce ⊢
      simp only [Option.isSome_some, if_true]
      omega
    · rw [if_neg hik]
      omega

/-- A tunnel that is announced is there, and has no task yet. -/
theorem Filed.announced {s : AppState P} (hfiled : Filed s) {peer : P} {i j : ℕ}
    (he : (SessionEvent.connected peer i, j) ∈ s.events) :
    j = i ∧ ∃ t, s.tunnels[i]? = some t ∧ t.peer = peer ∧ t.task = none := by
  obtain rfl : i = j := hfiled.origin _ he i (by simp [SessionEvent.announces])
  obtain ⟨t, ht, hpeer⟩ : ∃ t, s.tunnels[i]? = some t ∧ t.peer = peer := hfiled.peer _ he
  refine ⟨rfl, t, ht, hpeer, ?_⟩
  have honce := hfiled.once i t ht
  have hpos : 0 < s.events.countP (SessionEvent.announces i) :=
    List.countP_pos_iff.mpr ⟨_, he, by simp [SessionEvent.announces]⟩
  cases htask : t.task with
  | none => rfl
  | some pc =>
    simp only [Tunnel.chances, htask, Option.isSome_some, if_true] at honce
    omega

/-- Whatever a move does, a tunnel announces itself once. -/
theorem Filed.progress {s s' : AppState P} {m : DaemonMove P} (hfiled : Filed s)
    (h : Progress s m s') : Filed s' := by
  cases h with
  | same h => exact hfiled.sameProgress h
  | accept peer h => exact (hfiled.accept peer).sameProgress h
  | leave i watcher _ hwatcher h =>
    have hleave : Filed (s.setWatcher i watcher) :=
      hfiled.modifyTunnel (fun _ => rfl) fun t _ => by simp [Tunnel.chances, hwatcher]
    exact hleave.sameProgress h
  | emit i t event watcher ht _ hwatcher hpeer hannounces h =>
    exact (hfiled.emit ht hpeer hannounces hwatcher).sameProgress h
  | pop e events hevents _ h => exact (hfiled.pop hevents).sameProgress h
  | spawn peer i j events _ _ hevents h => exact (hfiled.spawn hevents _).sameProgress h
  | task i t pc pc' ht htask _ h =>
    have hset : Filed (s.setTask i pc') := by
      refine hfiled.modifyTunnel (fun _ => rfl) fun t' ht' => ?_
      have hsame : t' = t := Option.some.inj (ht'.symm.trans ht)
      simp [Tunnel.chances, hsame, htask]
    exact hset.sameProgress h

theorem Filed.step [DecidableEq P] {s : AppState P} (hfiled : Filed s) (m : DaemonMove P) :
    Filed (s.step m) := hfiled.progress (progress_step s m)

end AppState

end BaleVpn.Daemon
