import Mathlib.Data.Finset.Card
import BaleVpn.Daemon.Steps

/-!
# How many clients a server has (`daemon.rs`, `server.rs`)

The number of clients is compared with `max_clients` when a call is decided. The client is installed
after the user's decision, the accept RPC, the LiveKit join and the set-up of its NAT, and nobody
compares again. So the bound holds in runs in which the peers that are already on their way count as
well when a call is admitted.
-/

namespace BaleVpn.Daemon

open Lib

variable {P : Type}

/-! ## On the way -/

/-- The call is past the comparison and may still be accepted. -/
def CallPc.admitted : CallPc → Bool
  | .admission | .park | .parked | .decided .accept => true
  | _ => false

/-- The task may still install its client. -/
def TaskPc.settingUp : TaskPc → Bool
  | .fetchDisplayName | .allocSlot | .openTun _ | .attachTun _ | .startServer | .install _ => true
  | _ => false

def Tunnel.onTheWay (t : Tunnel P) : Bool := t.watcher = .waiting || t.task.any TaskPc.settingUp

def SessionEvent.connectedPeer : SessionEvent P × ℕ → Option P
  | (.connected peer _, _) => some peer
  | _ => none

namespace AppState

variable [DecidableEq P]

/-- Peers that have a client, and peers whose call was admitted and may still get one. -/
def expected (s : AppState P) : Finset P :=
  (s.clients.keys ++ (s.calls.filter (·.pc.admitted)).map Call.peer ++
    (s.tunnels.filter Tunnel.onTheWay).map Tunnel.peer ++
      s.events.filterMap SessionEvent.connectedPeer).toFinset

theorem mem_expected {s : AppState P} {p : P} :
    p ∈ s.expected ↔ p ∈ s.clients ∨ (∃ c ∈ s.calls, c.pc.admitted = true ∧ c.peer = p) ∨
      (∃ t ∈ s.tunnels, t.onTheWay = true ∧ t.peer = p) ∨
        ∃ e ∈ s.events, SessionEvent.connectedPeer e = some p := by
  simp [expected, AList.mem_keys, and_assoc]

/-- A call that finds room among the clients finds room among those on their way as well. -/
def Roomy (s : AppState P) : DaemonMove P → Prop
  | .call n => ∀ c ∈ s.calls[n]?, c.pc = .capacity → s.clients.entries.length < s.maxClients →
      (insert c.peer s.expected).card ≤ s.maxClients
  | _ => True

instance (s : AppState P) : (m : DaemonMove P) → Decidable (Roomy s m)
  | .call n => inferInstanceAs (Decidable (∀ c ∈ s.calls[n]?, c.pc = .capacity →
      s.clients.entries.length < s.maxClients → (insert c.peer s.expected).card ≤ s.maxClients))
  | .invite _ | .cancel _ | .timeout _ | .resolve .. | .acceptCall .. | .tunnelConnected ..
  | .tunnelGone _ | .watcherEnds _ | .handleEvent | .loopEnds | .task .. | .removeClient _
  | .clearAll | .clearStep | .clearPending | .setLists .. => isTrue trivial

/-! ## Steps that admit nobody -/

/-- Nobody new is expected, and the bound stays. -/
structure Eases (s s' : AppState P) : Prop where
  expected : s'.expected ⊆ s.expected
  maxClients : s'.maxClients = s.maxClients

theorem Eases.refl (s : AppState P) : Eases s s := ⟨subset_rfl, rfl⟩

theorem Eases.trans {s s' s'' : AppState P} (h : Eases s s') (h' : Eases s' s'') : Eases s s'' :=
  ⟨h'.expected.trans h.expected, h'.maxClients.trans h.maxClients⟩

theorem Eases.of {s s' : AppState P} (hmax : s'.maxClients = s.maxClients)
    (hclients : ∀ p ∈ s'.clients, p ∈ s.expected)
    (hcalls : ∀ c ∈ s'.calls, c.pc.admitted = true → c.peer ∈ s.expected)
    (htunnels : ∀ t ∈ s'.tunnels, t.onTheWay = true → t.peer ∈ s.expected)
    (hevents : ∀ e ∈ s'.events, ∀ p, SessionEvent.connectedPeer e = some p → p ∈ s.expected) :
    Eases s s' := by
  refine ⟨fun p hp => ?_, hmax⟩
  rcases mem_expected.mp hp with hp | ⟨c, hc, hadmitted, rfl⟩ | ⟨t, ht, hway, rfl⟩ | ⟨e, he, hp⟩
  · exact hclients p hp
  · exact hcalls c hc hadmitted
  · exact htunnels t ht hway
  · exact hevents e he p hp

theorem expected_client (s : AppState P) (p : P) (h : p ∈ s.clients) : p ∈ s.expected :=
  mem_expected.mpr (.inl h)

theorem expected_call (s : AppState P) (c : Call P) (h : c ∈ s.calls)
    (hadmitted : c.pc.admitted = true) : c.peer ∈ s.expected :=
  mem_expected.mpr (.inr (.inl ⟨c, h, hadmitted, rfl⟩))

theorem expected_tunnel (s : AppState P) (t : Tunnel P) (h : t ∈ s.tunnels)
    (hway : t.onTheWay = true) : t.peer ∈ s.expected :=
  mem_expected.mpr (.inr (.inr (.inl ⟨t, h, hway, rfl⟩)))

theorem expected_event (s : AppState P) (e : SessionEvent P × ℕ) (h : e ∈ s.events) (p : P)
    (hp : SessionEvent.connectedPeer e = some p) : p ∈ s.expected :=
  mem_expected.mpr (.inr (.inr (.inr ⟨e, h, hp⟩)))

/-! ### Calls -/

theorem Eases.of_calls {s s' : AppState P} (h : SameSessions s s')
    (hcalls : ∀ c ∈ s'.calls, c.pc.admitted = true → c.peer ∈ s.expected) : Eases s s' := by
  obtain ⟨calls, _, _, _, rfl⟩ := h
  exact .of rfl (expected_client s) hcalls (expected_tunnel s)
    (expected_event s)

theorem Eases.modifyCall (s : AppState P) (n : ℕ) {f : Call P → Call P}
    (h : ∀ c, s.calls[n]? = some c → (f c).pc.admitted = true →
      c.pc.admitted = true ∧ (f c).peer = c.peer) (pending : P → Option ℕ) :
    Eases s { s with calls := s.calls.modify n f, pending } := by
  refine .of_calls ⟨_, _, _, _, rfl⟩ fun c' hc' hadmitted => ?_
  rcases mem_of_mem_modify hc' with hc' | ⟨c, hc, rfl⟩
  · exact expected_call s c' hc' hadmitted
  · obtain ⟨hc', hpeer⟩ := h c hc hadmitted
    rw [hpeer]
    exact expected_call s c (List.mem_of_getElem? hc) hc'

theorem Eases.setCall {s : AppState P} {n : ℕ} {c : Call P} (hn : s.calls[n]? = some c) {pc : CallPc}
    (h : pc.admitted = true → c.pc.admitted = true) : Eases s (s.setCall n pc) := by
  refine .modifyCall s n (fun c' hc' hpc => ?_) s.pending
  have hsame : c' = c := Option.some.inj (hc'.symm.trans hn)
  exact ⟨hsame ▸ h hpc, rfl⟩

theorem Eases.decideParked (s : AppState P) (n : ℕ) (d : CallDecision) (pending : P → Option ℕ) :
    Eases s ({ s with pending }.decideParked n d) := by
  refine .modifyCall s n (fun c _ hpc => ?_) pending
  by_cases hparked : c.pc = .parked
  · simp [hparked, CallPc.admitted]
  · rw [if_neg hparked] at hpc ⊢
    exact ⟨hpc, rfl⟩

theorem Eases.pendingResolve (s : AppState P) (peer : P) (d : CallDecision) :
    Eases s (s.pendingResolve peer d) := by
  unfold AppState.pendingResolve
  split
  · exact .decideParked s _ d _
  · exact .refl s

theorem Eases.pendingPark (s : AppState P) (peer : P) (n : ℕ) : Eases s (s.pendingPark peer n) := by
  unfold AppState.pendingPark
  split
  · exact .decideParked s _ _ _
  · exact .of_calls ⟨_, _, _, _, rfl⟩ (expected_call s)

theorem calls_pendingPark {s : AppState P} (peer : P) {n : ℕ} {c : Call P}
    (hn : s.calls[n]? = some c) (hpc : c.pc ≠ .parked) :
    (s.pendingPark peer n).calls[n]? = some c := by
  unfold AppState.pendingPark
  split
  · simp only [AppState.decideParked, List.getElem?_modify]
    rw [hn]
    simp [hpc]
  · exact hn

theorem Eases.callStep {s : AppState P} {n : ℕ}
    (hroom : ∀ c ∈ s.calls[n]?, c.pc = .capacity → s.maxClients ≤ s.clients.entries.length) :
    Eases s (s.callStep n) := by
  unfold AppState.callStep
  split
  · rename_i c hn
    split
    · rename_i hpc
      refine .setCall hn fun hadmitted => ?_
      split at hadmitted <;> cases hadmitted
    · rename_i hpc
      rw [if_pos (hroom c hn hpc)]
      exact .setCall hn fun hadmitted => by cases hadmitted
    · rename_i hpc
      exact .setCall hn fun _ => by rw [hpc]; rfl
    · rename_i hpc
      have hpark := calls_pendingPark c.peer hn (by rw [hpc]; simp)
      exact (Eases.pendingPark s c.peer n).trans (.setCall hpark fun _ => by rw [hpc]; rfl)
    · exact .refl s
    · exact .refl s
    · exact .refl s
    · exact .setCall hn fun hadmitted => by cases hadmitted
  · exact .refl s

theorem Eases.cancel (s : AppState P) (n : ℕ) : Eases s (s.cancel n) := by
  refine .modifyCall s n (fun c _ hpc => ?_) s.pending
  revert hpc
  split
  · exact fun hpc => ⟨hpc, rfl⟩
  · exact fun hpc => ⟨hpc, rfl⟩
  · intro hpc
    cases hpc

theorem Eases.endCall (s : AppState P) (n : ℕ) {pc : CallPc} (h : pc.admitted = false) :
    Eases s (s.setCall n pc) :=
  .modifyCall s n (fun _ _ hpc => by rw [h] at hpc; cases hpc) s.pending

theorem Eases.timeout (s : AppState P) (n : ℕ) : Eases s (s.timeout n) := by
  unfold AppState.timeout
  split
  · split
    · exact (Eases.pendingResolve s _ _).trans (.endCall _ n rfl)
    · exact .refl s
  · exact .refl s

theorem Eases.clearPending (s : AppState P) : Eases s (s.step .clearPending) := by
  refine .of_calls ⟨_, _, _, _, rfl⟩ fun c' hc' hadmitted => ?_
  obtain ⟨c, hc, rfl⟩ := List.mem_map.mp hc'
  by_cases hparked : c.pc = .parked
  · rw [if_pos hparked] at hadmitted
    cases hadmitted
  · rw [if_neg hparked] at hadmitted ⊢
    exact expected_call s c hc hadmitted

/-! ### Tunnels -/

theorem Eases.modifyTunnel (s : AppState P) (i : ℕ) {f : Tunnel P → Tunnel P}
    (h : ∀ t, s.tunnels[i]? = some t → (f t).onTheWay = true → (f t).peer ∈ s.expected) :
    Eases s (s.modifyTunnel i f) := by
  refine .of rfl (expected_client s) (expected_call s) (fun t' ht' hway => ?_)
    (expected_event s)
  rcases mem_of_mem_modify ht' with ht' | ⟨t, ht, rfl⟩
  · exact expected_tunnel s t' ht' hway
  · exact h t ht hway

theorem Eases.disconnect (s : AppState P) (i : ℕ) : Eases s (s.disconnect i) :=
  .modifyTunnel s i fun t ht hway =>
    expected_tunnel s t (List.mem_of_getElem? ht) hway

theorem Eases.acceptCall (s : AppState P) (n : ℕ) (ok : Bool) : Eases s (s.acceptCall n ok) := by
  rcases acceptCall_cases s n ok with heq | ⟨c, hn, hpc, heq | ⟨sessions, old, heq⟩⟩
  · rw [heq]
    exact .refl s
  · rw [heq]
    exact .endCall s n rfl
  · -- the peer was expected because of its call and is because of its tunnel
    have hregistered : Eases s (registered s n c.peer sessions) := by
      refine .of rfl (expected_client s) (fun c' hc' hadmitted => ?_) (fun t ht hway => ?_)
        (expected_event s)
      · rcases mem_of_mem_modify hc' with hc' | ⟨c', hc', rfl⟩
        · exact expected_call s c' hc' hadmitted
        · cases hadmitted
      · rcases List.mem_append.mp ht with ht | ht
        · exact expected_tunnel s t ht hway
        · rw [List.mem_singleton.mp ht]
          exact expected_call s c (List.mem_of_getElem? hn) (by rw [hpc]; rfl)
    rw [heq]
    cases old with
    | none => exact hregistered
    | some old => exact hregistered.trans (.disconnect _ old)

theorem Eases.leave {s : AppState P} {i : ℕ} {t : Tunnel P} (ht : s.tunnels[i]? = some t)
    {events : List (SessionEvent P × ℕ)}
    (hevents : ∀ e ∈ events, SessionEvent.connectedPeer e = some t.peer → t.watcher = .waiting)
    (hpeer : ∀ e ∈ events, ∀ p, SessionEvent.connectedPeer e = some p → p = t.peer)
    (sessions : P → Option ℕ) {watcher : WatcherPc} (hwatcher : watcher ≠ .waiting) :
    Eases s ({ s with sessions, events := s.events ++ events }.setWatcher i watcher) := by
  have hmem := List.mem_of_getElem? ht
  refine .of rfl (expected_client s) (expected_call s) (fun t' ht' hway => ?_) (fun e he p hp => ?_)
  · rcases mem_of_mem_modify ht' with ht' | ⟨t₀, ht₀, rfl⟩
    · exact expected_tunnel s t' ht' hway
    · refine expected_tunnel s t₀ (List.mem_of_getElem? ht₀) ?_
      simp only [Tunnel.onTheWay, hwatcher, decide_false, Bool.false_or] at hway
      simp [Tunnel.onTheWay, hway]
  · rcases List.mem_append.mp he with he | he
    · exact expected_event s e he p hp
    · have hp' := hpeer e he p hp
      rw [hp'] at hp ⊢
      exact expected_tunnel s t hmem (by simp [Tunnel.onTheWay, hevents e he hp])

theorem Eases.tunnelConnected (s : AppState P) (i : ℕ) (upgrade : Bool) :
    Eases s (s.tunnelConnected i upgrade) := by
  rcases tunnelConnected_cases s i upgrade with heq | ⟨t, ht, hwaiting, heq | heq⟩
  · rw [heq]
    exact .refl s
  · rw [heq]
    have hleave : Eases s ({ s with events := s.events ++ [] }.setWatcher i (.ended false)) :=
      .leave ht (by simp) (by simp) s.sessions (by simp)
    rwa [List.append_nil] at hleave
  · rw [heq]
    exact .leave ht (fun _ _ _ => hwaiting) (by simp [SessionEvent.connectedPeer]) s.sessions (by simp)

theorem Eases.tunnelGone (s : AppState P) (i : ℕ) : Eases s (s.tunnelGone i) := by
  rcases tunnelGone_cases s i with heq | ⟨t, event, emitted, sessions, ht, hevent, heq⟩
  · rw [heq]
    exact .refl s
  · have hno : SessionEvent.connectedPeer (event, i) = none := by
      rcases hevent with ⟨-, rfl⟩ | ⟨-, rfl⟩ <;> rfl
    rw [heq]
    exact .leave ht (by simp [hno]) (by simp [hno]) sessions (by simp)

theorem Eases.watcherEnds (s : AppState P) (i : ℕ) : Eases s (s.watcherEnds i) := by
  refine .modifyTunnel s i fun t ht hway => ?_
  have hpeer := expected_tunnel s t (List.mem_of_getElem? ht)
  revert hway
  split
  · intro hway
    refine hpeer ?_
    simp only [Tunnel.onTheWay] at hway ⊢
    simp_all
  · intro hway
    refine hpeer ?_
    simp only [Tunnel.onTheWay] at hway ⊢
    simp_all
  · exact hpeer

theorem Eases.handleEvent {s : AppState P} (hfiled : Filed s) : Eases s s.handleEvent := by
  unfold AppState.handleEvent
  split
  · split
    · rename_i peer i j events hevents
      have hhead : (SessionEvent.connected peer i, j) ∈ s.events := by simp [hevents]
      have hpeer : peer ∈ s.expected := expected_event s _ hhead peer rfl
      refine .of rfl (expected_client s) (expected_call s) (fun t' ht' hway => ?_)
        (fun e he => expected_event s e (by rw [hevents]; exact List.mem_cons_of_mem _ he))
      rcases mem_of_mem_modify ht' with ht' | ⟨t, ht, rfl⟩
      · exact expected_tunnel s t' ht' hway
      · -- the tunnel is the one that the event was about
        obtain ⟨-, t', ht', heq, -⟩ := hfiled.announced hhead
        rw [Option.some.inj (ht.symm.trans ht')]
        exact heq ▸ hpeer
    · rename_i events hevents
      exact .of rfl (expected_client s) (expected_call s) (expected_tunnel s)
        (fun e he => expected_event s e (by rw [hevents]; exact List.mem_cons_of_mem _ he))
    · rename_i events hevents
      have hpop : Eases s { s with events } :=
        .of rfl (expected_client s) (expected_call s) (expected_tunnel s)
          (fun e he => expected_event s e (by rw [hevents]; exact List.mem_cons_of_mem _ he))
      exact hpop.trans (.pendingResolve _ _ _)
    · exact .refl s
  · exact .refl s

/-! ### Clients -/

theorem Eases.of_clients {s : AppState P} {clients : AList fun _ : P => ActiveClient}
    (h : ∀ p ∈ clients, p ∈ s.expected) (kernelSlots : List ℕ) (clearing : List ActiveClient) :
    Eases s { s with clients, kernelSlots, clearing } :=
  .of rfl h (expected_call s) (expected_tunnel s) (expected_event s)

theorem Eases.releaseClient (s : AppState P) (c : ActiveClient) : Eases s (s.releaseClient c) := by
  obtain ⟨kernelSlots, heq⟩ := releaseClient_eq s c
  rw [heq]
  exact (Eases.disconnect s c.tunnel).trans (.of_clients (expected_client _) kernelSlots _)

theorem Eases.removeClient (s : AppState P) (peer : P) : Eases s (s.removeClient peer) := by
  cases h : s.clients.lookup peer with
  | none =>
    rw [removeClient_of_none h]
    exact .refl s
  | some c =>
    have herase : Eases s { s with clients := s.clients.erase peer } :=
      .of_clients (fun p hp => expected_client s p (AList.mem_erase.mp hp).2) _ _
    rw [removeClient_of_lookup h]
    exact herase.trans (.releaseClient _ c)

theorem Eases.clearStep (s : AppState P) : Eases s s.clearStep := by
  unfold AppState.clearStep
  split
  · have hclearing := Eases.of_clients (expected_client s) s.kernelSlots
    exact (hclearing _).trans (.releaseClient _ _)
  · exact .refl s

theorem Eases.releaseKernelSlot (s : AppState P) (slot : ℕ) : Eases s (s.releaseKernelSlot slot) := by
  obtain ⟨kernelSlots, heq⟩ := releaseKernelSlot_eq s slot
  rw [heq]
  exact .of_clients (expected_client s) _ _

/-! ### Sessions -/

theorem Eases.setTask {s : AppState P} {i : ℕ} {t : Tunnel P} (ht : s.tunnels[i]? = some t)
    {pc : TaskPc} (h : pc.settingUp = true → t.peer ∈ s.expected) : Eases s (s.setTask i pc) := by
  refine .modifyTunnel s i fun t' ht' hway => ?_
  have hsame : t' = t := Option.some.inj (ht'.symm.trans ht)
  subst hsame
  simp only [Tunnel.onTheWay, Option.any_some, Bool.or_eq_true, decide_eq_true_eq] at hway
  rcases hway with hwaiting | hpc
  · exact expected_tunnel s t' (List.mem_of_getElem? ht) (by simp [Tunnel.onTheWay, hwaiting])
  · exact h hpc

/-- A session whose client is not installed yet, or that installs it, or that does not any more. -/
theorem sessionStep_spec {s : AppState P} {i : ℕ} {t : Tunnel P} (ht : s.tunnels[i]? = some t)
    {pc : TaskPc} (htask : t.task = some pc) (ok : Bool) :
    Eases s (s.sessionStep i t.peer ok pc).1 ∧
      ((s.sessionStep i t.peer ok pc).2.settingUp = true → pc.settingUp = true) := by
  have hpeer (hpc : pc.settingUp = true) : t.peer ∈ s.expected :=
    expected_tunnel s t (List.mem_of_getElem? ht) (by simp [Tunnel.onTheWay, htask, hpc])
  cases pc with
  | fetchDisplayName | startServer => exact ⟨.refl s, fun _ => rfl⟩
  | allocSlot =>
    simp only [sessionStep]
    split
    · exact ⟨.of_clients (expected_client s) _ _, fun _ => rfl⟩
    · exact ⟨.refl s, fun _ => rfl⟩
  | openTun slot | attachTun slot =>
    simp only [sessionStep]
    split
    · exact ⟨.refl s, fun _ => rfl⟩
    · exact ⟨.releaseKernelSlot s slot, fun _ => rfl⟩
  | natFailed => exact ⟨.disconnect s i, fun h => by cases h⟩
  | install kernelSlot =>
    refine ⟨.of_clients (fun p hp => ?_) _ _, fun h => by cases h⟩
    rcases (AList.mem_insert _).mp hp with rfl | hp
    · exact hpeer rfl
    · exact expected_client s p hp
  | parked =>
    refine ⟨.refl s, fun h => ?_⟩
    simp only [sessionStep] at h
    split at h <;> cases h
  | remove => exact ⟨.removeClient s t.peer, fun h => by cases h⟩
  | returned => exact ⟨.refl s, fun h => h⟩

theorem Eases.taskStep (s : AppState P) (i : ℕ) (ok : Bool) : Eases s (s.taskStep i ok) := by
  rcases taskStep_cases s i ok with ⟨-, heq⟩ | ⟨t, pc, ht, htask, heq⟩
  · rw [heq]
    exact .refl s
  · obtain ⟨heases, hpc⟩ := sessionStep_spec ht htask ok
    obtain ⟨t', ht', -, -, htask'⟩ := (sameProgress_sessionStep s i t.peer ok pc).tunnel ht
    rw [heq]
    refine heases.trans (.setTask ht' fun hsetting => ?_)
    refine expected_tunnel _ t' (List.mem_of_getElem? ht') ?_
    simp [Tunnel.onTheWay, htask', htask, hpc hsetting]

/-! ## Runs -/

/-- Whatever happens but a call that finds room. -/
theorem eases_step {s : AppState P} (hfiled : Filed s) {m : DaemonMove P}
    (hroom : ∀ n, m = .call n → ∀ c ∈ s.calls[n]?, c.pc = .capacity →
      s.maxClients ≤ s.clients.entries.length) : Eases s (s.step m) := by
  cases m with
  | invite peer =>
    refine .of_calls (sameSessions_step s rfl) fun c hc hadmitted => ?_
    rcases List.mem_append.mp hc with hc | hc
    · exact expected_call s c hc hadmitted
    · rw [List.mem_singleton.mp hc] at hadmitted
      cases hadmitted
  | call n => exact .callStep (hroom n rfl)
  | cancel n => exact .cancel s n
  | timeout n => exact .timeout s n
  | resolve peer d => exact .pendingResolve s peer d
  | acceptCall n ok => exact .acceptCall s n ok
  | tunnelConnected i upgrade => exact .tunnelConnected s i upgrade
  | tunnelGone i => exact .tunnelGone s i
  | watcherEnds i => exact .watcherEnds s i
  | handleEvent => exact .handleEvent hfiled
  | task i ok => exact .taskStep s i ok
  | removeClient peer => exact .removeClient s peer
  | clearAll => exact .of_clients (fun p hp => absurd hp (AList.notMem_empty p)) _ _
  | clearStep => exact .clearStep s
  | clearPending => exact .clearPending s
  | loopEnds | setLists _ _ =>
    exact .of rfl (expected_client s) (expected_call s) (expected_tunnel s) (expected_event s)

theorem expected_letThrough {s : AppState P} {n : ℕ} {c : Call P} (hn : s.calls[n]? = some c) :
    (s.setCall n .admission).expected ⊆ insert c.peer s.expected := by
  intro p hp
  rcases mem_expected.mp hp with hp | ⟨c', hc', hadmitted, rfl⟩ | ⟨t, ht, hway, rfl⟩ | ⟨e, he, hp⟩
  · exact Finset.mem_insert_of_mem (expected_client s p hp)
  · rcases mem_of_mem_modify hc' with hc' | ⟨c₀, hc₀, rfl⟩
    · exact Finset.mem_insert_of_mem (expected_call s c' hc' hadmitted)
    · rw [Option.some.inj (hc₀.symm.trans hn)]
      exact Finset.mem_insert_self _ _
  · exact Finset.mem_insert_of_mem (expected_tunnel s t ht hway)
  · exact Finset.mem_insert_of_mem (expected_event s e he p hp)

/-- What carries the bound from call to client. -/
structure Bounded (bound : ℕ) (s : AppState P) : Prop where
  filed : Filed s
  maxClients : s.maxClients = bound
  expected : s.expected.card ≤ bound

theorem Bounded.step {bound : ℕ} {s : AppState P} {m : DaemonMove P} (hroomy : Roomy s m)
    (h : Bounded bound s) : Bounded bound (s.step m) := by
  have hease (heases : Eases s (s.step m)) : Bounded bound (s.step m) :=
    ⟨h.filed.step m, heases.maxClients.trans h.maxClients,
      (Finset.card_le_card heases.expected).trans h.expected⟩
  by_cases hroom : ∃ n c, m = .call n ∧ s.calls[n]? = some c ∧ c.pc = .capacity ∧
      s.clients.entries.length < s.maxClients
  · obtain ⟨n, c, rfl, hn, hpc, hlt⟩ := hroom
    have hstep : s.step (.call n) = s.setCall n .admission := by
      show s.callStep n = _
      simp only [callStep, hn, hpc, if_neg (Nat.not_le.mpr hlt)]
    refine ⟨h.filed.step _, ?_, ?_⟩
    · rw [hstep]
      exact h.maxClients
    · have hcard := hroomy c hn hpc hlt
      rw [h.maxClients] at hcard
      rw [hstep]
      exact (Finset.card_le_card (expected_letThrough hn)).trans hcard
  · refine hease (eases_step h.filed fun n hm c hn hpc => ?_)
    by_contra hlt
    exact hroom ⟨n, c, hm, hn, hpc, Nat.not_le.mp hlt⟩

theorem Bounded.clients {bound : ℕ} {s : AppState P} (h : Bounded bound s) :
    s.clients.entries.length ≤ bound := by
  have hkeys : s.clients.keys.toFinset ⊆ s.expected := fun p hp =>
    expected_client s p (AList.mem_keys.mpr (List.mem_toFinset.mp hp))
  calc s.clients.entries.length = s.clients.keys.length := (List.length_map _).symm
    _ = s.clients.keys.toFinset.card := (List.toFinset_card_of_nodup (AList.keys_nodup _)).symm
    _ ≤ s.expected.card := Finset.card_le_card hkeys
    _ ≤ bound := h.expected

/-- As long as a call is let through only while everybody who is on the way leaves room for it, there
are never more clients than `max_clients`. -/
theorem capacity_respected (maxClients : ℕ) (kernelNat : Bool) (admission blacklist : List P)
    (ms : List (DaemonMove P)) (h : Along step Roomy (start maxClients kernelNat admission blacklist) ms) :
    ((start maxClients kernelNat admission blacklist).run ms).clients.entries.length ≤
      (start maxClients kernelNat admission blacklist).maxClients := by
  have hstart : Bounded (start maxClients kernelNat admission blacklist).maxClients
      (start maxClients kernelNat admission blacklist) :=
    ⟨filed_start .., rfl, by simp [AppState.expected, start]⟩
  exact (Along.invariant (fun s m => Bounded.step) hstart h).clients

/-- Two peers of the allow-list call at once. -/
def twoCallers : List (DaemonMove ℕ) :=
  [.invite 1, .invite 2, .call 0, .call 1, .call 0, .call 1, .call 0, .call 1,
    .acceptCall 0 true, .acceptCall 1 true, .tunnelConnected 0 true, .tunnelConnected 1 true,
    .handleEvent, .handleEvent, .task 0 true, .task 0 true, .task 0 true,
    .task 1 true, .task 1 true, .task 1 true]

theorem two_callers_fit :
    Along step Roomy (start 2 false [1, 2] []) twoCallers ∧
      ((start 2 false [1, 2] []).run twoCallers).clients.entries.length ≤ 2 :=
  have h : Along step Roomy (start 2 false [1, 2] []) twoCallers := by decide
  ⟨h, capacity_respected 2 false [1, 2] [] twoCallers h⟩

theorem two_callers_exceed : ¬ ∀ (maxClients : ℕ) (kernelNat : Bool) (admission blacklist : List ℕ)
    (ms : List (DaemonMove ℕ)),
    ((start maxClients kernelNat admission blacklist).run ms).clients.entries.length ≤
      (start maxClients kernelNat admission blacklist).maxClients := by
  intro h
  have hle := h 1 false [1, 2] [] twoCallers
  have hlength : ((start 1 false [1, 2] []).run twoCallers).clients.entries.length = 2 := by decide
  rw [hlength] at hle
  exact absurd hle (by decide)

end AppState

end BaleVpn.Daemon
