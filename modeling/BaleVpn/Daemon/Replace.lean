import BaleVpn.Daemon.Steps

/-!
# A peer's next session (`manager.rs`, `daemon.rs`)

The registry of the manager compares tunnels, the loop's `done` map and the clients compare peers. An
event of an old tunnel fires the sender that is there for the peer, and a task that ends removes the
client that is there for the peer, whoever's these are by then. A session is out of reach of the
tunnels before it when these are through by the time it is announced to the loop.
-/

namespace BaleVpn.Daemon

open Lib

variable {P : Type}

def SessionEvent.isFailed : SessionEvent P → Bool
  | .failed _ => true
  | _ => false

/-- The tunnel that a move is made for. -/
def DaemonMove.origin (s : AppState P) : DaemonMove P → Option ℕ
  | .tunnelConnected i _ | .tunnelGone i | .watcherEnds i | .task i _ => some i
  | .handleEvent => s.events.head?.map Prod.snd
  | _ => none

namespace AppState

/-- Tunnel `k` keeps its client, its task goes on, and it is not disconnected. -/
structure Spared [DecidableEq P] (s s' : AppState P) (k : ℕ) (t : Tunnel P) : Prop where
  client : ∀ c, s.clients.lookup t.peer = some c → c.tunnel = k → s'.clients.lookup t.peer = some c
  tunnel : ∃ t', s'.tunnels[k]? = some t' ∧ t'.task = t.task ∧ (t.down = false → t'.down = false)
  done : s.done t.peer = some k → s'.done t.peer = some k

/-- What is done for a tunnel spares the later ones of the same peer. -/
def Harmless [DecidableEq P] (s : AppState P) (m : DaemonMove P) : Prop :=
  ∀ i k old new, m.origin s = some i → i < k → s.tunnels[i]? = some old → s.tunnels[k]? = some new →
    old.peer = new.peer → Spared s (s.step m) k new

/-- The watcher is over, the loop has had its events, and its task has returned if it had one. -/
def Through (s : AppState P) (i : ℕ) (t : Tunnel P) : Prop :=
  t.watcher.isOver = true ∧ t.task ∈ [none, some .returned] ∧
    ∀ e ∈ s.events, e.2 = i → e.1.isFailed = true

instance (s : AppState P) (i : ℕ) (t : Tunnel P) : Decidable (Through s i t) :=
  inferInstanceAs (Decidable (_ ∧ _ ∧ _))

/-- A tunnel is announced to the loop when the ones before it are through. -/
def Orderly (s : AppState P) : DaemonMove P → Prop
  | .handleEvent => s.loopRunning = true →
    match s.events with
    | (.connected peer j, _) :: _ => ∀ i < j, ∀ t ∈ s.tunnels[i]?, t.peer = peer → Through s i t
    | _ => True
  | _ => True

instance [DecidableEq P] (s : AppState P) : (m : DaemonMove P) → Decidable (Orderly s m)
  | .handleEvent =>
    match h : s.events with
    | (.connected peer j, _) :: _ => decidable_of_iff (s.loopRunning = true →
        ∀ i < j, ∀ t ∈ s.tunnels[i]?, t.peer = peer → Through s i t) (by simp only [Orderly, h])
    | [] | (.disconnected _, _) :: _ | (.failed _, _) :: _ => isTrue (by simp [Orderly, h])
  | .invite _ | .call _ | .cancel _ | .timeout _ | .resolve .. | .acceptCall .. | .tunnelConnected ..
  | .tunnelGone _ | .watcherEnds _ | .loopEnds | .task .. | .removeClient _
  | .clearAll | .clearStep | .clearPending | .setLists .. => isTrue trivial

/-! ## What becomes of a tunnel -/

/-- A watcher that is over stays so, and a task gets on or is spawned. -/
structure Follows (s : AppState P) (m : DaemonMove P) (k : ℕ) (t t' : Tunnel P) : Prop where
  peer : t'.peer = t.peer
  watcher : t.watcher.isOver = true → t'.watcher = t.watcher
  task : t'.task = t.task ∨
    (∃ pc pc', t.task = some pc ∧ t'.task = some pc' ∧ (pc = .returned → pc' = .returned)) ∨
    m = .handleEvent ∧ s.loopRunning = true ∧ ∃ peer j events, s.events = (.connected peer k, j) :: events

theorem SameProgress.follows {s s₁ s' : AppState P} {m : DaemonMove P} {k : ℕ} {t t₁ : Tunnel P}
    (hsame : SameProgress s₁ s') (ht₁ : s₁.tunnels[k]? = some t₁) (h : Follows s m k t t₁) :
    ∃ t', s'.tunnels[k]? = some t' ∧ Follows s m k t t' := by
  obtain ⟨t', ht', hpeer, hwatcher, htask⟩ := hsame.tunnel ht₁
  exact ⟨t', ht', hpeer.trans h.peer, fun hover => hwatcher.trans (h.watcher hover), htask ▸ h.task⟩

theorem Progress.follows {s s' : AppState P} {m : DaemonMove P} (h : Progress s m s') {k : ℕ}
    {t : Tunnel P} (ht : s.tunnels[k]? = some t) :
    ∃ t', s'.tunnels[k]? = some t' ∧ Follows s m k t t' := by
  have hrefl : Follows s m k t t := ⟨rfl, fun _ => rfl, .inl rfl⟩
  cases h with
  | same h => exact h.follows ht hrefl
  | accept peer h =>
    have hlt : k < s.tunnels.length := (List.getElem?_eq_some_iff.mp ht).choose
    exact h.follows (by rw [List.getElem?_append_left hlt, ht]) hrefl
  | leave i watcher hopen _ h =>
    refine h.follows (getElem?_modify_of_eq_some ht i _) ?_
    by_cases hik : i = k
    · subst hik
      rw [if_pos rfl]
      exact ⟨rfl, fun hover => by simp [hopen t ht] at hover, .inl rfl⟩
    · rwa [if_neg hik]
  | emit i t₀ event watcher ht₀ hopen _ _ _ h =>
    refine h.follows (getElem?_modify_of_eq_some ht i _) ?_
    by_cases hik : i = k
    · subst hik
      rw [if_pos rfl, Option.some.inj (ht.symm.trans ht₀)]
      exact ⟨rfl, fun hover => by simp [hopen] at hover, .inl rfl⟩
    · rwa [if_neg hik]
  | pop e events _ _ h => exact h.follows ht hrefl
  | spawn peer i j events hm hloop hevents h =>
    refine h.follows (getElem?_modify_of_eq_some ht i _) ?_
    by_cases hik : i = k
    · subst hik
      rw [if_pos rfl]
      exact ⟨rfl, fun _ => rfl, .inr (.inr ⟨hm, hloop, peer, j, events, hevents⟩)⟩
    · rwa [if_neg hik]
  | task i t₀ pc pc' ht₀ htask hreturned h =>
    refine h.follows (getElem?_modify_of_eq_some ht i _) ?_
    by_cases hik : i = k
    · subst hik
      rw [if_pos rfl, Option.some.inj (ht.symm.trans ht₀)]
      exact ⟨rfl, fun _ => rfl, .inr (.inl ⟨pc, pc', htask, rfl, hreturned⟩)⟩
    · rwa [if_neg hik]

theorem Progress.new_task {s s' : AppState P} {m : DaemonMove P} (h : Progress s m s') {k : ℕ}
    {t' : Tunnel P} (ht' : s'.tunnels[k]? = some t') (hnew : s.tunnels[k]? = none) : t'.task = none := by
  have hlength {s₁ : AppState P} (hsame : SameProgress s₁ s')
      (hlen : s₁.tunnels.length = s.tunnels.length) : t'.task = none := by
    obtain ⟨t, ht, -⟩ := hsame.symm.tunnel ht'
    rw [List.getElem?_eq_none_iff] at hnew
    have hlt := (List.getElem?_eq_some_iff.mp ht).choose
    omega
  cases h with
  | same h => exact hlength h rfl
  | accept peer h =>
    obtain ⟨t, ht, -, -, htask⟩ := h.symm.tunnel ht'
    rw [List.getElem?_append_right (List.getElem?_eq_none_iff.mp hnew)] at ht
    rw [← htask, List.mem_singleton.mp (List.mem_of_getElem? ht)]
  | leave _ _ _ _ h => exact hlength h (List.length_modify ..)
  | emit _ _ _ _ _ _ _ _ _ h => exact hlength h (List.length_modify ..)
  | pop _ _ _ _ h => exact hlength h rfl
  | spawn _ _ _ _ _ _ _ h => exact hlength h (List.length_modify ..)
  | task _ _ _ _ _ _ _ h => exact hlength h (List.length_modify ..)

theorem Progress.event {s s' : AppState P} {m : DaemonMove P} (h : Progress s m s')
    {e : SessionEvent P × ℕ} (he : e ∈ s'.events) :
    e ∈ s.events ∨ ∃ t, s.tunnels[e.2]? = some t ∧ t.watcher.isOver = false := by
  cases h with
  | same h => exact .inl (h.events ▸ he)
  | accept _ h => exact .inl (h.events ▸ he)
  | leave _ _ _ _ h => exact .inl (h.events ▸ he)
  | emit i t event watcher ht hopen _ _ _ h =>
    rw [h.events] at he
    rcases List.mem_append.mp he with he | he
    · exact .inl he
    · rw [List.mem_singleton.mp he]
      exact .inr ⟨t, ht, hopen⟩
  | pop e' events hevents _ h =>
    rw [h.events] at he
    exact .inl (by rw [hevents]; exact List.mem_cons_of_mem _ he)
  | spawn _ _ _ events _ _ hevents h =>
    rw [h.events] at he
    exact .inl (by rw [hevents]; exact List.mem_cons_of_mem _ he)
  | task _ _ _ _ _ _ _ h => exact .inl (h.events ▸ he)

theorem Through.progress {s s' : AppState P} {m : DaemonMove P} (hfiled : Filed s)
    (h : Progress s m s') {i : ℕ} {t t' : Tunnel P} (ht : s.tunnels[i]? = some t)
    (hthrough : Through s i t) (hfollows : Follows s m i t t') : Through s' i t' := by
  obtain ⟨hover, htask, hevents⟩ := hthrough
  refine ⟨by rw [hfollows.watcher hover, hover], ?_, fun e he hei => ?_⟩
  · rcases hfollows.task with heq | ⟨pc, pc', hpc, hpc', hreturned⟩ | ⟨-, -, peer, j, events, hhead⟩
    · rwa [heq]
    · simp only [hpc, List.mem_cons, reduceCtorEq, Option.some.injEq, false_or, List.not_mem_nil,
        or_false] at htask
      rw [hpc', hreturned htask]
      simp
    · -- its own announcement is not in the queue any more
      have hmem : (SessionEvent.connected peer i, j) ∈ s.events := by simp [hhead]
      cases hevents _ hmem (hfiled.announced hmem).1
  · rcases h.event he with he | ⟨t₀, ht₀, hopen⟩
    · exact hevents e he hei
    · rw [hei] at ht₀
      rw [Option.some.inj (ht₀.symm.trans ht), hover] at hopen
      cases hopen

/-! ## The two maps -/

/-- Neither the loop's senders nor the clients differ. -/
def SameMaps (s s' : AppState P) : Prop := s'.done = s.done ∧ s'.clients = s.clients

theorem SameSessions.sameMaps {s s' : AppState P} (h : SameSessions s s') : SameMaps s s' := by
  obtain ⟨_, _, _, _, rfl⟩ := h
  exact ⟨rfl, rfl⟩

theorem sameMaps_releaseClient (s : AppState P) (c : ActiveClient) : SameMaps s (s.releaseClient c) := by
  obtain ⟨_, heq⟩ := releaseClient_eq s c
  rw [heq]
  exact ⟨rfl, rfl⟩

theorem sameMaps_releaseKernelSlot (s : AppState P) (slot : ℕ) :
    SameMaps s (s.releaseKernelSlot slot) := by
  obtain ⟨_, heq⟩ := releaseKernelSlot_eq s slot
  rw [heq]
  exact ⟨rfl, rfl⟩

theorem sameMaps_clearStep (s : AppState P) : SameMaps s s.clearStep := by
  unfold clearStep
  split
  · exact sameMaps_releaseClient _ _
  · exact ⟨rfl, rfl⟩

theorem sameMaps_tunnelConnected (s : AppState P) (i : ℕ) (upgrade : Bool) :
    SameMaps s (s.tunnelConnected i upgrade) := by
  rcases tunnelConnected_cases s i upgrade with heq | ⟨t, -, -, heq | heq⟩ <;> rw [heq] <;>
    exact ⟨rfl, rfl⟩

variable [DecidableEq P]

theorem sameMaps_tunnelGone (s : AppState P) (i : ℕ) : SameMaps s (s.tunnelGone i) := by
  rcases tunnelGone_cases s i with heq | ⟨t, event, emitted, sessions, -, -, heq⟩ <;> rw [heq] <;>
    exact ⟨rfl, rfl⟩

theorem sameMaps_acceptCall (s : AppState P) (n : ℕ) (ok : Bool) : SameMaps s (s.acceptCall n ok) := by
  rcases acceptCall_cases s n ok with heq | ⟨c, -, -, heq | ⟨sessions, old, heq⟩⟩
  · rw [heq]
    exact ⟨rfl, rfl⟩
  · rw [heq]
    exact ⟨rfl, rfl⟩
  · rw [heq]
    cases old with
    | none => exact ⟨rfl, rfl⟩
    | some _ => exact ⟨rfl, rfl⟩

theorem removeClient_maps (s : AppState P) (peer : P) : (s.removeClient peer).done = s.done ∧
    ∀ p c, (s.removeClient peer).clients.lookup p = some c → s.clients.lookup p = some c := by
  cases h : s.clients.lookup peer with
  | none =>
    rw [removeClient_of_none h]
    exact ⟨rfl, fun _ _ h => h⟩
  | some c₀ =>
    obtain ⟨hdone, hclients⟩ := sameMaps_releaseClient { s with clients := s.clients.erase peer } c₀
    rw [removeClient_of_lookup h]
    refine ⟨hdone, fun p c hp => ?_⟩
    rw [hclients] at hp
    by_cases hpeer : p = peer
    · rw [hpeer, AList.lookup_erase] at hp
      cases hp
    · rwa [AList.lookup_erase_ne hpeer] at hp

theorem sessionStep_maps (s : AppState P) (i : ℕ) (peer : P) (ok : Bool) (pc : TaskPc) :
    (s.sessionStep i peer ok pc).1.done = s.done ∧
      ∀ p c, (s.sessionStep i peer ok pc).1.clients.lookup p = some c →
        s.clients.lookup p = some c ∨ p = peer ∧ c.tunnel = i := by
  have hsame {s' : AppState P} (h : SameMaps s s') : s'.done = s.done ∧
      ∀ p c, s'.clients.lookup p = some c → s.clients.lookup p = some c ∨ p = peer ∧ c.tunnel = i :=
    ⟨h.1, fun p c hp => .inl (h.2 ▸ hp)⟩
  cases pc with
  | fetchDisplayName | startServer | parked | returned | natFailed => exact hsame ⟨rfl, rfl⟩
  | allocSlot =>
    simp only [sessionStep]
    split
    · exact hsame ⟨rfl, rfl⟩
    · exact hsame ⟨rfl, rfl⟩
  | openTun slot | attachTun slot =>
    simp only [sessionStep]
    split
    · exact hsame ⟨rfl, rfl⟩
    · exact hsame (sameMaps_releaseKernelSlot s slot)
  | install kernelSlot =>
    refine ⟨rfl, fun p c hp => ?_⟩
    by_cases hpeer : p = peer
    · subst hpeer
      simp only [sessionStep, AList.lookup_insert, Option.some.injEq] at hp
      exact .inr ⟨rfl, by rw [← hp]⟩
    · simp only [sessionStep, AList.lookup_insert_ne hpeer] at hp
      exact .inl hp
  | remove =>
    obtain ⟨hdone, hclients⟩ := removeClient_maps s peer
    exact ⟨hdone, fun p c hp => .inl (hclients p c hp)⟩

/-- Where senders and clients come from. -/
structure MapsFrom (s s' : AppState P) : Prop where
  done : ∀ p k, s'.done p = some k → s.done p = some k ∨
    ∃ t, s'.tunnels[k]? = some t ∧ t.peer = p ∧ t.task ≠ none
  client : ∀ p c, s'.clients.lookup p = some c → s.clients.lookup p = some c ∨
    ∃ t, s.tunnels[c.tunnel]? = some t ∧ t.peer = p ∧ t.task ≠ none

theorem SameMaps.mapsFrom {s s' : AppState P} (h : SameMaps s s') : MapsFrom s s' :=
  ⟨fun _ _ hk => .inl (h.1 ▸ hk), fun _ _ hc => .inl (h.2 ▸ hc)⟩

theorem mapsFrom_handleEvent {s : AppState P} (hfiled : Filed s) : MapsFrom s s.handleEvent := by
  unfold handleEvent
  split
  · split
    · rename_i peer i j events hevents
      refine ⟨fun p k hk => ?_, fun p c hc => .inl hc⟩
      by_cases hp : p = peer
      · subst hp
        have hk : Function.update s.done p (some i) p = some k := hk
        rw [Function.update_self, Option.some.injEq] at hk
        subst hk
        have hhead : (SessionEvent.connected p i, j) ∈ s.events := by simp [hevents]
        obtain ⟨-, t, ht, hpeer, -⟩ := hfiled.announced hhead
        refine .inr ⟨_, getElem?_modify_of_eq_some ht i _, ?_⟩
        rw [if_pos rfl]
        exact ⟨hpeer, by simp⟩
      · have hk : Function.update s.done peer (some i) p = some k := hk
        rw [Function.update_of_ne hp] at hk
        exact .inl hk
    · rename_i peer j events hevents
      refine ⟨fun p k hk => ?_, fun p c hc => .inl hc⟩
      by_cases hp : p = peer
      · subst hp
        simp at hk
      · simp only [Function.update_of_ne hp] at hk
        exact .inl hk
    · rename_i peer _ events _
      obtain ⟨hdone, hclients⟩ :=
        (sameSessions_pendingResolve { s with events } peer .silentlyIgnore).sameMaps
      refine ⟨fun p k hk => .inl ?_, fun p c hc => .inl ?_⟩
      · rwa [hdone] at hk
      · rwa [hclients] at hc
    · exact SameMaps.mapsFrom ⟨rfl, rfl⟩
  · exact SameMaps.mapsFrom ⟨rfl, rfl⟩

theorem mapsFrom_taskStep (s : AppState P) (i : ℕ) (ok : Bool) : MapsFrom s (s.taskStep i ok) := by
  rcases taskStep_cases s i ok with ⟨-, heq⟩ | ⟨t, pc, ht, htask, heq⟩
  · rw [heq]
    exact SameMaps.mapsFrom ⟨rfl, rfl⟩
  · obtain ⟨hdone, hclients⟩ := sessionStep_maps s i t.peer ok pc
    rw [heq]
    refine ⟨fun p k hk => .inl (hdone ▸ hk), fun p c hc => ?_⟩
    rcases hclients p c hc with hc | ⟨rfl, rfl⟩
    · exact .inl hc
    · exact .inr ⟨t, ht, rfl, by rw [htask]; simp⟩

theorem mapsFrom_step {s : AppState P} (hfiled : Filed s) (m : DaemonMove P) :
    MapsFrom s (s.step m) := by
  cases m with
  | invite _ | call _ | cancel _ | timeout _ | resolve _ _ | clearPending | setLists _ _ =>
    exact (sameSessions_step s rfl).sameMaps.mapsFrom
  | acceptCall n ok => exact (sameMaps_acceptCall s n ok).mapsFrom
  | tunnelConnected i upgrade => exact (sameMaps_tunnelConnected s i upgrade).mapsFrom
  | tunnelGone i => exact (sameMaps_tunnelGone s i).mapsFrom
  | watcherEnds i => exact SameMaps.mapsFrom ⟨rfl, rfl⟩
  | handleEvent => exact mapsFrom_handleEvent hfiled
  | loopEnds => exact ⟨fun p k hk => by simp [step] at hk, fun p c hc => .inl hc⟩
  | task i ok => exact mapsFrom_taskStep s i ok
  | removeClient peer =>
    obtain ⟨hdone, hclients⟩ := removeClient_maps s peer
    exact ⟨fun p k hk => .inl (hdone ▸ hk), fun p c hc => .inl (hclients p c hc)⟩
  | clearAll =>
    refine ⟨fun p k hk => .inl hk, fun p c hc => ?_⟩
    simp [step] at hc
  | clearStep => exact (sameMaps_clearStep s).mapsFrom

/-! ## Sessions in order -/

/-- Once a tunnel has its task the ones before it are through, and only tunnels with a task have a
sender or a client. -/
structure Tidy (s : AppState P) : Prop where
  filed : Filed s
  through : ∀ i k old new, i < k → s.tunnels[i]? = some old → s.tunnels[k]? = some new →
    old.peer = new.peer → new.task ≠ none → Through s i old
  done : ∀ p k, s.done p = some k → ∃ t, s.tunnels[k]? = some t ∧ t.peer = p ∧ t.task ≠ none
  client : ∀ p c, s.clients.lookup p = some c →
    ∃ t, s.tunnels[c.tunnel]? = some t ∧ t.peer = p ∧ t.task ≠ none

theorem tidy_start (maxClients : ℕ) (kernelNat : Bool) (admission blacklist : List P) :
    Tidy (start maxClients kernelNat admission blacklist) where
  filed := filed_start ..
  through i k old new _ hi := by cases hi
  done p k h := by cases h
  client p c h := by cases h

omit [DecidableEq P] in
theorem Follows.task_ne_none {s : AppState P} {m : DaemonMove P} {k : ℕ} {t t' : Tunnel P}
    (h : Follows s m k t t') (hfiled : Filed s) (ht : s.tunnels[k]? = some t) (htask : t.task ≠ none) :
    t'.task ≠ none := by
  rcases h.task with heq | ⟨pc, pc', -, hpc', -⟩ | ⟨-, -, peer, j, events, hevents⟩
  · rwa [heq]
  · rw [hpc']
    simp
  · have hhead : (SessionEvent.connected peer k, j) ∈ s.events := by simp [hevents]
    obtain ⟨-, t₀, ht₀, -, hnone⟩ := hfiled.announced hhead
    rw [Option.some.inj (ht.symm.trans ht₀)] at htask
    exact absurd hnone htask

/-- A tunnel with a task has tunnels before it that are through, and if it got the task just now. -/
theorem Tidy.through_step {s : AppState P} {m : DaemonMove P} (horderly : Orderly s m) (h : Tidy s)
    {i k : ℕ} {old' new' : Tunnel P} (hik : i < k) (hold' : (s.step m).tunnels[i]? = some old')
    (hnew' : (s.step m).tunnels[k]? = some new') (hpeer : old'.peer = new'.peer)
    (htask : new'.task ≠ none) : Through (s.step m) i old' := by
  have hprogress := progress_step s m
  cases hnew : s.tunnels[k]? with
  | none => exact absurd (hprogress.new_task hnew' hnew) htask
  | some new =>
    obtain ⟨hk, -⟩ := List.getElem?_eq_some_iff.mp hnew
    have hold : s.tunnels[i]? = some s.tunnels[i] := List.getElem?_eq_getElem (by omega)
    obtain ⟨t, ht, hfollows⟩ := hprogress.follows hold
    obtain ⟨t', ht', hfollows'⟩ := hprogress.follows hnew
    obtain rfl : t = old' := Option.some.inj (ht.symm.trans hold')
    obtain rfl : t' = new' := Option.some.inj (ht'.symm.trans hnew')
    rw [hfollows.peer, hfollows'.peer] at hpeer
    refine Through.progress h.filed hprogress hold ?_ hfollows
    rcases hfollows'.task with heq | ⟨pc, pc', hpc, -, -⟩ | ⟨rfl, hloop, peer, j, events, hevents⟩
    · exact h.through i k _ _ hik hold hnew hpeer (heq ▸ htask)
    · exact h.through i k _ _ hik hold hnew hpeer (by rw [hpc]; simp)
    · have hhead : (SessionEvent.connected peer k, j) ∈ s.events := by simp [hevents]
      obtain ⟨-, t₀, ht₀, hpeer₀, -⟩ := h.filed.announced hhead
      rw [Option.some.inj (hnew.symm.trans ht₀), hpeer₀] at hpeer
      have hall := horderly hloop
      rw [hevents] at hall
      exact hall i hik _ hold hpeer

theorem Tidy.step {s : AppState P} {m : DaemonMove P} (horderly : Orderly s m) (h : Tidy s) :
    Tidy (s.step m) := by
  have hmaps := mapsFrom_step h.filed m
  -- a tunnel with a task still has it after the step
  have hkeep {k : ℕ} {p : P} (hk : ∃ t, s.tunnels[k]? = some t ∧ t.peer = p ∧ t.task ≠ none) :
      ∃ t, (s.step m).tunnels[k]? = some t ∧ t.peer = p ∧ t.task ≠ none := by
    obtain ⟨t, ht, hpeer, htask⟩ := hk
    obtain ⟨t', ht', hfollows⟩ := (progress_step s m).follows ht
    exact ⟨t', ht', hfollows.peer.trans hpeer, hfollows.task_ne_none h.filed ht htask⟩
  refine ⟨h.filed.step m, fun i k _ _ => h.through_step horderly, fun p k hk => ?_, fun p c hc => ?_⟩
  · rcases hmaps.done p k hk with hk | hk
    · exact hkeep (h.done p k hk)
    · exact hk
  · rcases hmaps.client p c hc with hc | hc
    · exact hkeep (h.client p c hc)
    · exact hkeep hc

/-! ## What is done for an old tunnel -/

theorem Spared.of_same {s s' : AppState P} {k : ℕ} {t : Tunnel P} (ht : s.tunnels[k]? = some t)
    (hmaps : SameMaps s s') (htunnel : s'.tunnels[k]? = s.tunnels[k]?) : Spared s s' k t where
  client c hc _ := by rw [hmaps.2, hc]
  tunnel := ⟨t, by rw [htunnel, ht], rfl, id⟩
  done hk := by rw [hmaps.1, hk]

theorem Spared.of_idle {s s' : AppState P} (h : Tidy s) {k : ℕ} {t : Tunnel P}
    (ht : s.tunnels[k]? = some t) (hidle : t.task = none)
    (htunnel : ∃ t', s'.tunnels[k]? = some t' ∧ t'.task = t.task ∧ (t.down = false → t'.down = false)) :
    Spared s s' k t where
  client c hc hck := by
    obtain ⟨t', ht', -, htask⟩ := h.client _ c hc
    rw [hck, ht, Option.some.injEq] at ht'
    exact absurd (ht' ▸ hidle) htask
  tunnel := htunnel
  done hk := by
    obtain ⟨t', ht', -, htask⟩ := h.done _ k hk
    rw [ht, Option.some.injEq] at ht'
    exact absurd (ht' ▸ hidle) htask

theorem spared_tunnelConnected {s : AppState P} {i k : ℕ} (hik : i ≠ k) {t : Tunnel P}
    (ht : s.tunnels[k]? = some t) (upgrade : Bool) : Spared s (s.tunnelConnected i upgrade) k t := by
  refine .of_same ht (sameMaps_tunnelConnected s i upgrade) ?_
  rcases tunnelConnected_cases s i upgrade with heq | ⟨_, -, -, heq | heq⟩ <;> rw [heq]
  · exact List.getElem?_modify_ne _ _ hik
  · exact List.getElem?_modify_ne _ _ hik

theorem spared_tunnelGone {s : AppState P} {i k : ℕ} (hik : i ≠ k) {t : Tunnel P}
    (ht : s.tunnels[k]? = some t) : Spared s (s.tunnelGone i) k t := by
  refine .of_same ht (sameMaps_tunnelGone s i) ?_
  rcases tunnelGone_cases s i with heq | ⟨_, event, emitted, sessions, -, -, heq⟩ <;> rw [heq]
  exact List.getElem?_modify_ne _ _ hik

theorem spared_watcherEnds {s : AppState P} {i k : ℕ} (hik : i ≠ k) {t : Tunnel P}
    (ht : s.tunnels[k]? = some t) : Spared s (s.watcherEnds i) k t :=
  .of_same ht ⟨rfl, rfl⟩ (List.getElem?_modify_ne _ _ hik)

/-- An event of a tunnel that is through, or one that finds the later tunnel without a task. -/
theorem spared_handleEvent {s : AppState P} (h : Tidy s) {i k : ℕ} (hik : i ≠ k)
    {e : SessionEvent P × ℕ} {events : List (SessionEvent P × ℕ)} (hevents : s.events = e :: events)
    (hei : e.2 = i) {t : Tunnel P} (ht : s.tunnels[k]? = some t)
    (hclear : t.task ≠ none → e.1.isFailed = true) : Spared s s.handleEvent k t := by
  have hsame : ∃ t', s.tunnels[k]? = some t' ∧ t'.task = t.task ∧ (t.down = false → t'.down = false) :=
    ⟨t, ht, rfl, id⟩
  have hidle (hnot : e.1.isFailed = false) : t.task = none := by
    by_contra htask
    rw [hclear htask] at hnot
    cases hnot
  obtain ⟨event, j⟩ := e
  cases hloop : s.loopRunning with
  | false =>
    have heq : s.handleEvent = s := by simp [handleEvent, hloop]
    rw [heq]
    exact .of_same ht ⟨rfl, rfl⟩ rfl
  | true =>
    cases event with
    | connected peer i' =>
      have hhead : (SessionEvent.connected peer i', j) ∈ s.events := by simp [hevents]
      have hii : j = i' := (h.filed.announced hhead).1
      have hne : i' ≠ k := by
        rw [← hii]
        exact fun hjk => hik (hei.symm.trans hjk)
      refine .of_idle h ht (hidle rfl) ⟨t, ?_, rfl, id⟩
      simp only [handleEvent, hloop, hevents, if_true]
      exact (List.getElem?_modify_ne _ _ hne).trans ht
    | disconnected peer =>
      refine .of_idle h ht (hidle rfl) ?_
      simpa only [handleEvent, hloop, hevents, if_true] using hsame
    | failed peer =>
      obtain ⟨_, _, _, _, heq⟩ :=
        sameSessions_pendingResolve { s with events } peer .silentlyIgnore
      have hstep : s.handleEvent = { s with events }.pendingResolve peer .silentlyIgnore := by
        simp only [handleEvent, hloop, hevents, if_true]
      rw [hstep, heq]
      exact .of_same ht ⟨rfl, rfl⟩ rfl

theorem sessionStep_tunnel {s : AppState P} {i k : ℕ} (hik : i ≠ k) {peer : P}
    (hclient : ∀ c, s.clients.lookup peer = some c → c.tunnel ≠ k) (ok : Bool) (pc : TaskPc) :
    (s.sessionStep i peer ok pc).1.tunnels[k]? = s.tunnels[k]? := by
  have hrelease (slot : ℕ) : (s.releaseKernelSlot slot).tunnels[k]? = s.tunnels[k]? := by
    obtain ⟨_, heq⟩ := releaseKernelSlot_eq s slot
    rw [heq]
  cases pc with
  | fetchDisplayName | startServer | parked | returned | install _ => rfl
  | allocSlot =>
    simp only [sessionStep]
    split <;> rfl
  | openTun slot | attachTun slot =>
    simp only [sessionStep]
    split
    · rfl
    · exact hrelease slot
  | natFailed => exact List.getElem?_modify_ne _ _ hik
  | remove =>
    simp only [sessionStep]
    cases hlookup : s.clients.lookup peer with
    | none => rw [removeClient_of_none hlookup]
    | some c =>
      obtain ⟨_, heq⟩ := releaseClient_eq { s with clients := s.clients.erase peer } c
      rw [removeClient_of_lookup hlookup, heq]
      exact List.getElem?_modify_ne _ _ (hclient c hlookup)

theorem spared_taskStep {s : AppState P} (h : Tidy s) {i k : ℕ} (hik : i ≠ k) {old new : Tunnel P}
    (hold : s.tunnels[i]? = some old) (hnew : s.tunnels[k]? = some new)
    (hclear : new.task ≠ none → old.task ∈ [none, some .returned]) (ok : Bool) :
    Spared s (s.taskStep i ok) k new := by
  rcases taskStep_cases s i ok with ⟨-, heq⟩ | ⟨t, pc, ht, htask, heq⟩
  · rw [heq]
    exact .of_same hnew ⟨rfl, rfl⟩ rfl
  obtain rfl : t = old := Option.some.inj (ht.symm.trans hold)
  rw [heq]
  by_cases hidle : new.task = none
  · have hclient (c : ActiveClient) (hc : s.clients.lookup t.peer = some c) : c.tunnel ≠ k := by
      rintro rfl
      obtain ⟨t', ht', -, htask'⟩ := h.client _ c hc
      rw [hnew, Option.some.injEq] at ht'
      exact htask' (ht' ▸ hidle)
    refine .of_idle h hnew hidle ⟨new, ?_, rfl, id⟩
    calc _ = (s.sessionStep i t.peer ok pc).1.tunnels[k]? := List.getElem?_modify_ne _ _ hik
      _ = s.tunnels[k]? := sessionStep_tunnel hik hclient ok pc
      _ = some new := hnew
  · have hreturned : pc = .returned := by simpa [htask] using hclear hidle
    subst hreturned
    exact .of_same hnew ⟨rfl, rfl⟩ (List.getElem?_modify_ne _ _ hik)

theorem Tidy.harmless {s : AppState P} (h : Tidy s) (m : DaemonMove P) : Harmless s m := by
  intro i k old new horigin hik hold hnew hpeer
  have hne : i ≠ k := Nat.ne_of_lt hik
  have hthrough := h.through i k old new hik hold hnew hpeer
  cases m with
  | tunnelConnected j upgrade =>
    obtain rfl : j = i := Option.some.inj horigin
    exact spared_tunnelConnected hne hnew upgrade
  | tunnelGone j =>
    obtain rfl : j = i := Option.some.inj horigin
    exact spared_tunnelGone hne hnew
  | watcherEnds j =>
    obtain rfl : j = i := Option.some.inj horigin
    exact spared_watcherEnds hne hnew
  | task j ok =>
    obtain rfl : j = i := Option.some.inj horigin
    exact spared_taskStep h hne hold hnew (fun htask => (hthrough htask).2.1) ok
  | handleEvent =>
    obtain ⟨e, hhead, hei⟩ := Option.map_eq_some_iff.mp horigin
    obtain ⟨events, hevents⟩ := List.head?_eq_some_iff.mp hhead
    refine spared_handleEvent h hne hevents hei hnew fun htask => ?_
    exact (hthrough htask).2.2 e (by simp [hevents]) hei
  | invite _ | call _ | cancel _ | timeout _ | resolve _ _ | acceptCall _ _ | loopEnds | removeClient _
  | clearAll | clearStep | clearPending | setLists _ _ => cases horigin

/-- As long as a session is announced to the loop only after the peer's earlier tunnels are through,
nothing that is done for an earlier tunnel takes away the client of a later one, ends its task or
disconnects it. -/
theorem successor_unharmed (maxClients : ℕ) (kernelNat : Bool) (admission blacklist : List P)
    (ms : List (DaemonMove P))
    (h : Along step Orderly (start maxClients kernelNat admission blacklist) ms) :
    Along step Harmless (start maxClients kernelNat admission blacklist) ms :=
  Along.imp (fun _ m horderly htidy => ⟨htidy.step horderly, htidy.harmless m⟩) (tidy_start ..) h

/-- A peer's session ends, and the peer calls again. -/
def inTurn : List (DaemonMove ℕ) :=
  [.invite 1, .call 0, .call 0, .call 0, .acceptCall 0 true, .tunnelConnected 0 true, .handleEvent,
    .task 0 true, .task 0 true, .task 0 true, .tunnelGone 0, .handleEvent, .task 0 true, .task 0 true,
    .invite 1, .call 1, .call 1, .call 1, .acceptCall 1 true, .tunnelConnected 1 true, .handleEvent,
    .task 1 true, .task 1 true, .task 1 true]

theorem successor_in_turn : Along step Orderly (start 5 false [1] []) inTurn ∧
    Along step Harmless (start 5 false [1] []) inTurn :=
  have h : Along step Orderly (start 5 false [1] []) inTurn := by decide
  ⟨h, successor_unharmed 5 false [1] [] inTurn h⟩

/-- A peer calls again while its session is up, and is installed. -/
def overtaking : List (DaemonMove ℕ) :=
  [.invite 1, .call 0, .call 0, .call 0, .acceptCall 0 true, .tunnelConnected 0 true, .handleEvent,
    .task 0 true, .task 0 true, .task 0 true,
    .invite 1, .call 1, .call 1, .call 1, .acceptCall 1 true, .tunnelConnected 1 true, .handleEvent,
    .task 1 true, .task 1 true, .task 1 true, .task 0 true]

/-- The new session replaced the old one's sender; the old task wakes up and removes the client. -/
theorem successor_removed : ¬ ∀ (maxClients : ℕ) (kernelNat : Bool) (admission blacklist : List ℕ)
    (ms : List (DaemonMove ℕ)),
    Along step Harmless (start maxClients kernelNat admission blacklist) ms := by
  intro h
  have hlast := (h 5 false [1] [] (overtaking ++ [.task 0 true])).last
  have hspared := hlast 0 1 _ _ rfl (by decide) rfl rfl rfl
  have hclient := hspared.client { tunnel := 1, kernelSlot := none } (by decide) rfl
  exact absurd hclient (by decide)

end AppState

end BaleVpn.Daemon
