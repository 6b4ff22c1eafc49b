import Mathlib.Data.List.Perm.Basic
import Mathlib.Data.List.Count
import BaleVpn.Daemon.Steps

/-!
# The pool of kernel-TUN slots (`server.rs`, `daemon.rs`)

A slot goes from the pool to a session that is being set up, from there to the entry of a client, and
back to the pool when the entry leaves the map or the set-up fails. It is lost when an entry is
overwritten, which happens when a peer's session is installed before the entry of its last one was
removed, and then for good. Otherwise the pool and the slots in use make up the slots there are.
-/

namespace BaleVpn.Daemon

open Lib

variable {P : Type}

/-- The slot that a task has taken and not handed on yet. -/
def TaskPc.slot : TaskPc → Option ℕ
  | .openTun slot | .attachTun slot => some slot
  | .install slot => slot
  | _ => none

def TaskPc.installs : TaskPc → Bool
  | .install _ => true
  | _ => false

def Tunnel.slot (t : Tunnel P) : Option ℕ := t.task.bind TaskPc.slot

namespace AppState

/-! ## Slots in use -/

def setUpSlots (s : AppState P) : List ℕ := s.tunnels.filterMap Tunnel.slot

/-- By a client, by one that is being cleared, or by a session that is being set up. -/
def heldSlots (s : AppState P) : List ℕ :=
  s.clients.entries.filterMap (fun e => e.2.kernelSlot) ++
    s.clearing.filterMap ActiveClient.kernelSlot ++ s.setUpSlots

/-- Every slot is in the pool or in use, and at one place only. -/
def Conserved (s : AppState P) : Prop :=
  (s.kernelSlots ++ s.heldSlots).Perm (List.range KERNEL_TUN_SLOT_LIMIT)

instance (s : AppState P) : Decidable (Conserved s) := inferInstanceAs (Decidable (List.Perm _ _))

/-- A client is installed only when the peer has no entry that holds a slot. -/
def Fresh [DecidableEq P] (s : AppState P) : DaemonMove P → Prop
  | .task i _ => ∀ t ∈ s.tunnels[i]?, t.task.any TaskPc.installs = true →
      ∀ c ∈ s.clients.lookup t.peer, c.kernelSlot = none
  | _ => True

instance [DecidableEq P] (s : AppState P) : (m : DaemonMove P) → Decidable (Fresh s m)
  | .task i _ => inferInstanceAs (Decidable (∀ t ∈ s.tunnels[i]?, t.task.any TaskPc.installs = true →
      ∀ c ∈ s.clients.lookup t.peer, c.kernelSlot = none))
  | .invite _ | .call _ | .cancel _ | .timeout _ | .resolve .. | .acceptCall .. | .tunnelConnected ..
  | .tunnelGone _ | .watcherEnds _ | .handleEvent | .loopEnds | .removeClient _
  | .clearAll | .clearStep | .clearPending | .setLists .. => isTrue trivial

/-! ## Counting -/

def slotCount (s : AppState P) (k : ℕ) : ℕ := s.kernelSlots.count k + s.heldSlots.count k

theorem conserved_iff_count {s : AppState P} :
    Conserved s ↔ ∀ k, s.slotCount k = (List.range KERNEL_TUN_SLOT_LIMIT).count k := by
  simp only [Conserved, List.perm_iff_count, List.count_append, slotCount]

theorem count_heldSlots (s : AppState P) (k : ℕ) :
    s.heldSlots.count k = s.clients.entries.countP (fun e => e.2.kernelSlot == some k) +
      s.clearing.countP (fun c => c.kernelSlot == some k) + s.setUpSlots.count k := by
  simp only [heldSlots, List.count_append, List.count_filterMap]

theorem SameProgress.setUpSlots {s s' : AppState P} (h : SameProgress s s') :
    s'.setUpSlots = s.setUpSlots := by
  have hslot (l : List (Tunnel P)) :
      l.filterMap Tunnel.slot = (l.map Tunnel.progress).filterMap (fun p => p.2.2.bind TaskPc.slot) := by
    rw [List.filterMap_map]
    rfl
  rw [AppState.setUpSlots, AppState.setUpSlots, hslot, hslot, h.tunnels]

theorem count_setUpSlots_modify {s : AppState P} {i : ℕ} {t : Tunnel P} (ht : s.tunnels[i]? = some t)
    (f : Tunnel P → Tunnel P) (k : ℕ) :
    (s.modifyTunnel i f).setUpSlots.count k + (if t.slot = some k then 1 else 0) =
      s.setUpSlots.count k + if (f t).slot = some k then 1 else 0 := by
  have hcount := countP_modify ht f (fun t => t.slot == some k)
  simpa [setUpSlots, modifyTunnel, List.count_filterMap] using hcount

/-! ## Steps that lose no slot -/

/-- No slot is lost as long as none is in two places, and none gets into a second one. -/
structure Conserves (s s' : AppState P) : Prop where
  le : ∀ k, s'.slotCount k ≤ s.slotCount k
  eq : (∀ k, s.slotCount k ≤ 1) → ∀ k, s'.slotCount k = s.slotCount k

theorem Conserves.of_eq {s s' : AppState P} (h : ∀ k, s'.slotCount k = s.slotCount k) :
    Conserves s s' :=
  ⟨fun k => Nat.le_of_eq (h k), fun _ => h⟩

theorem Conserves.refl (s : AppState P) : Conserves s s := .of_eq fun _ => rfl

theorem Conserves.release {s s' : AppState P} (slot : ℕ)
    (hpool : s'.kernelSlots = (s.releaseKernelSlot slot).kernelSlots)
    (hheld : ∀ k, s'.heldSlots.count k + (if slot = k then 1 else 0) = s.heldSlots.count k) :
    Conserves s s' where
  le k := by
    have hk := hheld k
    rw [slotCount, slotCount, hpool, releaseKernelSlot]
    split
    · omega
    · rw [List.count_cons]
      simp only [beq_iff_eq]
      omega
  eq honce k := by
    -- the slot is in use, so it is not in the pool as well
    have hnot : slot ∉ s.kernelSlots := by
      intro hmem
      have hslot := hheld slot
      have hle := honce slot
      have hpos : 0 < s.kernelSlots.count slot := List.count_pos_iff.mpr hmem
      rw [if_pos rfl] at hslot
      rw [slotCount] at hle
      omega
    have hk := hheld k
    rw [slotCount, slotCount, hpool, releaseKernelSlot, if_neg hnot, List.count_cons]
    simp only [beq_iff_eq]
    omega

theorem Conserves.trans {s s' s'' : AppState P} (h : Conserves s s') (h' : Conserves s' s'') :
    Conserves s s'' where
  le k := Nat.le_trans (h'.le k) (h.le k)
  eq honce k := by
    have heq := h.eq honce
    rw [h'.eq (fun k => by rw [heq k]; exact honce k) k, heq k]

theorem SameProgress.heldSlots {s s' : AppState P} (h : SameProgress s s')
    (hclients : s'.clients = s.clients) (hclearing : s'.clearing = s.clearing) :
    s'.heldSlots = s.heldSlots := by
  rw [AppState.heldSlots, AppState.heldSlots, h.setUpSlots, hclients, hclearing]

theorem SameProgress.conserves {s s' : AppState P} (h : SameProgress s s')
    (hpool : s'.kernelSlots = s.kernelSlots) (hclients : s'.clients = s.clients)
    (hclearing : s'.clearing = s.clearing) : Conserves s s' :=
  .of_eq fun k => by rw [slotCount, slotCount, hpool, h.heldSlots hclients hclearing]

theorem SameSessions.conserves {s s' : AppState P} (h : SameSessions s s') : Conserves s s' := by
  obtain ⟨_, _, _, _, rfl⟩ := h
  exact .of_eq fun _ => rfl

theorem Conserves.disconnect (s : AppState P) (i : ℕ) : Conserves s (s.disconnect i) :=
  (sameProgress_disconnect s i).conserves rfl rfl rfl

/-! ### Clients -/

theorem Conserves.releaseClient {s left : AppState P} {c : ActiveClient}
    (hpool : left.kernelSlots = s.kernelSlots)
    (hheld : ∀ k, left.heldSlots.count k + (if c.kernelSlot = some k then 1 else 0) =
      s.heldSlots.count k) : Conserves s (left.releaseClient c) := by
  obtain ⟨kernelSlots, heq⟩ := releaseClient_eq left c
  have hrelease : (left.releaseClient c).heldSlots = left.heldSlots :=
    (sameProgress_releaseClient left c).heldSlots (by rw [heq]; rfl) (by rw [heq]; rfl)
  cases hslot : c.kernelSlot with
  | some slot =>
    refine .release slot ?_ fun k => ?_
    · simp only [AppState.releaseClient, hslot, releaseKernelSlot, AppState.disconnect,
        AppState.modifyTunnel, hpool]
      split <;> rfl
    · have hk := hheld k
      rw [hslot] at hk
      simpa [hrelease] using hk
  | none =>
    refine .of_eq fun k => ?_
    have hk := hheld k
    have hnone : (left.releaseClient c).kernelSlots = s.kernelSlots := by
      simp only [AppState.releaseClient, hslot]
      exact hpool
    rw [hslot] at hk
    rw [slotCount, slotCount, hrelease, hnone]
    simpa using hk

theorem Conserves.clearStep (s : AppState P) : Conserves s s.clearStep := by
  unfold AppState.clearStep
  split
  · rename_i c clearing hclearing
    refine .releaseClient rfl fun k => ?_
    rw [count_heldSlots, count_heldSlots, hclearing, List.countP_cons]
    simp only [beq_iff_eq]
    show _ + clearing.countP _ + s.setUpSlots.count k + _ = _
    omega
  · exact .refl s

theorem Conserves.clearAll [DecidableEq P] (s : AppState P) : Conserves s (s.step .clearAll) := by
  refine .of_eq fun k => ?_
  have hclear : (s.step .clearAll).heldSlots.count k = s.heldSlots.count k := by
    rw [count_heldSlots, count_heldSlots]
    show [].countP _ + (s.clearing ++ s.clients.entries.map Sigma.snd).countP _ +
      s.setUpSlots.count k = _
    rw [List.countP_append, List.countP_map, List.countP_nil]
    simp only [Function.comp_def]
    omega
  rw [slotCount, slotCount, hclear]
  rfl

theorem Conserves.removeClient [DecidableEq P] (s : AppState P) (peer : P) :
    Conserves s (s.removeClient peer) := by
  cases h : s.clients.lookup peer with
  | none =>
    rw [removeClient_of_none h]
    exact .refl s
  | some c =>
    rw [removeClient_of_lookup h]
    refine .releaseClient rfl fun k => ?_
    have herase := countP_erase h (fun e => e.2.kernelSlot == some k)
    rw [count_heldSlots, count_heldSlots, herase]
    simp only [beq_iff_eq]
    show _ + s.clearing.countP _ + s.setUpSlots.count k + _ = _
    omega

/-! ### Sessions -/

theorem Conserves.modifyTunnel (s : AppState P) (i : ℕ) {f : Tunnel P → Tunnel P}
    (h : ∀ t, (f t).slot = t.slot) : Conserves s (s.modifyTunnel i f) := by
  refine .of_eq fun k => ?_
  have hslots : (s.modifyTunnel i f).setUpSlots.count k = s.setUpSlots.count k := by
    simp only [setUpSlots, List.count_filterMap]
    exact countP_modify_of_eq _ i fun t => by rw [h t]
  rw [slotCount, slotCount, count_heldSlots, count_heldSlots, hslots]
  rfl

theorem Conserves.setTask {s : AppState P} {i : ℕ} {t : Tunnel P} (ht : s.tunnels[i]? = some t)
    {pc : TaskPc} (h : pc.slot = t.slot) : Conserves s (s.setTask i pc) := by
  refine .of_eq fun k => ?_
  have hcount := count_setUpSlots_modify ht (fun t => { t with task := some pc }) k
  have hsame : (s.setTask i pc).setUpSlots.count k = s.setUpSlots.count k := by
    have hslot : Tunnel.slot { t with task := some pc } = t.slot := h
    rw [hslot] at hcount
    exact Nat.add_right_cancel hcount
  rw [slotCount, slotCount, count_heldSlots, count_heldSlots, hsame]
  rfl

theorem count_setUpSlots_setTask {s : AppState P} {i : ℕ} {t : Tunnel P} (ht : s.tunnels[i]? = some t)
    {pc : TaskPc} (htask : t.task = some pc) (pc' : TaskPc) (k : ℕ) :
    (s.setTask i pc').setUpSlots.count k + (if pc.slot = some k then 1 else 0) =
      s.setUpSlots.count k + if pc'.slot = some k then 1 else 0 := by
  have hcount := count_setUpSlots_modify ht (fun t => { t with task := some pc' }) k
  have hslot : t.slot = pc.slot := by rw [Tunnel.slot, htask]; rfl
  rw [hslot] at hcount
  exact hcount

theorem count_heldSlots_setTask {s : AppState P} {i : ℕ} {t : Tunnel P} (ht : s.tunnels[i]? = some t)
    {pc : TaskPc} (htask : t.task = some pc) (kernelSlots : List ℕ) (pc' : TaskPc) (k : ℕ) :
    ({ s with kernelSlots }.setTask i pc').heldSlots.count k + (if pc.slot = some k then 1 else 0) =
      s.heldSlots.count k + if pc'.slot = some k then 1 else 0 := by
  have hcount := count_setUpSlots_setTask ht htask pc' k
  rw [count_heldSlots, count_heldSlots]
  show s.clients.entries.countP _ + s.clearing.countP _ + (s.setTask i pc').setUpSlots.count k + _ = _
  omega

theorem Conserves.fails {s : AppState P} {i : ℕ} {t : Tunnel P} (ht : s.tunnels[i]? = some t)
    {pc : TaskPc} (htask : t.task = some pc) {slot : ℕ} (hslot : pc.slot = some slot) :
    Conserves s ((s.releaseKernelSlot slot).setTask i .startServer) := by
  obtain ⟨kernelSlots, heq⟩ := releaseKernelSlot_eq s slot
  refine .release slot rfl fun k => ?_
  have hcount := count_heldSlots_setTask ht htask kernelSlots .startServer k
  have hstart : TaskPc.startServer.slot = none := rfl
  rw [heq]
  simpa [hslot, hstart] using hcount

/-! ### Watchers -/

theorem Conserves.tunnelConnected (s : AppState P) (i : ℕ) (upgrade : Bool) :
    Conserves s (s.tunnelConnected i upgrade) := by
  rcases tunnelConnected_cases s i upgrade with heq | ⟨t, -, -, heq | heq⟩
  · rw [heq]
    exact .refl s
  · rw [heq]
    exact .modifyTunnel s i fun _ => rfl
  · rw [heq]
    have hevents : Conserves s { s with events := s.events ++ [(SessionEvent.connected t.peer i, i)] } :=
      .of_eq fun _ => rfl
    exact hevents.trans (.modifyTunnel _ i fun _ => rfl)

theorem Conserves.watcherEnds (s : AppState P) (i : ℕ) : Conserves s (s.watcherEnds i) := by
  refine .modifyTunnel s i fun t => ?_
  split <;> rfl

/-! ### Tasks -/

variable [DecidableEq P]

theorem Conserves.goesOn {s : AppState P} {i : ℕ} {t : Tunnel P} (ht : s.tunnels[i]? = some t)
    {pc : TaskPc} (htask : t.task = some pc) {ok : Bool}
    (hstep : Conserves s (s.sessionStep i t.peer ok pc).1)
    (hslot : (s.sessionStep i t.peer ok pc).2.slot = pc.slot) : Conserves s (s.taskStep i ok) := by
  obtain ⟨t', ht', -, -, htask'⟩ := (sameProgress_sessionStep s i t.peer ok pc).tunnel ht
  rw [taskStep_eq ht htask]
  refine hstep.trans (.setTask ht' ?_)
  rw [hslot, Tunnel.slot, htask', htask]
  rfl

theorem Conserves.taskStep {s : AppState P} {i : ℕ} {t : Tunnel P} (ht : s.tunnels[i]? = some t)
    {pc : TaskPc} (htask : t.task = some pc) (hpc : pc.installs = false) (ok : Bool) :
    Conserves s (s.taskStep i ok) := by
  cases pc with
  | fetchDisplayName =>
    refine .goesOn ht htask (.refl s) ?_
    simp only [sessionStep]
    split <;> rfl
  | startServer =>
    refine .goesOn ht htask (.refl s) ?_
    simp only [sessionStep]
    split <;> rfl
  | parked =>
    refine .goesOn ht htask (.refl s) ?_
    simp only [sessionStep]
    split <;> rfl
  | returned => exact .goesOn ht htask (.refl s) rfl
  | natFailed => exact .goesOn ht htask (.disconnect s i) rfl
  | remove => exact .goesOn ht htask (.removeClient s t.peer) rfl
  | allocSlot =>
    cases hpool : s.kernelSlots with
    | nil =>
      refine .goesOn ht htask ?_ ?_
      · simp only [sessionStep, hpool]
        exact .refl s
      · simp only [sessionStep, hpool]
        rfl
    | cons slot kernelSlots =>
      refine .of_eq fun k => ?_
      have hcount := count_heldSlots_setTask ht htask kernelSlots (.openTun slot) k
      rw [taskStep_eq ht htask]
      simp only [sessionStep, hpool]
      rw [slotCount, slotCount, hpool, List.count_cons]
      simp only [TaskPc.slot, reduceCtorEq, if_false, Option.some.injEq] at hcount
      simp only [beq_iff_eq]
      show kernelSlots.count k + _ = _
      omega
  | openTun slot | attachTun slot =>
    cases ok with
    | true => exact .goesOn ht htask (.refl s) rfl
    | false =>
      rw [taskStep_eq ht htask]
      exact .fails ht htask rfl
  | install kernelSlot => cases hpc

/-- The slot of an entry that is overwritten is nowhere afterwards. -/
theorem slotCount_install {s : AppState P} {i : ℕ} {t : Tunnel P} (ht : s.tunnels[i]? = some t)
    {kernelSlot : Option ℕ} (htask : t.task = some (.install kernelSlot)) (ok : Bool) (k : ℕ) :
    (s.taskStep i ok).slotCount k +
      (if (s.clients.lookup t.peer).bind ActiveClient.kernelSlot = some k then 1 else 0) =
        s.slotCount k := by
  have hcount : (s.setTask i .parked).setUpSlots.count k + (if kernelSlot = some k then 1 else 0) =
      s.setUpSlots.count k := count_setUpSlots_setTask ht htask .parked k
  have hinsert : (s.clients.insert t.peer { tunnel := i, kernelSlot }).entries.countP
      (fun e => e.2.kernelSlot == some k) = (s.clients.erase t.peer).entries.countP
        (fun e => e.2.kernelSlot == some k) + if kernelSlot = some k then 1 else 0 := by
    rw [countP_insert]
    simp
  have herase : s.clients.entries.countP (fun e => e.2.kernelSlot == some k) =
      (s.clients.erase t.peer).entries.countP (fun e => e.2.kernelSlot == some k) +
        if (s.clients.lookup t.peer).bind ActiveClient.kernelSlot = some k then 1 else 0 := by
    cases hlookup : s.clients.lookup t.peer with
    | none => simp [erase_of_lookup_none hlookup]
    | some c => simpa using countP_erase hlookup (fun e => e.2.kernelSlot == some k)
  rw [taskStep_eq ht htask, slotCount, slotCount, count_heldSlots, count_heldSlots]
  show s.kernelSlots.count k + ((s.clients.insert t.peer { tunnel := i, kernelSlot }).entries.countP _ +
    s.clearing.countP _ + (s.setTask i .parked).setUpSlots.count k) + _ = _
  omega

/-! ### Other moves -/

theorem Conserves.acceptCall (s : AppState P) (n : ℕ) (ok : Bool) :
    Conserves s (s.acceptCall n ok) := by
  have hset : Conserves s (s.setCall n .ended) := .of_eq fun _ => rfl
  rcases acceptCall_cases s n ok with heq | ⟨c, -, -, heq | ⟨sessions, old, heq⟩⟩
  · rw [heq]
    exact .refl s
  · rwa [heq]
  · -- a new tunnel has no task yet
    have hnew : Conserves s (registered s n c.peer sessions) := by
      refine .of_eq fun k => ?_
      have hslots : (registered s n c.peer sessions).setUpSlots = s.setUpSlots := by
        simp [setUpSlots, registered, List.filterMap_append, Tunnel.slot]
      rw [slotCount, slotCount, count_heldSlots, count_heldSlots, hslots]
      rfl
    rw [heq]
    cases old with
    | none => exact hnew
    | some old => exact hnew.trans (.disconnect _ old)

theorem Conserves.tunnelGone (s : AppState P) (i : ℕ) : Conserves s (s.tunnelGone i) := by
  rcases tunnelGone_cases s i with heq | ⟨t, event, emitted, sessions, -, -, heq⟩
  · rw [heq]
    exact .refl s
  · rw [heq]
    have hevents : Conserves s { s with sessions, events := s.events ++ [(event, i)] } :=
      .of_eq fun _ => rfl
    exact hevents.trans (.modifyTunnel _ i fun _ => rfl)

theorem Conserves.handleEvent {s : AppState P} (hfiled : Filed s) : Conserves s s.handleEvent := by
  unfold AppState.handleEvent
  split
  · split
    · rename_i peer i j events hevents
      have hhead : (SessionEvent.connected peer i, j) ∈ s.events := by simp [hevents]
      obtain ⟨-, t, ht, -, htask⟩ := hfiled.announced hhead
      have hpop : Conserves s { s with events, done := Function.update s.done peer (some i) } :=
        .of_eq fun _ => rfl
      have hslot : TaskPc.fetchDisplayName.slot = t.slot := by
        rw [Tunnel.slot, htask]
        rfl
      refine hpop.trans (.setTask (t := t) ?_ hslot)
      exact ht
    · exact .of_eq fun _ => rfl
    · rename_i peer _ events _
      have hpop : Conserves s { s with events } := .of_eq fun _ => rfl
      exact hpop.trans (sameSessions_pendingResolve _ peer .silentlyIgnore).conserves
    · exact .refl s
  · exact .refl s

/-! ## Runs -/

/-- No entry is overwritten, or a slot is lost with it. -/
def Accounts (s : AppState P) (m : DaemonMove P) : Prop :=
  Fresh s m ∧ Conserves s (s.step m) ∨ ¬ Fresh s m ∧ ∃ slot, ∀ k,
    (s.step m).slotCount k + (if slot = k then 1 else 0) = s.slotCount k

theorem accounts_install {s : AppState P} {i : ℕ} {t : Tunnel P} (ht : s.tunnels[i]? = some t)
    {kernelSlot : Option ℕ} (htask : t.task = some (.install kernelSlot)) (ok : Bool) :
    Accounts s (.task i ok) := by
  have hcount := slotCount_install ht htask ok
  cases hover : (s.clients.lookup t.peer).bind ActiveClient.kernelSlot with
  | none =>
    refine .inl ⟨fun t' ht' _ c hc => ?_, .of_eq fun k => ?_⟩
    · rw [Option.some.inj (ht'.symm.trans ht)] at hc
      exact Option.bind_eq_none_iff.mp hover c hc
    · have hk := hcount k
      rw [hover, if_neg (by simp)] at hk
      exact hk
  | some slot =>
    refine .inr ⟨fun hfresh => ?_, slot, fun k => ?_⟩
    · obtain ⟨c, hc, hslot⟩ := Option.bind_eq_some_iff.mp hover
      rw [hfresh t ht (by rw [htask]; rfl) c hc] at hslot
      cases hslot
    · have hk := hcount k
      rw [hover] at hk
      simp only [Option.some.injEq] at hk
      exact hk

theorem accounts_task (s : AppState P) (i : ℕ) (ok : Bool) : Accounts s (.task i ok) := by
  -- nothing but the set-up's last step can overwrite an entry
  have hfresh (h : ∀ t, s.tunnels[i]? = some t → t.task.any TaskPc.installs = false) :
      Fresh s (.task i ok) := fun t ht hany => by
    rw [h t ht] at hany
    cases hany
  rcases taskStep_cases s i ok with ⟨hidle, heq⟩ | ⟨t, pc, ht, htask, -⟩
  · refine .inl ⟨hfresh fun t ht => by rw [hidle t ht]; rfl, ?_⟩
    rw [step, heq]
    exact .refl s
  · by_cases hpc : pc.installs = true
    · cases pc <;> first | exact accounts_install ht htask ok | cases hpc
    · have hpc := Bool.eq_false_iff.mpr hpc
      exact .inl ⟨hfresh (by simp [ht, htask, hpc]), .taskStep ht htask hpc ok⟩

theorem step_accounts {s : AppState P} (hfiled : Filed s) (m : DaemonMove P) : Accounts s m := by
  cases m with
  | invite _ | call _ | cancel _ | timeout _ | resolve _ _ | clearPending | setLists _ _ =>
    exact .inl ⟨trivial, (sameSessions_step s rfl).conserves⟩
  | loopEnds => exact .inl ⟨trivial, .of_eq fun _ => rfl⟩
  | acceptCall n ok => exact .inl ⟨trivial, .acceptCall s n ok⟩
  | tunnelConnected i upgrade => exact .inl ⟨trivial, .tunnelConnected s i upgrade⟩
  | tunnelGone i => exact .inl ⟨trivial, .tunnelGone s i⟩
  | watcherEnds i => exact .inl ⟨trivial, .watcherEnds s i⟩
  | handleEvent => exact .inl ⟨trivial, .handleEvent hfiled⟩
  | task i ok => exact accounts_task s i ok
  | removeClient peer => exact .inl ⟨trivial, .removeClient s peer⟩
  | clearAll => exact .inl ⟨trivial, .clearAll s⟩
  | clearStep => exact .inl ⟨trivial, .clearStep s⟩

theorem slotCount_step_le {s : AppState P} (hfiled : Filed s) (m : DaemonMove P) (k : ℕ) :
    (s.step m).slotCount k ≤ s.slotCount k := by
  rcases step_accounts hfiled m with ⟨-, h⟩ | ⟨-, slot, hslot⟩
  · exact h.le k
  · have hk := hslot k
    omega

theorem slotCount_run_le (ms : List (DaemonMove P)) :
    ∀ {s : AppState P}, Filed s → ∀ k, (s.run ms).slotCount k ≤ s.slotCount k := by
  induction ms with
  | nil => exact fun _ _ => Nat.le_refl _
  | cons m ms ih =>
    intro s hfiled k
    exact Nat.le_trans (ih (hfiled.step m) k) (slotCount_step_le hfiled m k)

theorem run_conserved_iff (ms : List (DaemonMove P)) :
    ∀ {s : AppState P}, Filed s → Conserved s → (Conserved (s.run ms) ↔ Along step Fresh s ms) := by
  induction ms with
  | nil => exact fun _ hconserved => ⟨fun _ => trivial, fun _ => hconserved⟩
  | cons m ms ih =>
    intro s hfiled hconserved
    have hcount := conserved_iff_count.mp hconserved
    rcases step_accounts hfiled m with ⟨hfresh, h⟩ | ⟨hover, slot, hslot⟩
    · have honce (k : ℕ) : s.slotCount k ≤ 1 := by
        rw [hcount k]
        exact List.nodup_iff_count_le_one.mp List.nodup_range k
      have hstep : Conserved (s.step m) :=
        conserved_iff_count.mpr fun k => by rw [h.eq honce k, hcount k]
      exact (ih (hfiled.step m) hstep).trans ⟨fun h => ⟨hfresh, h⟩, And.right⟩
    · -- a slot that is lost once does not come back
      refine ⟨fun hend => ?_, fun hall => absurd hall.1 hover⟩
      have hrun := slotCount_run_le ms (hfiled.step m) slot
      have hlost := hslot slot
      have hback := conserved_iff_count.mp hend slot
      rw [if_pos rfl, hcount slot] at hlost
      rw [run, List.foldl_cons, ← run] at hback
      omega

/-- The pool and the slots in use make up the slots there are exactly as long as no entry that holds
a slot has been overwritten. -/
theorem slots_conserved_iff (maxClients : ℕ) (kernelNat : Bool) (admission blacklist : List P)
    (ms : List (DaemonMove P)) :
    Conserved ((start maxClients kernelNat admission blacklist).run ms) ↔
      Along step Fresh (start maxClients kernelNat admission blacklist) ms := by
  refine run_conserved_iff ms (filed_start ..) ?_
  simp [Conserved, start, heldSlots, setUpSlots]

/-- Nothing is under way: no event is queued, nothing is being cleared, and no session is between two
steps. -/
def Quiet (s : AppState P) : Prop :=
  s.events = [] ∧ s.clearing = [] ∧ ∀ t ∈ s.tunnels, t.task ∈ [none, some .parked, some .returned]

instance (s : AppState P) : Decidable (Quiet s) := inferInstanceAs (Decidable (_ ∧ _ ∧ _))

/-- A client calls again and is installed before its first session is cleaned up; then both end. -/
def redial : List (DaemonMove ℕ) :=
  [.invite 1, .call 0, .call 0, .call 0, .acceptCall 0 true, .tunnelConnected 0 true, .handleEvent,
    .task 0 true, .task 0 true, .task 0 true, .task 0 true, .task 0 true,
    .invite 1, .call 1, .call 1, .call 1, .acceptCall 1 true, .tunnelConnected 1 true, .handleEvent,
    .task 1 true, .task 1 true, .task 1 true, .task 1 true, .task 1 true,
    .task 0 true, .task 0 true, .tunnelGone 0, .handleEvent, .task 1 true, .task 1 true,
    .tunnelGone 1, .handleEvent]

theorem redial_leaks : ¬ ∀ (maxClients : ℕ) (kernelNat : Bool) (admission blacklist : List ℕ)
    (ms : List (DaemonMove ℕ)), Quiet ((start maxClients kernelNat admission blacklist).run ms) →
      Conserved ((start maxClients kernelNat admission blacklist).run ms) := by
  intro h
  have hperm := h 5 true [1] [] redial (by decide +kernel)
  have hmem := (List.Perm.mem_iff hperm).mpr (List.mem_range.mpr (by decide : 0 < 254))
  exact absurd hmem (by decide +kernel)

end AppState

end BaleVpn.Daemon
