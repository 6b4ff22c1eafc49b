import BaleVpn.Lib.Machine
import BaleVpn.Net.Packet

/-!
# The inbound queue (`lib.rs`, `dispatcher.rs`)

Packets from the carrier go into the tunnel's inbound queue, by any number of producers, and out of
it by drain tasks on the dispatcher thread. A producer that finds the queue empty posts a drain, after
it has released the queue's lock. A drain pops and injects until it finds the queue empty. The tunnel
is alive and the dispatcher runs; what an injected packet does is left out.
-/

namespace BaleVpn.Tunnel

open Net Lib

def INBOUND_QUEUE_CAP : ℕ := 8192

/-- A task of the dispatcher: a drain of this tunnel, or anything else. -/
inductive Task
  | drain | other
  deriving DecidableEq, Repr

inductive DrainPc
  | pop
  | inject (packet : Bytes)
  deriving DecidableEq, Repr

/-- How a packet left the queue. -/
inductive Fate
  | taken | evicted
  deriving DecidableEq, Repr

structure Inbound where
  queue : List Bytes := []
  drops : UInt64 := 0
  /-- Producers that are about to post a drain. -/
  posting : ℕ := 0
  /-- The dispatcher's `QUEUE`. -/
  tasks : List Task := []
  /-- What `drain_queue` took out of it and has not started. -/
  batch : List Task := []
  running : Option DrainPc := none
  /-- The packets that entered the queue, and those that left it, in order. -/
  enqueued : List Bytes := []
  left : List (Bytes × Fate) := []
  injected : List Bytes := []
  deriving DecidableEq, Repr

namespace Inbound

/-- What the `on_ip` closure does under the lock. -/
def onIp (s : Inbound) (ip : Bytes) : Inbound :=
  if ip.isEmpty then s
  else
    let wasEmpty := s.queue.isEmpty
    let s :=
      match s.queue with
      | oldest :: rest =>
        if s.queue.length ≥ INBOUND_QUEUE_CAP then
          { s with queue := rest, drops := s.drops + 1, left := s.left ++ [(oldest, Fate.evicted)] }
        else s
      | [] => s
    { s with
      queue := s.queue ++ [ip]
      enqueued := s.enqueued ++ [ip]
      posting := if wasEmpty then s.posting + 1 else s.posting }

/-- `dispatcher::post` of a drain. -/
def post (s : Inbound) : Inbound :=
  if s.posting = 0 then s else { s with posting := s.posting - 1, tasks := s.tasks ++ [.drain] }

/-- One step of the dispatcher thread: in the drain it runs, to the next task it took, or to
`drain_queue` on the next wake-up. -/
def dispatch (s : Inbound) : Inbound :=
  match s.running with
  | some .pop =>
    match s.queue with
    | packet :: queue =>
      { s with queue, running := some (.inject packet), left := s.left ++ [(packet, .taken)] }
    | [] => { s with running := none }
  | some (.inject packet) => { s with injected := s.injected ++ [packet], running := some .pop }
  | none =>
    match s.batch with
    | .drain :: batch => { s with batch, running := some .pop }
    | .other :: batch => { s with batch }
    | [] => { s with batch := s.tasks, tasks := [] }

end Inbound

inductive InboundMove
  | onIp (ip : Bytes)
  | post
  | postOther
  | dispatch
  deriving DecidableEq, Repr

/-- The packet that arrives, unless it is empty: `on_ip` passes over those. -/
def InboundMove.packets : InboundMove → List Bytes
  | .onIp ip => if ip.isEmpty then [] else [ip]
  | .post | .postOther | .dispatch => []

namespace Inbound

def step (s : Inbound) : InboundMove → Inbound
  | .onIp ip => s.onIp ip
  | .post => s.post
  | .postOther => { s with tasks := s.tasks ++ [.other] }
  | .dispatch => s.dispatch

def run (s : Inbound) (ms : List InboundMove) : Inbound := ms.foldl step s

/-! ## Nothing is stranded -/

/-- The packet a drain has popped and not yet injected. -/
def inHand (s : Inbound) : List Bytes :=
  match s.running with
  | some (.inject packet) => [packet]
  | _ => []

def wasTaken (p : Bytes × Fate) : Bool := p.2 == .taken

/-- A drain will come to what is in the queue. -/
def Served (s : Inbound) : Prop :=
  .drain ∈ s.tasks ∨ .drain ∈ s.batch ∨ s.running ≠ none ∨ 0 < s.posting

/-- At most the oldest packet leaves, and it is evicted only from a full queue. -/
def Leaves (s s' : Inbound) : Prop :=
  s'.left = s.left ∨ ∃ packet rest fate, s.queue = packet :: rest ∧
    s'.left = s.left ++ [(packet, fate)] ∧ (fate = .evicted → s.queue.length = INBOUND_QUEUE_CAP)

structure Flowing (s : Inbound) : Prop where
  served : s.queue ≠ [] → s.Served
  bounded : s.queue.length ≤ INBOUND_QUEUE_CAP
  order : s.enqueued = s.left.map Prod.fst ++ s.queue
  injected : s.injected ++ s.inHand = (s.left.filter wasTaken).map Prod.fst
  drops : s.drops = UInt64.ofNat (s.left.countP fun p => !wasTaken p)

theorem cap_pos : 0 < INBOUND_QUEUE_CAP := by decide

theorem onIp_cases (s : Inbound) {ip : Bytes} (hip : ip ≠ []) :
    (s.queue = [] ∧ s.onIp ip =
      { s with queue := [ip], enqueued := s.enqueued ++ [ip], posting := s.posting + 1 }) ∨
    (s.queue ≠ [] ∧ s.queue.length < INBOUND_QUEUE_CAP ∧ s.onIp ip =
      { s with queue := s.queue ++ [ip], enqueued := s.enqueued ++ [ip] }) ∨
    ∃ oldest rest, s.queue = oldest :: rest ∧ INBOUND_QUEUE_CAP ≤ s.queue.length ∧ s.onIp ip =
      { s with
        queue := rest ++ [ip], enqueued := s.enqueued ++ [ip], drops := s.drops + 1
        left := s.left ++ [(oldest, .evicted)] } := by
  have hne : ¬ ip.isEmpty = true := by simpa using hip
  unfold onIp
  rw [if_neg hne]
  cases hq : s.queue with
  | nil => exact .inl ⟨rfl, by simp [hq]⟩
  | cons oldest rest =>
    by_cases hfull : (oldest :: rest).length ≥ INBOUND_QUEUE_CAP
    · refine .inr (.inr ⟨oldest, rest, rfl, hfull, ?_⟩)
      simp only [if_pos hfull, List.isEmpty_cons, Bool.false_eq_true, if_false]
    · refine .inr (.inl ⟨by simp, by omega, ?_⟩)
      simp only [if_neg hfull, List.isEmpty_cons, Bool.false_eq_true, if_false, hq]

theorem Flowing.onIp {s : Inbound} (h : Flowing s) (ip : Bytes) :
    Flowing (s.onIp ip) ∧ Leaves s (s.onIp ip) := by
  by_cases hip : ip = []
  · have hsame : s.onIp ip = s := by simp [Inbound.onIp, hip]
    rw [hsame]
    exact ⟨h, .inl rfl⟩
  rcases onIp_cases s hip with ⟨hq, heq⟩ | ⟨hq, hlt, heq⟩ | ⟨oldest, rest, hq, hfull, heq⟩
  · rw [heq]
    refine ⟨⟨fun _ => .inr (.inr (.inr (Nat.succ_pos _))), ?_, ?_, h.injected, h.drops⟩, .inl rfl⟩
    · exact cap_pos
    · simp only [h.order, hq, List.append_nil]
  · rw [heq]
    refine ⟨⟨fun _ => h.served hq, ?_, ?_, h.injected, h.drops⟩, .inl rfl⟩
    · simp only [List.length_append, List.length_singleton]
      omega
    · simp only [h.order, List.append_assoc]
  · rw [heq]
    have hfull' : s.queue.length = INBOUND_QUEUE_CAP := Nat.le_antisymm h.bounded hfull
    have hserved : s.Served := h.served (by simp [hq])
    refine ⟨⟨fun _ => hserved, ?_, ?_, ?_, ?_⟩, .inr ⟨oldest, rest, .evicted, hq, rfl, fun _ => hfull'⟩⟩
    · rw [hq, List.length_cons] at hfull'
      show (rest ++ [ip]).length ≤ INBOUND_QUEUE_CAP
      rw [List.length_append, List.length_singleton]
      omega
    · simp [h.order, hq]
    · have hsame : (s.left ++ [(oldest, Fate.evicted)]).filter wasTaken = s.left.filter wasTaken := by
        simp [wasTaken]
      show s.injected ++ s.inHand = _
      rw [hsame]
      exact h.injected
    · simp [h.drops, wasTaken]

theorem Flowing.post {s : Inbound} (h : Flowing s) : Flowing s.post := by
  unfold Inbound.post
  split
  · exact h
  · exact { h with served := fun _ => .inl (by simp) }

theorem Flowing.dispatch {s : Inbound} (h : Flowing s) :
    Flowing s.dispatch ∧ Leaves s s.dispatch := by
  unfold Inbound.dispatch
  split
  · rename_i hrun
    split
    · rename_i packet queue hq
      have hhand : s.inHand = [] := by simp [inHand, hrun]
      refine ⟨⟨fun _ => .inr (.inr (.inl (by simp))), ?_, ?_, ?_, ?_⟩,
        .inr ⟨packet, queue, .taken, hq, rfl, by simp⟩⟩
      · have hb := h.bounded
        rw [hq, List.length_cons] at hb
        show queue.length ≤ _
        omega
      · simp [h.order, hq]
      · have hinj := h.injected
        rw [hhand, List.append_nil] at hinj
        simp [inHand, hinj, wasTaken]
      · simp [h.drops, wasTaken]
    · rename_i hq
      have hhand : s.inHand = [] := by simp [inHand, hrun]
      refine ⟨⟨fun hne => absurd hq hne, h.bounded, h.order, ?_, h.drops⟩, .inl rfl⟩
      have hinj := h.injected
      rw [hhand] at hinj
      exact hinj
  · rename_i packet hrun
    refine ⟨⟨fun _ => .inr (.inr (.inl (by simp))), h.bounded, h.order, ?_, h.drops⟩, .inl rfl⟩
    have hinj := h.injected
    simp only [inHand, hrun] at hinj
    simpa [inHand] using hinj
  · rename_i hrun
    have hhand : s.inHand = [] := by simp [inHand, hrun]
    have hinj := h.injected
    split
    · rename_i batch hb
      refine ⟨⟨fun _ => .inr (.inr (.inl (by simp))), h.bounded, h.order, ?_, h.drops⟩, .inl rfl⟩
      rw [hhand] at hinj
      exact hinj
    · rename_i batch hb
      refine ⟨{ h with served := fun hne => ?_ }, .inl rfl⟩
      rcases h.served hne with hs | hs | hs | hs
      · exact .inl hs
      · rw [hb] at hs
        exact .inr (.inl (by simpa using hs))
      · exact absurd hrun hs
      · exact .inr (.inr (.inr hs))
    · rename_i hb
      refine ⟨{ h with served := fun hne => ?_ }, .inl rfl⟩
      rcases h.served hne with hs | hs | hs | hs
      · exact .inr (.inl hs)
      · rw [hb] at hs
        cases hs
      · exact absurd hrun hs
      · exact .inr (.inr (.inr hs))

theorem Flowing.step {s : Inbound} (h : Flowing s) (m : InboundMove) :
    Flowing (s.step m) ∧ Leaves s (s.step m) := by
  cases m with
  | onIp ip => exact h.onIp ip
  | post =>
    refine ⟨h.post, .inl ?_⟩
    simp only [Inbound.step, Inbound.post]
    split <;> rfl
  | postOther =>
    refine ⟨{ h with served := fun hne => ?_ }, .inl rfl⟩
    rcases h.served hne with hs | hs
    · exact .inl (List.mem_append_left _ hs)
    · exact .inr hs
  | dispatch => exact h.dispatch

theorem Flowing.start : Flowing {} :=
  ⟨fun hne => absurd rfl hne, Nat.zero_le _, rfl, rfl, rfl⟩

theorem Flowing.run {s : Inbound} (h : Flowing s) (ms : List InboundMove) : Flowing (s.run ms) :=
  foldl_invariant (fun _ m h => (h.step m).1) ms h

theorem enqueued_step (s : Inbound) (m : InboundMove) : (s.step m).enqueued = s.enqueued ++ m.packets := by
  cases m with
  | onIp ip =>
    by_cases hip : ip = []
    · simp [step, onIp, InboundMove.packets, hip]
    · have hpackets : (InboundMove.onIp ip).packets = [ip] := by simp [InboundMove.packets, hip]
      rw [hpackets]
      rcases onIp_cases s hip with ⟨-, heq⟩ | ⟨-, -, heq⟩ | ⟨_, _, -, -, heq⟩ <;> rw [step, heq]
  | post =>
    simp only [step, post, InboundMove.packets, List.append_nil]
    split <;> rfl
  | postOther => exact (List.append_nil _).symm
  | dispatch =>
    simp only [step, dispatch, InboundMove.packets, List.append_nil]
    split <;> (try split) <;> rfl

theorem enqueued_run (s : Inbound) (ms : List InboundMove) :
    (s.run ms).enqueued = s.enqueued ++ ms.flatMap InboundMove.packets := by
  induction ms generalizing s with
  | nil => exact (List.append_nil _).symm
  | cons m ms ih =>
    have hrest := ih (s.step m)
    rw [enqueued_step, List.append_assoc, ← List.flatMap_cons] at hrest
    exact hrest

/-- In every order of producers and dispatcher, a packet in the queue has a drain coming, the packets that
came leave in that order, by injection or from the front of a full queue, and the latter are counted. -/
theorem inbound_flows (ms : List InboundMove) :
    Flowing (Inbound.run {} ms) ∧
      (Inbound.run {} ms).enqueued = ms.flatMap InboundMove.packets ∧
      ∀ m, Leaves (Inbound.run {} ms) ((Inbound.run {} ms).step m) :=
  ⟨Flowing.start.run ms, enqueued_run {} ms, fun m => ((Flowing.start.run ms).step m).2⟩

/-! ## How many drains -/

/-- The drains that are queued or executing. -/
def outstanding (s : Inbound) : ℕ :=
  s.tasks.count .drain + s.batch.count .drain + s.running.elim 0 fun _ => 1

/-- A packet that arrives at an empty queue finds no drain queued or executing. -/
def Calm (s : Inbound) : InboundMove → Prop
  | .onIp ip => ip ≠ [] → s.queue = [] → s.outstanding = 0
  | _ => True

instance (s : Inbound) : (m : InboundMove) → Decidable (Calm s m)
  | .onIp ip => inferInstanceAs (Decidable (ip ≠ [] → s.queue = [] → s.outstanding = 0))
  | .post | .postOther | .dispatch => isTrue trivial

/-- One drain at most, counted from the moment a producer owes it; and while it is owed, the packet
it is for is in the queue. -/
structure Single (s : Inbound) : Prop where
  one : s.posting + s.outstanding ≤ 1
  owed : 0 < s.posting → s.queue ≠ []

theorem Single.onIp {s : Inbound} (h : Single s) {ip : Bytes} (hcalm : Calm s (.onIp ip)) :
    Single (s.onIp ip) := by
  by_cases hip : ip = []
  · have hsame : s.onIp ip = s := by simp [Inbound.onIp, hip]
    rw [hsame]
    exact h
  rcases onIp_cases s hip with ⟨hq, heq⟩ | ⟨hq, hlt, heq⟩ | ⟨oldest, rest, hq, hfull, heq⟩
  · have hnone := hcalm hip hq
    have hidle : s.posting = 0 := by
      by_contra hpos
      exact h.owed (Nat.pos_of_ne_zero hpos) hq
    rw [heq]
    refine ⟨?_, by simp⟩
    show s.posting + 1 + s.outstanding ≤ 1
    omega
  · rw [heq]
    exact ⟨h.one, by simp⟩
  · rw [heq]
    exact ⟨h.one, by simp⟩

theorem Single.dispatch {s : Inbound} (h : Single s) : Single s.dispatch := by
  have hone := h.one
  unfold Inbound.dispatch
  split
  · rename_i hrun
    -- A drain runs, so no producer owes one.
    have hidle : s.posting = 0 := by
      simp only [outstanding, hrun, Option.elim_some] at hone
      omega
    split
    · refine ⟨?_, fun hpos => absurd hidle (Nat.pos_iff_ne_zero.mp hpos)⟩
      simpa only [outstanding, hrun, Option.elim_some] using hone
    · refine ⟨?_, fun hpos => absurd hidle (Nat.pos_iff_ne_zero.mp hpos)⟩
      simp only [outstanding, hrun, Option.elim_some, Option.elim_none] at hone ⊢
      omega
  · rename_i packet hrun
    refine ⟨?_, h.owed⟩
    simpa only [outstanding, hrun, Option.elim_some] using hone
  · rename_i hrun
    split
    · rename_i batch hb
      refine ⟨?_, h.owed⟩
      simp only [outstanding, hrun, hb, Option.elim_some, Option.elim_none, List.count_cons_self]
        at hone ⊢
      omega
    · rename_i batch hb
      refine ⟨?_, h.owed⟩
      simpa [outstanding, hrun, hb] using hone
    · rename_i hb
      refine ⟨?_, h.owed⟩
      simpa [outstanding, hrun, hb] using hone

theorem Single.step {s : Inbound} {m : InboundMove} (hcalm : Calm s m) (h : Single s) :
    Single (s.step m) := by
  cases m with
  | onIp ip => exact h.onIp hcalm
  | post =>
    have hone := h.one
    simp only [Inbound.step, Inbound.post]
    split
    · exact h
    · refine ⟨?_, fun hpos => h.owed (by omega)⟩
      simp only [outstanding, List.count_append, List.count_singleton_self] at hone ⊢
      omega
  | postOther =>
    have hone := h.one
    refine ⟨?_, h.owed⟩
    simpa [Inbound.step, outstanding] using hone
  | dispatch => exact h.dispatch

theorem second_drain {s : Inbound} {m : InboundMove} (h : ¬ Calm s m) :
    2 ≤ (s.run [m, .post]).outstanding := by
  cases m with
  | onIp ip =>
    simp only [Calm, Classical.not_imp] at h
    obtain ⟨hip, hq, hsome⟩ := h
    rcases onIp_cases s hip with ⟨-, heq⟩ | ⟨hne, -⟩ | ⟨oldest, rest, hne, -⟩
    · have hrun : s.run [.onIp ip, .post] =
          { s with
            queue := [ip], enqueued := s.enqueued ++ [ip], posting := s.posting
            tasks := s.tasks ++ [.drain] } := by
        simp [Inbound.run, Inbound.step, heq, Inbound.post]
      rw [hrun]
      simp only [outstanding, List.count_append, List.count_singleton_self] at hsome ⊢
      omega
    · exact absurd hq hne
    · rw [hq] at hne
      cases hne
  | _ => exact absurd trivial h

/-- There is at most one drain as long as no packet arrives at an empty queue while a drain is queued
or executing, and a packet that does can bring a second one. -/
theorem one_drain (ms : List InboundMove) :
    (Along step Calm {} ms → (Inbound.run {} ms).outstanding ≤ 1) ∧
      ∀ m, ¬ Calm (Inbound.run {} ms) m → 1 < (Inbound.run {} (ms ++ [m, .post])).outstanding := by
  constructor
  · intro hall
    have hstart : Single {} := ⟨by decide, by simp⟩
    have hsingle : Single (ms.foldl step {}) := hall.invariant (fun _ _ hc h => h.step hc) hstart
    have hone := hsingle.one
    show (ms.foldl step {}).outstanding ≤ 1
    omega
  · intro m hm
    have htwo := second_drain hm
    rwa [show (Inbound.run {} ms).run [m, .post] = Inbound.run {} (ms ++ [m, .post]) from
      List.foldl_append.symm] at htwo

/-- Two packets, the second after the drain of the first is through. -/
def calmRun : List InboundMove :=
  [.onIp [1], .post, .dispatch, .dispatch, .dispatch, .dispatch, .dispatch, .onIp [2], .post]

theorem one_drain_calm : Along step Calm {} calmRun ∧ (Inbound.run {} calmRun).tasks = [.drain] ∧
    (Inbound.run {} calmRun).outstanding ≤ 1 :=
  ⟨by decide, by decide, (one_drain calmRun).1 (by decide)⟩

/-- A drain has popped its packet and is about to inject it. -/
def firstPopped : List InboundMove := [.onIp [1], .post, .dispatch, .dispatch, .dispatch]

/-- A packet arrives, its producer posts, and the drain that is running takes the packet. -/
def arrival : List InboundMove := [.onIp [1], .post, .dispatch, .dispatch]

theorem arrival_adds {s : Inbound} {packet : Bytes} (hq : s.queue = [])
    (hrun : s.running = some (.inject packet)) :
    (s.run arrival).queue = [] ∧ (s.run arrival).running = some (.inject [1]) ∧
      (s.run arrival).tasks = s.tasks ++ [.drain] := by
  simp [arrival, Inbound.run, Inbound.step, Inbound.onIp, Inbound.post, Inbound.dispatch, hq, hrun]

/-- While one drain runs, every packet adds another to the dispatcher's queue. -/
theorem drains_pile_up (n : ℕ) :
    (Inbound.run {} (firstPopped ++ (List.replicate n arrival).flatten)).tasks.count .drain = n := by
  have hgo : ∀ (n : ℕ) {s : Inbound} {packet : Bytes}, s.queue = [] →
      s.running = some (.inject packet) →
        (s.run (List.replicate n arrival).flatten).tasks.count .drain = s.tasks.count .drain + n := by
    intro n
    induction n with
    | zero => exact fun _ _ => rfl
    | succ n ih =>
      intro s packet hq hrun
      obtain ⟨hq', hrun', htasks⟩ := arrival_adds hq hrun
      have hrest := ih hq' hrun'
      rw [htasks, List.count_append, List.count_singleton_self] at hrest
      rw [List.replicate_succ, List.flatten_cons, Inbound.run, List.foldl_append]
      exact hrest.trans (by omega)
  have hall := @hgo n (Inbound.run {} firstPopped) [1] rfl rfl
  rw [Inbound.run, List.foldl_append]
  simpa [firstPopped, Inbound.run, Inbound.step, Inbound.onIp, Inbound.post, Inbound.dispatch]
    using hall

/-- The second packet arrives while the first is being injected. -/
theorem drains_overlap :
    (Inbound.run {} (firstPopped ++ [.onIp [2], .post])).outstanding = 2 ∧
      ∀ n, n ≤ (Inbound.run {} (firstPopped ++ (List.replicate n arrival).flatten)).outstanding := by
  refine ⟨by decide, fun n => ?_⟩
  have hpile := drains_pile_up n
  unfold outstanding
  omega

end Inbound

end BaleVpn.Tunnel
