import BaleVpn.Signaling.Reconnect

/-!
# The update subscription

`subscribe_idx` is stored by the reader of a session, after its handshake and at each rotation, and by the
detached tasks that subscribe again after a failure. Such a task outlives its session.

What a live session is subscribed with is recognised as long as `subscribe_idx` is stored only while no live
session has another frame on its way and no other live session has subscribed.
-/

namespace BaleVpn.Signaling

open Lib

/-- The `idx` that was stored, whose frame is still to be sent. -/
@[simp]
def LoopPc.sending : LoopPc → Option (BitVec 32)
  | .send idx => some idx
  | .top | .attempt | .connecting | .install | .reading | .ready | .subscribe | .store _ | .ended _
  | .clearSender _ | .drainPending _ | .outcome _ | .sleeping | .finished => none

@[simp]
def LoopPc.Storing : LoopPc → Bool
  | .store _ => true
  | .top | .attempt | .connecting | .install | .reading | .ready | .subscribe | .send _ | .ended _
  | .clearSender _ | .drainPending _ | .outcome _ | .sleeping | .finished => false

@[simp]
def ResubscribePc.sending : ResubscribePc → Option (BitVec 32)
  | .send idx => some idx
  | .sleeping | .store _ | .done => none

@[simp]
def ResubscribePc.Storing : ResubscribePc → Bool
  | .store _ => true
  | .sleeping | .send _ | .done => false

/-- Neither the subscription nor the queues. -/
structure SameStream (r r' : RpcPlumbing) : Prop where
  subscribeIdx : r'.subscribeIdx = r.subscribeIdx
  closed : r'.closed = r.closed

namespace SameStream

variable {r r' r'' : RpcPlumbing}

theorem trans (h : SameStream r r') (h' : SameStream r' r'') : SameStream r r'' :=
  ⟨h'.subscribeIdx.trans h.subscribeIdx, h'.closed.trans h.closed⟩

theorem removePending (r : RpcPlumbing) (idx : BitVec 32) : SameStream r (r.removePending idx) := by
  unfold RpcPlumbing.removePending
  split <;> exact ⟨rfl, rfl⟩

theorem dispatch (r : RpcPlumbing) (resp : RpcResponse) :
    SameStream r (r.dispatchRpcResponse resp).1 := by
  unfold RpcPlumbing.dispatchRpcResponse
  split <;> exact ⟨rfl, rfl⟩

theorem timeout (r : RpcPlumbing) (n : ℕ) : SameStream r (r.timeout n) := by
  unfold RpcPlumbing.timeout
  split
  · split <;> exact ⟨rfl, rfl⟩
  · exact ⟨rfl, rfl⟩

theorem rpcStep (r : RpcPlumbing) (n : ℕ) : SameStream r (r.rpcStep n) := by
  unfold RpcPlumbing.rpcStep
  split
  · next c hc =>
    have hremove := removePending r c.idx
    split
    · exact hremove.trans ⟨rfl, rfl⟩
    · split <;> exact ⟨rfl, rfl⟩
    · split <;> exact ⟨rfl, rfl⟩
    · split <;> exact ⟨rfl, rfl⟩
    · exact hremove.trans ⟨rfl, rfl⟩
    · exact ⟨rfl, rfl⟩
  · exact ⟨rfl, rfl⟩

end SameStream

namespace WsClient

/-! ## Recognised subscriptions -/

/-- The frames of the loop's session that are still to be sent. -/
def sending (s : WsClient) (l : RunLoop) : List (BitVec 32) :=
  l.pc.sending.toList ++
    (s.resubscribes.filter fun t => t.session = l.session).filterMap fun t => t.pc.sending

/-- The session is live, and its queue has its receiver. -/
def Up (s : WsClient) (l : RunLoop) : Prop := l.Live ∧ l.session ∉ s.rpc.closed

instance (s : WsClient) (l : RunLoop) : Decidable (s.Up l) := inferInstanceAs (Decidable (_ ∧ _))

/-- `subscribe_idx` is the `idx` of the latest `SubscribeToUpdates` of a live session. -/
structure Recognised (s : WsClient) : Prop where
  /-- A frame counts from the store of its `idx` on. -/
  sending : ∀ l ∈ s.loops, s.Up l → ∀ idx ∈ s.sending l, s.rpc.subscribeIdx = idx
  sent : ∀ l ∈ s.loops, s.Up l → s.sending l = [] →
    ∀ idx ∈ s.subscribed l.session, s.rpc.subscribeIdx = idx

/-- A task that another session has left over does not change `subscribe_idx`. -/
def LeavesIdx (s : WsClient) : WsMove → Prop
  | .resubscribe j => ∀ t ∈ s.resubscribes[j]?, ∀ l ∈ s.loops, s.Up l → l.session ≠ t.session →
      s.subscribed l.session ≠ none → (s.resubscribeStep j).rpc.subscribeIdx = s.rpc.subscribeIdx
  | _ => True

/-- A live session has no frame on its way, and has not subscribed unless it is the one that stores. -/
def MayStore (s : WsClient) (session : ℕ) : Prop :=
  ∀ l ∈ s.loops, s.Up l → s.sending l = [] ∧ (l.session ≠ session → s.subscribed l.session = none)

instance (s : WsClient) (session : ℕ) : Decidable (s.MayStore session) :=
  inferInstanceAs (Decidable (∀ l ∈ _, _))

def Orderly (s : WsClient) : WsMove → Prop
  | .loop i .go => ∀ l ∈ s.loops[i]?, l.pc.Storing → s.MayStore l.session
  | .resubscribe j => ∀ t ∈ s.resubscribes[j]?, t.pc.Storing → s.MayStore t.session
  | _ => True

instance (s : WsClient) : (m : WsMove) → Decidable (Orderly s m)
  | .loop _ .go => inferInstanceAs (Decidable (∀ l ∈ _, _))
  | .resubscribe _ => inferInstanceAs (Decidable (∀ t ∈ _, _))
  | .loop _ .connected | .loop _ (.connectFailed _) | .loop _ (.handshake _) | .loop _ .versionMismatch
  | .loop _ (.response _) | .loop _ (.closed _) | .set _ | .setter _ | .drop _ | .rpcCall | .rpcStep _
  | .rpcTimeout _ | .close _ => isTrue trivial

/-! ## Sessions -/

/-- Sessions are numbered as they come up. -/
structure Numbered (s : WsClient) : Prop where
  loops : ∀ l ∈ s.loops, l.pc.InSession → l.session < s.nextSession
  tasks : ∀ t ∈ s.resubscribes, t.session < s.nextSession
  subscribed : ∀ k, s.subscribed k ≠ none → k < s.nextSession
  distinct : ∀ (i j : ℕ) (l l' : RunLoop), s.loops[i]? = some l → s.loops[j]? = some l' →
    l.pc.InSession → l'.pc.InSession → l.session = l'.session → i = j

/-- The session of a loop or of a task. -/
def Known (s : WsClient) (session : ℕ) : Prop :=
  (∃ l ∈ s.loops, l.pc.InSession ∧ l.session = session) ∨ ∃ t ∈ s.resubscribes, t.session = session

/-- No session comes up. -/
structure SameSessions (s s' : WsClient) : Prop where
  loops : ∀ (i : ℕ) (l' : RunLoop), s'.loops[i]? = some l' → l'.pc.InSession →
    ∃ l, s.loops[i]? = some l ∧ l.pc.InSession ∧ l'.session = l.session
  tasks : ∀ t ∈ s'.resubscribes, s.Known t.session
  subscribers : ∀ k, s'.subscribed k ≠ none → s.subscribed k ≠ none ∨ s.Known k
  nextSession : s'.nextSession = s.nextSession

theorem Numbered.known {s : WsClient} (h : Numbered s) {k : ℕ} (hk : s.Known k) : k < s.nextSession := by
  obtain ⟨l, hl, hpc, rfl⟩ | ⟨t, ht, rfl⟩ := hk
  · exact h.loops l hl hpc
  · exact h.tasks t ht

theorem Numbered.step {s s' : WsClient} (h : Numbered s) (hs : SameSessions s s') : Numbered s' where
  loops l' hl' hpc := by
    obtain ⟨i, hi⟩ := List.mem_iff_getElem?.mp hl'
    obtain ⟨l, hl, hpc, hsession⟩ := hs.loops i l' hi hpc
    rw [hs.nextSession, hsession]
    exact h.loops l (List.mem_of_getElem? hl) hpc
  tasks t ht := by
    rw [hs.nextSession]
    exact h.known (hs.tasks t ht)
  subscribed k hk := by
    rw [hs.nextSession]
    exact (hs.subscribers k hk).elim (h.subscribed k) h.known
  distinct i j l l' hl hl' hpc hpc' heq := by
    obtain ⟨a, ha, hapc, hasession⟩ := hs.loops i l hl hpc
    obtain ⟨b, hb, hbpc, hbsession⟩ := hs.loops j l' hl' hpc'
    rw [hasession, hbsession] at heq
    exact h.distinct i j a b ha hb hapc hbpc heq

theorem Numbered.other {s : WsClient} (h : Numbered s) {i k : ℕ} {l l' : RunLoop} (hl : s.loops[i]? = some l)
    (hl' : s.loops[k]? = some l') (hk : k ≠ i) (hpc : l.pc.InSession) (hpc' : l'.pc.InSession) :
    l'.session ≠ l.session :=
  fun heq => hk (h.distinct k i l' l hl' hl hpc' hpc heq)

theorem SameSessions.modify {s s' : WsClient} {i : ℕ} {l : RunLoop} (hl : s.loops[i]? = some l)
    {f : RunLoop → RunLoop} (hloops : s'.loops = s.loops.modify i f)
    (hf : (f l).pc.InSession → l.pc.InSession ∧ (f l).session = l.session)
    (htasks : s'.resubscribes = s.resubscribes)
    (hsub : ∀ k, s'.subscribed k ≠ none → s.subscribed k ≠ none ∨ s.Known k)
    (hnext : s'.nextSession = s.nextSession) : SameSessions s s' where
  loops k l' hl' hpc := by
    rw [hloops] at hl'
    obtain ⟨rfl, rfl⟩ | ⟨-, hold⟩ := getElem?_modify_cases hl hl'
    · exact ⟨l, hl, hf hpc⟩
    · exact ⟨l', hold, hpc, rfl⟩
  tasks t ht := .inr ⟨t, htasks ▸ ht, rfl⟩
  subscribers := hsub
  nextSession := hnext

/-! ## Frames on their way -/

/-- A task is about to send a frame. -/
def TaskSends (s : WsClient) (session : ℕ) (idx : BitVec 32) : Prop :=
  ∃ t ∈ s.resubscribes, t.session = session ∧ t.pc.sending = some idx

theorem mem_sending {s : WsClient} {l : RunLoop} {idx : BitVec 32} :
    idx ∈ s.sending l ↔ l.pc.sending = some idx ∨ s.TaskSends l.session idx := by
  simp [sending, TaskSends, and_assoc]

/-- What is on its way in a live session, and `subscribe_idx`, stay. -/
structure SameFrames (s s' : WsClient) : Prop where
  subscribeIdx : s'.rpc.subscribeIdx = s.rpc.subscribeIdx
  subscribed : s'.subscribed = s.subscribed
  up : ∀ l' ∈ s'.loops, s'.Up l' → ∃ l ∈ s.loops, s.Up l ∧ l'.session = l.session ∧
    l'.pc.sending = l.pc.sending
  taskSends : ∀ session idx, s'.TaskSends session idx ↔ s.TaskSends session idx

theorem Recognised.step {s s' : WsClient} (h : Recognised s) (hf : SameFrames s s') : Recognised s' := by
  have same : ∀ l l' : RunLoop, l'.session = l.session → l'.pc.sending = l.pc.sending → ∀ idx,
      idx ∈ s'.sending l' ↔ idx ∈ s.sending l := by
    intro l l' hsession hpc idx
    rw [mem_sending, mem_sending, hpc, hf.taskSends, hsession]
  constructor
  · intro l' hl' hup idx hidx
    obtain ⟨l, hl, hup, hsession, hpc⟩ := hf.up l' hl' hup
    rw [hf.subscribeIdx]
    exact h.sending l hl hup idx ((same l l' hsession hpc idx).mp hidx)
  · intro l' hl' hup hnil idx hidx
    obtain ⟨l, hl, hup, hsession, hpc⟩ := hf.up l' hl' hup
    rw [hf.subscribeIdx]
    rw [hf.subscribed, hsession] at hidx
    refine h.sent l hl hup (List.eq_nil_iff_forall_not_mem.mpr fun j hj => ?_) idx hidx
    have hmem := (same l l' hsession hpc j).mpr hj
    rw [hnil] at hmem
    exact absurd hmem List.not_mem_nil

theorem Recognised.store {s s' : WsClient} {session : ℕ} {idx : BitVec 32} (hmay : s.MayStore session)
    (hidx : s'.rpc.subscribeIdx = idx) (hsub : s'.subscribed = s.subscribed)
    (hup : ∀ l' ∈ s'.loops, s'.Up l' → ∃ l ∈ s.loops, s.Up l ∧ l'.session = l.session ∧
      (∀ j ∈ s'.sending l', j ∈ s.sending l ∨ j = idx) ∧ (l.session = session → idx ∈ s'.sending l')) :
    Recognised s' := by
  constructor
  · intro l' hl' hlup j hj
    obtain ⟨l, hl, hlup, -, hfrom, -⟩ := hup l' hl' hlup
    obtain hj | rfl := hfrom j hj
    · rw [(hmay l hl hlup).1] at hj
      exact absurd hj List.not_mem_nil
    · exact hidx
  · intro l' hl' hlup hnil j hj
    obtain ⟨l, hl, hlup, hsession, -, hsends⟩ := hup l' hl' hlup
    rw [hnil] at hsends
    have hne : l.session ≠ session := fun heq => List.not_mem_nil (hsends heq)
    rw [hsub, hsession, (hmay l hl hlup).2 hne] at hj
    cases hj

@[simp]
theorem sendSubscribe_rpc (s : WsClient) (session : ℕ) (idx : BitVec 32) :
    (s.sendSubscribe session idx).rpc = s.rpc := by
  unfold sendSubscribe
  split <;> rfl

@[simp]
theorem sendSubscribe_resubscribes (s : WsClient) (session : ℕ) (idx : BitVec 32) :
    (s.sendSubscribe session idx).resubscribes = s.resubscribes := by
  unfold sendSubscribe
  split <;> rfl

@[simp]
theorem sendSubscribe_nextSession (s : WsClient) (session : ℕ) (idx : BitVec 32) :
    (s.sendSubscribe session idx).nextSession = s.nextSession := by
  unfold sendSubscribe
  split <;> rfl

theorem sendSubscribe_subscribed {s : WsClient} {session : ℕ} (idx : BitVec 32) (k : ℕ)
    (hclosed : session ∉ s.rpc.closed) :
    (s.sendSubscribe session idx).subscribed k = if k = session then some idx else s.subscribed k := by
  simp [sendSubscribe, hclosed, Function.update_apply]

theorem sendSubscribe_subscribed_of_ne {s : WsClient} {session k : ℕ} (idx : BitVec 32)
    (hne : k ≠ session) : (s.sendSubscribe session idx).subscribed k = s.subscribed k := by
  unfold sendSubscribe
  split
  · rfl
  · exact Function.update_of_ne hne _ _

theorem Recognised.send {s s' : WsClient} {session : ℕ} {idx : BitVec 32} (h : Recognised s)
    (hidx : s'.rpc.subscribeIdx = s.rpc.subscribeIdx)
    (hsub : s'.subscribed = (s.sendSubscribe session idx).subscribed)
    (hup : ∀ l' ∈ s'.loops, s'.Up l' → ∃ l ∈ s.loops, s.Up l ∧ l'.session = l.session ∧
      (∀ j ∈ s'.sending l', j ∈ s.sending l) ∧
      (∀ j ∈ s.sending l, j ∈ s'.sending l' ∨ l.session = session) ∧
      (l.session = session → idx ∈ s.sending l)) : Recognised s' := by
  constructor
  · intro l' hl' hlup j hj
    obtain ⟨l, hl, hlup, -, hfrom, -⟩ := hup l' hl' hlup
    rw [hidx]
    exact h.sending l hl hlup j (hfrom j hj)
  · intro l' hl' hlup hnil j hj
    obtain ⟨l, hl, hlup, hsession, -, hto, hsends⟩ := hup l' hl' hlup
    rw [hsub, hsession] at hj
    rw [hidx]
    by_cases heq : l.session = session
    · have hopen : session ∉ s.rpc.closed := heq ▸ hlup.2
      rw [sendSubscribe_subscribed idx _ hopen, if_pos heq] at hj
      obtain rfl := Option.some.inj hj
      exact h.sending l hl hlup idx (hsends heq)
    · rw [sendSubscribe_subscribed_of_ne idx heq] at hj
      refine h.sent l hl hlup (List.eq_nil_iff_forall_not_mem.mpr fun i hi => ?_) j hj
      obtain hi | hi := hto i hi
      · rw [hnil] at hi
        exact List.not_mem_nil hi
      · exact heq hi

/-! ## Steps aside -/

/-- Neither a session nor a frame of one goes on. -/
structure Aside (s s' : WsClient) : Prop extends SameSessions s s', SameFrames s s'

structure SameCells (s s' : WsClient) : Prop where
  subscribeIdx : s'.rpc.subscribeIdx = s.rpc.subscribeIdx
  closed : s.rpc.closed ⊆ s'.rpc.closed
  resubscribes : s'.resubscribes = s.resubscribes
  subscribed : s'.subscribed = s.subscribed
  nextSession : s'.nextSession = s.nextSession

theorem SameCells.of_stream {s s' : WsClient} (hr : SameStream s.rpc s'.rpc)
    (htasks : s'.resubscribes = s.resubscribes) (hsub : s'.subscribed = s.subscribed)
    (hnext : s'.nextSession = s.nextSession) : SameCells s s' where
  subscribeIdx := hr.subscribeIdx
  closed k hk := by rwa [hr.closed]
  resubscribes := htasks
  subscribed := hsub
  nextSession := hnext

/-- A loop in a session was in it before, and the session goes on as it was. -/
structure Kept (l l' : RunLoop) : Prop where
  inSession : l.pc.InSession
  session : l'.session = l.session
  sending : l'.pc.sending = l.pc.sending
  aborted : l'.aborted = false → l.aborted = false

namespace Aside

variable {s s' : WsClient}

theorem of_loops (hc : SameCells s s')
    (hloops : ∀ (i : ℕ) (l' : RunLoop), s'.loops[i]? = some l' → l'.pc.InSession →
      ∃ l, s.loops[i]? = some l ∧ Kept l l') : Aside s s' where
  loops i l' hl' hpc := by
    obtain ⟨l, hl, hkept⟩ := hloops i l' hl' hpc
    exact ⟨l, hl, hkept.inSession, hkept.session⟩
  tasks t ht := .inr ⟨t, hc.resubscribes ▸ ht, rfl⟩
  subscribers k hk := .inl (hc.subscribed ▸ hk)
  nextSession := hc.nextSession
  subscribed := hc.subscribed
  subscribeIdx := hc.subscribeIdx
  up l' hl' hup := by
    obtain ⟨i, hi⟩ := List.mem_iff_getElem?.mp hl'
    obtain ⟨l, hl, hkept⟩ := hloops i l' hi hup.1.2
    refine ⟨l, List.mem_of_getElem? hl, ⟨⟨hkept.aborted hup.1.1, hkept.inSession⟩, fun hclosed => ?_⟩,
      hkept.session, hkept.sending⟩
    exact hup.2 (hkept.session ▸ hc.closed hclosed)
  taskSends _ _ := by rw [TaskSends, TaskSends, hc.resubscribes]

theorem of_eq (hc : SameCells s s') (hloops : s'.loops = s.loops) : Aside s s' :=
  of_loops hc fun _ l' hl' hpc => ⟨l', hloops ▸ hl', hpc, rfl, rfl, id⟩

theorem modify (hc : SameCells s s') {i : ℕ} {l : RunLoop} (hl : s.loops[i]? = some l)
    {f : RunLoop → RunLoop} (hloops : s'.loops = s.loops.modify i f)
    (hf : (f l).pc.InSession → Kept l (f l)) : Aside s s' := by
  refine of_loops hc fun k l' hl' hpc => ?_
  rw [hloops] at hl'
  obtain ⟨rfl, rfl⟩ | ⟨-, hold⟩ := getElem?_modify_cases hl hl'
  · exact ⟨l, hl, hf hpc⟩
  · exact ⟨l', hold, hpc, rfl, rfl, id⟩

theorem setLoop (hc : SameCells s s') (hloops : s'.loops = s.loops) {i : ℕ} {l : RunLoop}
    (hl : s.loops[i]? = some l) {pc : LoopPc}
    (hpc : pc.InSession → l.pc.InSession ∧ pc.sending = l.pc.sending) : Aside s (s'.setLoop i pc) := by
  have hc' : SameCells s (s'.setLoop i pc) :=
    ⟨hc.subscribeIdx, hc.closed, hc.resubscribes, hc.subscribed, hc.nextSession⟩
  have hmod : (s'.setLoop i pc).loops = s.loops.modify i fun l => { l with pc } := by
    rw [WsClient.setLoop, hloops]
  exact modify hc' hl hmod fun h => ⟨(hpc h).1, rfl, (hpc h).2, id⟩

theorem rpc {r : RpcPlumbing} (hr : SameStream s.rpc r) : Aside s { s with rpc := r } :=
  of_eq (.of_stream hr rfl rfl rfl) rfl

theorem dropLoop (s : WsClient) (i : ℕ) : Aside s (s.dropLoop i) := by
  have hc : SameCells s s := .of_stream ⟨rfl, rfl⟩ rfl rfl rfl
  unfold WsClient.dropLoop
  split
  · next l hl =>
    split
    · exact setLoop hc rfl hl fun h => by cases h
    · exact of_eq hc rfl
  · exact of_eq hc rfl

theorem setterStep (s : WsClient) (n : ℕ) : Aside s (s.setterStep n) := by
  unfold WsClient.setterStep
  split
  · next c hc =>
    split
    · unfold WsClient.swap
      split <;> exact of_eq (.of_stream ⟨rfl, rfl⟩ rfl rfl rfl) rfl
    · split <;> exact of_eq (.of_stream ⟨rfl, rfl⟩ rfl rfl rfl) rfl
    · split <;> exact of_eq (.of_stream ⟨rfl, rfl⟩ rfl rfl rfl) rfl
    · exact of_eq (.of_stream ⟨rfl, rfl⟩ rfl rfl rfl) rfl
    · exact of_eq (.of_stream ⟨rfl, rfl⟩ rfl rfl rfl) rfl
    · exact of_eq (.of_stream ⟨rfl, rfl⟩ rfl rfl rfl) rfl
    · exact of_eq (.of_stream ⟨rfl, rfl⟩ rfl rfl rfl) rfl
    · exact of_eq (.of_stream ⟨rfl, rfl⟩ rfl rfl rfl) rfl
    · split <;> exact of_eq (.of_stream ⟨rfl, rfl⟩ rfl rfl rfl) rfl
    · exact of_eq (.of_stream ⟨rfl, rfl⟩ rfl rfl rfl) rfl
    · exact of_eq (.of_stream ⟨rfl, rfl⟩ rfl rfl rfl) rfl
    · -- The loop that is spawned is in no session.
      refine of_loops (.of_stream ⟨rfl, rfl⟩ rfl rfl rfl) fun i l' hl' hpc => ?_
      obtain hl' | ⟨-, rfl⟩ := getElem?_concat_eq_some hl'
      · exact ⟨l', hl', hpc, rfl, rfl, id⟩
      · cases hpc
    · exact of_eq (.of_stream ⟨rfl, rfl⟩ rfl rfl rfl) rfl
    · exact of_eq (.of_stream ⟨rfl, rfl⟩ rfl rfl rfl) rfl
    · refine of_loops (.of_stream ⟨rfl, rfl⟩ rfl rfl rfl) fun i l' hl' hpc => ?_
      obtain ⟨l, hl, rfl⟩ := getElem?_modify_eq_some hl'
      refine ⟨l, hl, ?_⟩
      split at hpc
      · next h =>
        rw [if_pos h]
        exact ⟨hpc, rfl, rfl, fun ha => by cases ha⟩
      · next h =>
        rw [if_neg h]
        exact ⟨hpc, rfl, rfl, id⟩
    · exact of_eq (.of_stream ⟨rfl, rfl⟩ rfl rfl rfl) rfl
    · exact of_eq (.of_stream ⟨rfl, rfl⟩ rfl rfl rfl) rfl
    · exact of_eq (.of_stream ⟨rfl, rfl⟩ rfl rfl rfl) rfl
  · exact of_eq (.of_stream ⟨rfl, rfl⟩ rfl rfl rfl) rfl

theorem taskWakes (s : WsClient) {j : ℕ} {t : Resubscribe} (ht : s.resubscribes[j]? = some t)
    (hpc : t.pc = .sleeping) {pc : ResubscribePc} (hsend : pc.sending = none) :
    Aside s { s with
      rpc := s.rpc.fetchAdd
      resubscribes := s.resubscribes.modify j fun t => { t with pc } } where
  loops _ l' hl' hl'pc := ⟨l', hl', hl'pc, rfl⟩
  tasks a ha := by
    obtain ha | ⟨b, hb, rfl⟩ := mem_of_mem_modify ha
    · exact .inr ⟨a, ha, rfl⟩
    · exact .inr ⟨b, List.mem_of_getElem? hb, rfl⟩
  subscribers _ hk := .inl hk
  nextSession := rfl
  subscribeIdx := rfl
  subscribed := rfl
  up l' hl' hup := ⟨l', hl', hup, rfl, rfl⟩
  taskSends session idx := by
    constructor
    · rintro ⟨a, ha, hsession, hidx⟩
      obtain ha | ⟨b, -, rfl⟩ := mem_of_mem_modify ha
      · exact ⟨a, ha, hsession, hidx⟩
      · rw [hsend] at hidx
        cases hidx
    · rintro ⟨a, ha, hsession, hidx⟩
      obtain hmem | ⟨rfl, -⟩ := mem_modify_of_mem ht ha fun t => { t with pc }
      · exact ⟨a, hmem, hsession, hidx⟩
      · simp [hpc] at hidx

theorem taskSpawned (s : WsClient) {session : ℕ} (hknown : s.Known session) :
    Aside s { s with resubscribes := s.resubscribes ++ [{ session := session : Resubscribe }] } where
  loops _ l' hl' hl'pc := ⟨l', hl', hl'pc, rfl⟩
  tasks a ha := by
    obtain ha | ha := List.mem_append.mp ha
    · exact .inr ⟨a, ha, rfl⟩
    · obtain rfl := List.mem_singleton.mp ha
      exact hknown
  subscribers _ hk := .inl hk
  nextSession := rfl
  subscribeIdx := rfl
  subscribed := rfl
  up l' hl' hup := ⟨l', hl', hup, rfl, rfl⟩
  taskSends session idx := by
    constructor
    · rintro ⟨a, ha, hsession, hidx⟩
      obtain ha | ha := List.mem_append.mp ha
      · exact ⟨a, ha, hsession, hidx⟩
      · obtain rfl := List.mem_singleton.mp ha
        cases hidx
    · rintro ⟨a, ha, hsession, hidx⟩
      exact ⟨a, List.mem_append_left _ ha, hsession, hidx⟩

end Aside

/-! ## Tracked sessions -/

structure Tracked (s : WsClient) : Prop extends Numbered s, Recognised s

namespace Tracked

variable {s s' : WsClient}

theorem step (h : Tracked s) (ha : Aside s s') : Tracked s' :=
  ⟨h.toNumbered.step ha.toSameSessions, h.toRecognised.step ha.toSameFrames⟩

theorem install (h : Tracked s) {i : ℕ} {l : RunLoop} (hl : s.loops[i]? = some l) :
    Tracked { s with
      rpc := s.rpc.installSender s.nextSession
      nextSession := s.nextSession + 1
      loops := s.loops.modify i fun l => { l with pc := .reading, session := s.nextSession } } := by
  have before : ∀ (k : ℕ) (l' : RunLoop), (s.loops.modify i fun l =>
      { l with pc := .reading, session := s.nextSession })[k]? = some l' →
      (k = i ∧ l'.session = s.nextSession ∧ l'.pc = .reading) ∨ (k ≠ i ∧ s.loops[k]? = some l') := by
    intro k l' hl'
    obtain ⟨hk, rfl⟩ | hold := getElem?_modify_cases hl hl'
    · exact .inl ⟨hk, rfl, rfl⟩
    · exact .inr hold
  have old : ∀ {k : ℕ} {l' : RunLoop}, s.loops[k]? = some l' → l'.pc.InSession → l'.session < s.nextSession :=
    fun hl' hpc => h.loops _ (List.mem_of_getElem? hl') hpc
  have fresh : s.subscribed s.nextSession = none := by
    by_contra hne
    exact Nat.lt_irrefl _ (h.subscribed _ hne)
  refine ⟨⟨fun l' hl' hpc => ?_, fun t ht => ?_, fun k hk => ?_, fun j k a b ha hb hapc hbpc heq => ?_⟩,
    ⟨fun l' hl' hup idx hidx => ?_, fun l' hl' hup hnil idx hidx => ?_⟩⟩
  · obtain ⟨k, hk⟩ := List.mem_iff_getElem?.mp hl'
    obtain ⟨-, hsession, -⟩ | ⟨-, hold⟩ := before k l' hk
    · exact hsession ▸ Nat.lt_succ_self _
    · exact Nat.lt_succ_of_lt (old hold hpc)
  · exact Nat.lt_succ_of_lt (h.tasks t ht)
  · exact Nat.lt_succ_of_lt (h.subscribed k hk)
  · obtain ⟨rfl, hanew, -⟩ | ⟨-, haold⟩ := before j a ha
    · obtain ⟨rfl, -, -⟩ | ⟨-, hbold⟩ := before k b hb
      · rfl
      · have hlt := old hbold hbpc
        omega
    · obtain ⟨rfl, hbnew, -⟩ | ⟨-, hbold⟩ := before k b hb
      · have hlt := old haold hapc
        omega
      · exact h.distinct j k a b haold hbold hapc hbpc heq
  · obtain ⟨k, hk⟩ := List.mem_iff_getElem?.mp hl'
    obtain ⟨-, hsession, hreading⟩ | ⟨-, hold⟩ := before k l' hk
    · obtain hpc | ⟨t, ht, htsession, -⟩ := mem_sending.mp hidx
      · simp [hreading] at hpc
      · have hlt := h.tasks t ht
        omega
    · exact h.sending l' (List.mem_of_getElem? hold) hup idx hidx
  · obtain ⟨k, hk⟩ := List.mem_iff_getElem?.mp hl'
    obtain ⟨-, hsession, -⟩ | ⟨-, hold⟩ := before k l' hk
    · rw [hsession, fresh] at hidx
      cases hidx
    · exact h.sent l' (List.mem_of_getElem? hold) hup hnil idx hidx

/-! What a loop stores and sends -/

theorem loopStore (h : Tracked s) {i : ℕ} {l : RunLoop} {idx : BitVec 32} (hl : s.loops[i]? = some l)
    (hpc : l.pc = .store idx) (hmay : s.MayStore l.session) :
    Tracked ({ s with rpc := s.rpc.setSubscribeIdx idx }.setLoop i (.send idx)) := by
  have hin : l.pc.InSession := by simp [hpc]
  refine ⟨h.toNumbered.step (.modify hl rfl (fun _ => ⟨hin, rfl⟩) rfl (fun _ hk => .inl hk) rfl),
    .store hmay rfl rfl fun l' hl' hup => ?_⟩
  obtain ⟨k, hk⟩ := List.mem_iff_getElem?.mp hl'
  obtain ⟨rfl, rfl⟩ | ⟨hne, hold⟩ := getElem?_modify_cases hl hk
  · refine ⟨l, List.mem_of_getElem? hl, ⟨⟨hup.1.1, hin⟩, hup.2⟩, rfl, fun j hj => ?_, fun _ => ?_⟩
    · obtain hj | hj := mem_sending.mp hj
      · exact .inr (Option.some.inj hj).symm
      · exact .inl (mem_sending.mpr (.inr hj))
    · exact mem_sending.mpr (.inl rfl)
  · exact ⟨l', List.mem_of_getElem? hold, hup, rfl, fun j hj => .inl hj,
      fun heq => absurd heq (h.other hl hold hne hin hup.1.2)⟩

theorem sendSubscribe_known {session : ℕ} {idx : BitVec 32} (hknown : s.Known session) (k : ℕ)
    (hk : (s.sendSubscribe session idx).subscribed k ≠ none) : s.subscribed k ≠ none ∨ s.Known k := by
  by_cases heq : k = session
  · exact .inr (heq ▸ hknown)
  · rw [sendSubscribe_subscribed_of_ne idx heq] at hk
    exact .inl hk

theorem loopSend (h : Tracked s) {i : ℕ} {l : RunLoop} {idx : BitVec 32} (hl : s.loops[i]? = some l)
    (hpc : l.pc = .send idx) : Tracked ((s.sendSubscribe l.session idx).setLoop i .reading) := by
  have hin : l.pc.InSession := by simp [hpc]
  have hknown : s.Known l.session := .inl ⟨l, List.mem_of_getElem? hl, hin, rfl⟩
  have hmod : ((s.sendSubscribe l.session idx).setLoop i .reading).loops =
      s.loops.modify i fun l => { l with pc := .reading } := by simp [setLoop]
  have hsends : ∀ l' : RunLoop, ((s.sendSubscribe l.session idx).setLoop i .reading).sending l' =
      s.sending l' := fun l' => by simp [sending, setLoop]
  refine ⟨h.toNumbered.step (.modify hl hmod (fun _ => ⟨hin, rfl⟩) (by simp [setLoop])
    (sendSubscribe_known hknown) (by simp [setLoop])), h.toRecognised.send (by simp [setLoop]) rfl
    fun l' hl' hup => ?_⟩
  obtain ⟨k, hk⟩ := List.mem_iff_getElem?.mp hl'
  rw [hmod] at hk
  have hup' : s.Up l' := ⟨hup.1, by simpa [setLoop] using hup.2⟩
  rw [hsends]
  obtain ⟨rfl, rfl⟩ | ⟨hne, hold⟩ := getElem?_modify_cases hl hk
  · refine ⟨l, List.mem_of_getElem? hl, ⟨⟨hup'.1.1, hin⟩, hup'.2⟩, rfl, fun j hj => ?_, fun _ _ => .inr rfl,
      fun _ => mem_sending.mpr (.inl (by simp [hpc]))⟩
    obtain hj | hj := mem_sending.mp hj
    · cases hj
    · exact mem_sending.mpr (.inr hj)
  · exact ⟨l', List.mem_of_getElem? hold, hup', rfl, fun _ hj => hj, fun _ hj => .inl hj,
      fun heq => absurd heq (h.other hl hold hne hin hup'.1.2)⟩

/-! What a task stores and sends -/

theorem sameSessions_task {j : ℕ} {pc : ResubscribePc} (hloops : s'.loops = s.loops)
    (htasks : s'.resubscribes = s.resubscribes.modify j fun t => { t with pc })
    (hsub : ∀ k, s'.subscribed k ≠ none → s.subscribed k ≠ none ∨ s.Known k)
    (hnext : s'.nextSession = s.nextSession) : SameSessions s s' where
  loops _ l' hl' hpc := ⟨l', hloops ▸ hl', hpc, rfl⟩
  tasks a ha := by
    rw [htasks] at ha
    obtain ha | ⟨t, ht, rfl⟩ := mem_of_mem_modify ha
    · exact .inr ⟨a, ha, rfl⟩
    · exact .inr ⟨t, List.mem_of_getElem? ht, rfl⟩
  subscribers := hsub
  nextSession := hnext

theorem taskStore (h : Tracked s) {j : ℕ} {t : Resubscribe} (ht : s.resubscribes[j]? = some t)
    (idx : BitVec 32) (hmay : s.MayStore t.session) :
    Tracked { s with
      rpc := s.rpc.setSubscribeIdx idx
      resubscribes := s.resubscribes.modify j fun t => { t with pc := .send idx } } := by
  refine ⟨h.toNumbered.step (sameSessions_task rfl rfl (fun _ hk => .inl hk) rfl),
    .store hmay rfl rfl fun l hl hup => ⟨l, hl, hup, rfl, fun i hi => ?_, fun heq => ?_⟩⟩
  · obtain hi | ⟨a, ha, hsession, hi⟩ := mem_sending.mp hi
    · exact .inl (mem_sending.mpr (.inl hi))
    · obtain ha | ⟨b, -, rfl⟩ := mem_of_mem_modify ha
      · exact .inl (mem_sending.mpr (.inr ⟨a, ha, hsession, hi⟩))
      · exact .inr (Option.some.inj hi).symm
  · have hmem := List.mem_of_getElem? (getElem?_modify_of_eq_some ht j fun t => { t with pc := .send idx })
    rw [if_pos rfl] at hmem
    exact mem_sending.mpr (.inr ⟨_, hmem, heq.symm, rfl⟩)

theorem taskSend (h : Tracked s) {j : ℕ} {t : Resubscribe} {idx : BitVec 32}
    (ht : s.resubscribes[j]? = some t) (hpc : t.pc = .send idx) :
    Tracked { s.sendSubscribe t.session idx with
      resubscribes := (s.sendSubscribe t.session idx).resubscribes.modify j fun t =>
        { t with pc := .done } } := by
  have hknown : s.Known t.session := .inr ⟨t, List.mem_of_getElem? ht, rfl⟩
  have htasks := congrArg (fun ts : List Resubscribe => ts.modify j fun t => { t with pc := .done })
    (s.sendSubscribe_resubscribes t.session idx)
  refine ⟨h.toNumbered.step (sameSessions_task (s.sendSubscribe_loops _ _) htasks
    (sendSubscribe_known hknown) (s.sendSubscribe_nextSession _ _)),
    h.toRecognised.send (congrArg _ (s.sendSubscribe_rpc t.session idx)) rfl fun l hl hup => ?_⟩
  refine ⟨l, by simpa using hl, ⟨hup.1, by simpa using hup.2⟩, rfl, fun i hi => ?_, fun i hi => ?_,
    fun heq => mem_sending.mpr (.inr ⟨t, List.mem_of_getElem? ht, heq.symm, by simp [hpc]⟩)⟩
  · obtain hi | ⟨a, ha, hsession, hi⟩ := mem_sending.mp hi
    · exact mem_sending.mpr (.inl hi)
    · simp only [sendSubscribe_resubscribes] at ha
      obtain ha | ⟨b, -, rfl⟩ := mem_of_mem_modify ha
      · exact mem_sending.mpr (.inr ⟨a, ha, hsession, hi⟩)
      · cases hi
  · obtain hi | ⟨a, ha, hsession, hi⟩ := mem_sending.mp hi
    · exact .inl (mem_sending.mpr (.inl hi))
    · obtain hmem | ⟨rfl, -⟩ := mem_modify_of_mem ht ha fun t => { t with pc := .done }
      · exact .inl (mem_sending.mpr (.inr ⟨a, by simpa using hmem, hsession, hi⟩))
      · exact .inr hsession.symm

theorem resubscribeStep (h : Tracked s) {j : ℕ} (hord : Orderly s (.resubscribe j)) :
    Tracked (s.resubscribeStep j) := by
  unfold WsClient.resubscribeStep
  split
  · next t ht =>
    dsimp only
    split
    · next hpc => exact h.step (.taskWakes s ht hpc rfl)
    · next hpc => exact h.taskStore ht _ (hord t ht (by simp [hpc]))
    · next hpc => exact h.taskSend ht hpc
    · exact h
  · exact h

/-! Loops -/

theorem onRpcFrame (h : Tracked s) {i : ℕ} {l : RunLoop} (hl : s.loops[i]? = some l)
    (hpc : l.pc = .reading) (resp : RpcResponse) : Tracked (s.onRpcFrame i l resp) := by
  have hr := SameStream.dispatch s.rpc resp
  unfold WsClient.onRpcFrame
  split
  · next rpc heq =>
    rw [heq] at hr
    have hcells : SameCells s { s with rpc } := .of_stream hr rfl rfl rfl
    exact h.step (.setLoop hcells rfl hl fun _ => by simp [hpc])
  · next heq =>
    rw [heq] at hr
    have hrpc := h.step (.rpc hr)
    exact hrpc.step (.taskSpawned _ (.inl ⟨l, List.mem_of_getElem? hl, by simp [hpc], rfl⟩))
  · next heq =>
    rw [heq] at hr
    exact h.step (.rpc hr)
  · next heq =>
    rw [heq] at hr
    exact h.step (.rpc hr)

theorem loopGo (h : Tracked s) {i : ℕ} {l : RunLoop} (hl : s.loops[i]? = some l)
    (hmay : l.pc.Storing → s.MayStore l.session) : Tracked (s.loopGo i l) := by
  have goOn : ∀ {s' : WsClient} {pc : LoopPc}, SameStream s.rpc s'.rpc → s'.loops = s.loops →
      s'.resubscribes = s.resubscribes → s'.subscribed = s.subscribed → s'.nextSession = s.nextSession →
      (pc.InSession → l.pc.InSession ∧ pc.sending = l.pc.sending) → Tracked (s'.setLoop i pc) :=
    fun hr hloops htasks hsub hnext hpc => h.step (.setLoop (.of_stream hr htasks hsub hnext) hloops hl hpc)
  unfold WsClient.loopGo
  split
  · exact goOn ⟨rfl, rfl⟩ rfl rfl rfl rfl (by split <;> simp)
  · exact goOn ⟨rfl, rfl⟩ rfl rfl rfl rfl (by simp)
  · exact h.install hl
  · next hpc => exact goOn ⟨rfl, rfl⟩ rfl rfl rfl rfl (by simp [hpc])
  · next hpc => exact goOn ⟨rfl, rfl⟩ rfl rfl rfl rfl (by simp [hpc])
  · next hpc => exact h.loopStore hl hpc (hmay (by simp [hpc]))
  · next hpc => exact h.loopSend hl hpc
  · exact goOn ⟨rfl, rfl⟩ rfl rfl rfl rfl (by simp)
  · exact goOn ⟨rfl, rfl⟩ rfl rfl rfl rfl (by simp)
  · exact goOn ⟨rfl, rfl⟩ rfl rfl rfl rfl (by simp)
  · exact goOn ⟨rfl, rfl⟩ rfl rfl rfl rfl (by split <;> simp)
  · split
    · exact h
    · exact goOn ⟨rfl, rfl⟩ rfl rfl rfl rfl (by simp)
  · exact h
  · exact h
  · exact h

theorem loopStep (h : Tracked s) {i : ℕ} {input : LoopInput} (hord : Orderly s (.loop i input)) :
    Tracked (s.loopStep i input) := by
  unfold WsClient.loopStep
  split
  · next l hl =>
    have goOn : ∀ {pc : LoopPc}, (pc.InSession → l.pc.InSession ∧ pc.sending = l.pc.sending) →
        Tracked (s.setLoop i pc) :=
      fun hpc => h.step (.setLoop (.of_stream ⟨rfl, rfl⟩ rfl rfl rfl) rfl hl hpc)
    split
    · exact h.loopGo hl (hord l hl)
    · split
      · exact goOn (by simp)
      · exact h
    · split
      · exact goOn (by simp)
      · exact h
    · split
      · next hpc => exact goOn (by split <;> simp [hpc])
      · exact h
    · split
      · exact goOn (by simp)
      · exact h
    · next resp =>
      split
      · next hpc => exact h.onRpcFrame hl hpc resp
      · exact h
    · split
      · exact goOn (by simp)
      · exact h
  · exact h

theorem move (h : Tracked s) {m : WsMove} (hord : Orderly s m) : Tracked (s.move m) := by
  cases m with
  | set input => exact h.step (.of_eq (.of_stream ⟨rfl, rfl⟩ rfl rfl rfl) rfl)
  | setter n => exact h.step (.setterStep s n)
  | loop i input => exact h.loopStep hord
  | drop i => exact h.step (.dropLoop s i)
  | resubscribe j => exact h.resubscribeStep hord
  | rpcCall => exact h.step (.rpc ⟨rfl, rfl⟩)
  | rpcStep n => exact h.step (.rpc (.rpcStep s.rpc n))
  | rpcTimeout n => exact h.step (.rpc (.timeout s.rpc n))
  | close k => exact h.step (.of_eq ⟨rfl, fun _ hk => List.mem_cons_of_mem _ hk, rfl, rfl, rfl⟩ rfl)

end Tracked

theorem Orderly.leavesIdx {s : WsClient} {m : WsMove} (hord : Orderly s m) : LeavesIdx s m := by
  cases m with
  | resubscribe j =>
    intro t ht l hl hup hne hsub
    have ht : s.resubscribes[j]? = some t := ht
    simp only [resubscribeStep, ht]
    split
    · rfl
    · next hpc => exact absurd ((hord t ht (by simp [hpc]) l hl hup).2 hne) hsub
    · exact congrArg _ (s.sendSubscribe_rpc _ _)
    · rfl
  | set _ | setter _ | loop _ _ | drop _ | rpcCall | rpcStep _ | rpcTimeout _ | close _ => trivial

/-- In an orderly run what a live session is subscribed with is recognised. -/
theorem subscription_recognised (ms : List WsMove) (h : Along move Orderly {} ms) :
    Recognised (run {} ms) ∧ Along move LeavesIdx {} ms := by
  have hinit : Tracked {} := ⟨⟨by simp, by simp, by simp, by simp⟩, ⟨by simp, by simp⟩⟩
  have hstep : ∀ s m, Orderly s m → Tracked s → Tracked (s.move m) := fun _ _ hord ht => ht.move hord
  exact ⟨(Along.invariant hstep hinit h).toRecognised,
    h.imp (fun s m hord ht => ⟨hstep s m hord ht, hord.leavesIdx⟩) hinit⟩

/-- The server ends the stream of the first subscription with an error. -/
def streamFailed : List WsMove :=
  WsMove.set (.token (some "a")) :: List.replicate 10 (WsMove.setter 0) ++ connected 0 ++
    [WsMove.loop 0 (.response { idx := 1, error := some { code := 14 } })]

/-- The task subscribes again on the session that it was spawned in. -/
theorem subscription_recognised_again :
    Recognised (run {} (streamFailed ++ List.replicate 3 (WsMove.resubscribe 0))) ∧
      Along move LeavesIdx {} (streamFailed ++ List.replicate 3 (WsMove.resubscribe 0)) :=
  subscription_recognised _ (by decide +kernel)

/-- The user disconnects and connects again before the task wakes. -/
def resubscribedLate : List WsMove :=
  streamFailed ++ WsMove.set (.userDisconnect true) :: List.replicate 11 (WsMove.setter 1) ++
    [WsMove.drop 0, .close 0, .set (.userDisconnect false)] ++ List.replicate 10 (WsMove.setter 2) ++
    connected 1 ++ List.replicate 3 (WsMove.resubscribe 0)

/-- The task of the first session stores its `idx` over that of the second. -/
theorem subscription_orphaned : ¬ Recognised (run {} resubscribedLate) := by
  intro h
  have hlive : (run {} resubscribedLate).loops[1]? =
      some { token := "a", pc := .reading, session := 1 } := by decide +kernel
  have hsent := h.sent _ (List.mem_of_getElem? hlive) (by decide +kernel) (by decide +kernel) 2
    (by decide +kernel)
  have hidx : (run {} resubscribedLate).rpc.subscribeIdx = 3 := by decide +kernel
  rw [hidx] at hsent
  cases hsent

end WsClient

end BaleVpn.Signaling
