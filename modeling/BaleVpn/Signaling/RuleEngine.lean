import BaleVpn.Lib.Machine
import BaleVpn.Lib.Update
import BaleVpn.Signaling.WsClient

/-!
# The rule engine

When all setters have returned, the slot is occupied just when the rule wants the connection up, and no
two run loops that were not aborted are ever there at once: the last setter that changed an input
evaluates the rule after every swap before it, or some later one does.
-/

namespace BaleVpn.Signaling

open Lib

namespace SetterPc

/-- The slot's lock is held. -/
@[simp]
def Held : SetterPc → Bool
  | .reap | .reapRunning | .reapReady | .hasToken | .userDisconnect | .managerActive | .decide _
  | .takeToken | .startRunning _ | .spawn _ | .stopRunning _ | .stopReady _ | .abort _ => true
  | .swap | .lock | .clearSender _ | .drainPending _ | .returned => false

/-- The slot was found empty. -/
@[simp]
def Spawning : SetterPc → Bool
  | .takeToken | .startRunning _ | .spawn _ => true
  | .swap | .lock | .reap | .reapRunning | .reapReady | .hasToken | .userDisconnect | .managerActive
  | .decide _ | .stopRunning _ | .stopReady _ | .abort _ | .clearSender _ | .drainPending _
  | .returned => false

/-- The loop that was found in the slot, and is about to be aborted. -/
@[simp]
def stopping : SetterPc → Option ℕ
  | .stopRunning i | .stopReady i | .abort i => some i
  | .swap | .lock | .reap | .reapRunning | .reapReady | .hasToken | .userDisconnect | .managerActive
  | .decide _ | .takeToken | .startRunning _ | .spawn _ | .clearSender _ | .drainPending _
  | .returned => none

theorem held_of_spawning {pc : SetterPc} (h : pc.Spawning) : pc.Held := by
  cases pc <;> simp at h ⊢

theorem held_of_stopping {pc : SetterPc} {i : ℕ} (h : pc.stopping = some i) : pc.Held := by
  cases pc <;> simp at h ⊢

end SetterPc

/-- The loop may make another connection attempt. One that was aborted does not outlast its next backoff,
and does not get that far from inside a session. -/
def RunLoop.MayAttempt (l : RunLoop) : Prop :=
  match l.pc with
  | .top | .attempt => True
  | .ended outcome | .clearSender outcome | .drainPending outcome | .outcome outcome =>
    outcome = .disconnected ∧ l.aborted = false
  | .connecting | .install | .reading | .ready | .subscribe | .store _ | .send _ | .sleeping =>
    l.aborted = false
  | .finished => False

instance (l : RunLoop) : Decidable l.MayAttempt := by
  unfold RunLoop.MayAttempt
  cases l.pc <;> infer_instance

namespace WsClient

/-! ## What the rule engine sees of a loop -/

/-- A loop goes on. -/
structure Onward (l l' : RunLoop) : Prop where
  token : l'.token = l.token
  aborted : l'.aborted = l.aborted
  finished : l.pc = .finished → l'.pc = .finished
  attempts : l'.MayAttempt → l.MayAttempt

theorem Onward.refl (l : RunLoop) : Onward l l := ⟨rfl, rfl, id, id⟩

structure SameInputs (s s' : WsClient) : Prop where
  token : s'.accessToken = s.accessToken
  disconnect : s'.userDisconnect = s.userDisconnect
  active : s'.managerActive = s.managerActive

/-- The inputs, the setters and the slot stay as they are. -/
structure SameSlot (s s' : WsClient) : Prop extends SameInputs s s' where
  setters : s'.setters = s.setters
  lockedBy : s'.lockedBy = s.lockedBy
  handle : s'.runloopHandle = s.runloopHandle

/-- So they do, and the loops go on. -/
structure SameRules (s s' : WsClient) : Prop extends SameSlot s s' where
  loops : ∀ (i : ℕ) (l' : RunLoop), s'.loops[i]? = some l' → ∃ l, s.loops[i]? = some l ∧ Onward l l'

theorem SameSlot.same {s s' : WsClient} (h : SameSlot s s') (hloops : s'.loops = s.loops) :
    SameRules s s' :=
  { h with loops := fun _ l hl => ⟨l, hloops ▸ hl, .refl l⟩ }

theorem SameSlot.modify {s s' : WsClient} (h : SameSlot s s') {i : ℕ} {l : RunLoop}
    (hl : s.loops[i]? = some l) {f : RunLoop → RunLoop} (hloops : s'.loops = s.loops.modify i f)
    (hf : Onward l (f l)) : SameRules s s' where
  toSameSlot := h
  loops k l' hl' := by
    rw [hloops] at hl'
    obtain ⟨rfl, rfl⟩ | ⟨-, hold⟩ := getElem?_modify_cases hl hl'
    · exact ⟨l, hl, hf⟩
    · exact ⟨l', hold, .refl l'⟩

@[simp]
theorem sendSubscribe_loops (s : WsClient) (session : ℕ) (idx : BitVec 32) :
    (s.sendSubscribe session idx).loops = s.loops := by
  unfold sendSubscribe
  split <;> rfl

theorem sameSlot_sendSubscribe (s : WsClient) (session : ℕ) (idx : BitVec 32) :
    SameSlot s (s.sendSubscribe session idx) := by
  unfold sendSubscribe
  split <;> exact ⟨⟨rfl, rfl, rfl⟩, rfl, rfl, rfl⟩

theorem sameSlot_setLoop (s : WsClient) (i : ℕ) (pc : LoopPc) : SameSlot s (s.setLoop i pc) :=
  ⟨⟨rfl, rfl, rfl⟩, rfl, rfl, rfl⟩

theorem SameSlot.trans {s s' s'' : WsClient} (h : SameSlot s s') (h' : SameSlot s' s'') : SameSlot s s'' :=
  ⟨⟨h'.token.trans h.token, h'.disconnect.trans h.disconnect, h'.active.trans h.active⟩,
    h'.setters.trans h.setters, h'.lockedBy.trans h.lockedBy, h'.handle.trans h.handle⟩

theorem SameSlot.setLoop {s s' : WsClient} (h : SameSlot s s') (hloops : s'.loops = s.loops) {i : ℕ}
    {l : RunLoop} (hl : s.loops[i]? = some l) {pc : LoopPc} (hpc : l.pc ≠ .finished)
    (hmay : RunLoop.MayAttempt { l with pc } → l.MayAttempt) : SameRules s (s'.setLoop i pc) := by
  have hmod : (s'.setLoop i pc).loops = s.loops.modify i fun l => { l with pc } := by
    rw [WsClient.setLoop, hloops]
  exact (h.trans (s'.sameSlot_setLoop i pc)).modify hl hmod ⟨rfl, rfl, fun hf => absurd hf hpc, hmay⟩

theorem sameRules_loopGo (s : WsClient) {i : ℕ} {l : RunLoop} (hl : s.loops[i]? = some l) :
    SameRules s (s.loopGo i l) := by
  have same : SameSlot s s := ⟨⟨rfl, rfl, rfl⟩, rfl, rfl, rfl⟩
  -- No other cell that the step writes is one of the rule engine's.
  have goOn : ∀ {s' : WsClient} {pc : LoopPc}, SameSlot s s' → s'.loops = s.loops → l.pc ≠ .finished →
      (RunLoop.MayAttempt { l with pc } → l.MayAttempt) → SameRules s (s'.setLoop i pc) :=
    fun hslot hloops hne hmay => hslot.setLoop hloops hl hne hmay
  unfold loopGo
  split
  · next hpc => exact goOn same rfl (by simp [hpc]) fun _ => by simp [RunLoop.MayAttempt, hpc]
  · next hpc => exact goOn same rfl (by simp [hpc]) fun _ => by simp [RunLoop.MayAttempt, hpc]
  · next hpc =>
    refine SameSlot.modify ⟨⟨rfl, rfl, rfl⟩, rfl, rfl, rfl⟩ hl rfl ⟨rfl, rfl, fun hf => ?_, fun hm => ?_⟩
    · simp [hpc] at hf
    · simpa [RunLoop.MayAttempt, hpc] using hm
  · next hpc =>
    refine goOn ⟨⟨rfl, rfl, rfl⟩, rfl, rfl, rfl⟩ rfl (by simp [hpc]) fun hm => ?_
    simpa [RunLoop.MayAttempt, hpc] using hm
  · next hpc =>
    refine goOn ⟨⟨rfl, rfl, rfl⟩, rfl, rfl, rfl⟩ rfl (by simp [hpc]) fun hm => ?_
    simpa [RunLoop.MayAttempt, hpc] using hm
  · next hpc =>
    refine goOn ⟨⟨rfl, rfl, rfl⟩, rfl, rfl, rfl⟩ rfl (by simp [hpc]) fun hm => ?_
    simpa [RunLoop.MayAttempt, hpc] using hm
  · next idx hpc =>
    refine goOn (s.sameSlot_sendSubscribe l.session idx) (by simp) (by simp [hpc]) fun hm => ?_
    simpa [RunLoop.MayAttempt, hpc] using hm
  · next hpc =>
    refine goOn ⟨⟨rfl, rfl, rfl⟩, rfl, rfl, rfl⟩ rfl (by simp [hpc]) fun hm => ?_
    simpa [RunLoop.MayAttempt, hpc] using hm
  · next hpc =>
    refine goOn ⟨⟨rfl, rfl, rfl⟩, rfl, rfl, rfl⟩ rfl (by simp [hpc]) fun hm => ?_
    simpa [RunLoop.MayAttempt, hpc] using hm
  · next hpc =>
    refine goOn ⟨⟨rfl, rfl, rfl⟩, rfl, rfl, rfl⟩ rfl (by simp [hpc]) fun hm => ?_
    simpa [RunLoop.MayAttempt, hpc] using hm
  · next outcome hpc =>
    refine goOn same rfl (by simp [hpc]) fun hm => ?_
    split at hm
    · next h => simpa [RunLoop.MayAttempt, hpc, h.1] using hm
    · exact hm.elim
  · next hpc =>
    split
    · exact same.same rfl
    · next ha =>
      refine goOn same rfl (by simp [hpc]) fun _ => ?_
      simpa [RunLoop.MayAttempt, hpc] using ha
  · exact same.same rfl
  · exact same.same rfl
  · exact same.same rfl

theorem sameRules_onRpcFrame (s : WsClient) {i : ℕ} {l : RunLoop} (hl : s.loops[i]? = some l)
    (hpc : l.pc = .reading) (resp : RpcResponse) : SameRules s (s.onRpcFrame i l resp) := by
  unfold onRpcFrame
  split
  · next rpc _ =>
    have hrpc : SameSlot s { s with rpc } := ⟨⟨rfl, rfl, rfl⟩, rfl, rfl, rfl⟩
    refine hrpc.setLoop rfl hl (by simp [hpc]) fun hm => ?_
    simpa [RunLoop.MayAttempt, hpc] using hm
  · exact SameSlot.same ⟨⟨rfl, rfl, rfl⟩, rfl, rfl, rfl⟩ rfl
  · exact SameSlot.same ⟨⟨rfl, rfl, rfl⟩, rfl, rfl, rfl⟩ rfl
  · exact SameSlot.same ⟨⟨rfl, rfl, rfl⟩, rfl, rfl, rfl⟩ rfl

theorem sameRules_loopStep (s : WsClient) (i : ℕ) (input : LoopInput) :
    SameRules s (s.loopStep i input) := by
  have same : SameSlot s s := ⟨⟨rfl, rfl, rfl⟩, rfl, rfl, rfl⟩
  unfold loopStep
  split
  · next l hl =>
    -- A loop that waits goes on, and is not aborted if it may attempt again.
    have waits : ∀ {pc pc' : LoopPc}, l.pc = pc → pc ∈ [.connecting, .reading] →
        (RunLoop.MayAttempt { l with pc := pc' } → l.aborted = false) → SameRules s (s.setLoop i pc') := by
      intro pc pc' hpc hmem hmay
      refine same.setLoop rfl hl ?_ fun hm => ?_
      · rintro hf
        simp [← hpc, hf] at hmem
      · have ha := hmay hm
        simp only [List.mem_cons, List.not_mem_nil, or_false] at hmem
        obtain rfl | rfl := hmem <;> simpa [RunLoop.MayAttempt, hpc] using ha
    split
    · exact s.sameRules_loopGo hl
    · split
      · next hpc => exact waits hpc (by simp) id
      · exact same.same rfl
    · split
      · next hpc => exact waits hpc (by simp) fun hm => hm.2
      · exact same.same rfl
    · split
      · next wellFormed hpc =>
        refine waits hpc (by simp) fun hm => ?_
        split at hm <;> exact hm
      · exact same.same rfl
    · split
      · next hpc => exact waits hpc (by simp) fun hm => hm.2
      · exact same.same rfl
    · next resp =>
      split
      · next hpc => exact s.sameRules_onRpcFrame hl hpc resp
      · exact same.same rfl
    · split
      · next hpc => exact waits hpc (by simp) fun hm => hm.2
      · exact same.same rfl
  · exact same.same rfl

theorem sameRules_dropLoop (s : WsClient) (i : ℕ) : SameRules s (s.dropLoop i) := by
  have same : SameRules s s := SameSlot.same ⟨⟨rfl, rfl, rfl⟩, rfl, rfl, rfl⟩ rfl
  unfold dropLoop
  split
  · next l hl =>
    split
    · exact (s.sameSlot_setLoop i _).modify hl rfl ⟨rfl, rfl, fun _ => rfl, False.elim⟩
    · exact same
  · exact same

theorem sameRules_resubscribeStep (s : WsClient) (j : ℕ) : SameRules s (s.resubscribeStep j) := by
  have same : SameRules s s := SameSlot.same ⟨⟨rfl, rfl, rfl⟩, rfl, rfl, rfl⟩ rfl
  unfold resubscribeStep
  split
  · next t ht =>
    dsimp only
    split
    · exact SameSlot.same ⟨⟨rfl, rfl, rfl⟩, rfl, rfl, rfl⟩ rfl
    · exact SameSlot.same ⟨⟨rfl, rfl, rfl⟩, rfl, rfl, rfl⟩ rfl
    · next idx _ =>
      have hslot := s.sameSlot_sendSubscribe t.session idx
      have htask : SameSlot (s.sendSubscribe t.session idx) { s.sendSubscribe t.session idx with
          resubscribes := (s.sendSubscribe t.session idx).resubscribes.modify j fun t =>
            { t with pc := .done } } := ⟨⟨rfl, rfl, rfl⟩, rfl, rfl, rfl⟩
      exact (hslot.trans htask).same (by simp)
    · exact same
  · exact same

/-! ## Convergence -/

/-- `evaluate` is still to read the inputs, or what it has read of them is right. -/
def Fresh (s : WsClient) : SetterPc → Prop
  | .lock | .reap | .reapRunning | .reapReady | .hasToken => True
  | .userDisconnect => s.accessToken.isSome = true
  | .managerActive => s.accessToken.isSome = true ∧ s.userDisconnect = false
  | .decide want => want = s.desiredUp
  | .takeToken | .startRunning _ | .spawn _ => s.desiredUp = true
  | .stopRunning _ | .stopReady _ | .abort _ => s.desiredUp = false
  | .swap | .clearSender _ | .drainPending _ | .returned => False

structure Consistent (s : WsClient) : Prop where
  held : ∀ (n : ℕ) (c : Setter), s.setters[n]? = some c → c.pc.Held → s.lockedBy = some n
  vacant : ∀ (n : ℕ) (c : Setter), s.setters[n]? = some c → c.pc.Spawning → s.runloopHandle = none
  taken : ∀ (n : ℕ) (c : Setter) (i : ℕ), s.setters[n]? = some c → c.pc.stopping = some i →
    s.runloopHandle = some i
  single : ∀ (i : ℕ) (l : RunLoop), s.loops[i]? = some l → l.aborted = false → l.pc ≠ .finished →
    s.runloopHandle = some i
  settled : (∃ (n : ℕ) (c : Setter), s.setters[n]? = some c ∧ Fresh s c.pc) ∨
    s.lockedBy = none ∧ s.runloopHandle.isSome = s.desiredUp

theorem SameInputs.symm {s s' : WsClient} (h : SameInputs s s') : SameInputs s' s :=
  ⟨h.token.symm, h.disconnect.symm, h.active.symm⟩

theorem SameInputs.desiredUp {s s' : WsClient} (h : SameInputs s s') : s'.desiredUp = s.desiredUp := by
  rw [WsClient.desiredUp, WsClient.desiredUp, h.token, h.disconnect, h.active]

theorem SameInputs.fresh {s s' : WsClient} (h : SameInputs s s') {pc : SetterPc} (hf : Fresh s pc) :
    Fresh s' pc := by
  cases pc <;> simp only [Fresh, h.desiredUp, h.token, h.disconnect] at hf ⊢ <;> exact hf

theorem handleFinished_iff (s : WsClient) :
    s.handleFinished ↔ ∃ i l, s.runloopHandle = some i ∧ s.loops[i]? = some l ∧ l.pc = .finished := by
  unfold handleFinished
  cases s.runloopHandle with
  | none => simp
  | some i => cases hl : s.loops[i]? <;> simp [hl]

namespace Consistent

variable {s : WsClient} {n : ℕ} {c : Setter}

theorem congr (h : Consistent s) {s' : WsClient} (hs : SameRules s s') : Consistent s' where
  held k a ha hpc := by
    rw [hs.setters] at ha
    rw [hs.lockedBy, h.held k a ha hpc]
  vacant k a ha hpc := by
    rw [hs.setters] at ha
    rw [hs.handle, h.vacant k a ha hpc]
  taken k a i ha hpc := by
    rw [hs.setters] at ha
    rw [hs.handle, h.taken k a i ha hpc]
  single i l' hl' ha hpc := by
    obtain ⟨l, hl, honward⟩ := hs.loops i l' hl'
    rw [hs.handle]
    exact h.single i l hl (honward.aborted ▸ ha) fun hf => hpc (honward.finished hf)
  settled := by
    rw [hs.setters, hs.lockedBy, hs.handle, hs.desiredUp]
    obtain ⟨k, a, ha, hf⟩ | hset := h.settled
    · exact .inl ⟨k, a, ha, hs.fresh hf⟩
    · exact .inr hset

/-- A setter goes on without touching the slot, and knows no less than before. -/
theorem setSetter (h : Consistent s) (hc : s.setters[n]? = some c) {pc : SetterPc}
    (hheld : pc.Held → c.pc.Held) (hvacant : pc.Spawning → s.runloopHandle = none)
    (htaken : ∀ i, pc.stopping = some i → s.runloopHandle = some i) (hfresh : Fresh s c.pc → Fresh s pc) :
    Consistent (s.setSetter n pc) where
  held k a ha hpc := by
    obtain ⟨rfl, rfl⟩ | ⟨-, hold⟩ := getElem?_modify_cases hc ha
    · exact h.held k c hc (hheld hpc)
    · exact h.held k a hold hpc
  vacant k a ha hpc := by
    obtain ⟨-, rfl⟩ | ⟨-, hold⟩ := getElem?_modify_cases hc ha
    · exact hvacant hpc
    · exact h.vacant k a hold hpc
  taken k a i ha hpc := by
    obtain ⟨-, rfl⟩ | ⟨-, hold⟩ := getElem?_modify_cases hc ha
    · exact htaken i hpc
    · exact h.taken k a i hold hpc
  single := h.single
  settled := by
    obtain ⟨k, a, ha, hf⟩ | hset := h.settled
    · refine .inl ⟨k, _, getElem?_modify_of_eq_some ha n _, ?_⟩
      split
      · next hk =>
        subst hk
        obtain rfl : c = a := by simpa [hc] using ha
        exact hfresh hf
      · exact hf
    · exact .inr hset

/-- Nobody else is between its `lock` and its release of the slot. -/
theorem alone (h : Consistent s) (hc : s.setters[n]? = some c) (hpc : c.pc.Held) {k : ℕ} {a : Setter}
    (ha : s.setters[k]? = some a) (hk : a.pc.Held) : k = n := by
  have hn := h.held n c hc hpc
  rw [h.held k a ha hk] at hn
  exact Option.some.inj hn

theorem swapped (h : Consistent s) (hc : s.setters[n]? = some c) {s' : WsClient}
    (hsetters : s'.setters = s.setters) (hlock : s'.lockedBy = s.lockedBy)
    (hhandle : s'.runloopHandle = s.runloopHandle) (hloops : s'.loops = s.loops) :
    Consistent (s'.setSetter n .lock) where
  held k a ha hpc := by
    obtain ⟨-, rfl⟩ | ⟨-, hold⟩ := getElem?_modify_cases (hsetters ▸ hc) ha
    · cases hpc
    · exact hlock.trans (h.held k a (hsetters ▸ hold) hpc)
  vacant k a ha hpc := by
    obtain ⟨-, rfl⟩ | ⟨-, hold⟩ := getElem?_modify_cases (hsetters ▸ hc) ha
    · cases hpc
    · exact hhandle.trans (h.vacant k a (hsetters ▸ hold) hpc)
  taken k a i ha hpc := by
    obtain ⟨-, rfl⟩ | ⟨-, hold⟩ := getElem?_modify_cases (hsetters ▸ hc) ha
    · cases hpc
    · exact hhandle.trans (h.taken k a i (hsetters ▸ hold) hpc)
  single i l hl ha hpc := hhandle.trans (h.single i l (hloops ▸ hl) ha hpc)
  settled := .inl ⟨n, { c with pc := .lock }, by simp [WsClient.setSetter, hsetters, hc], trivial⟩

theorem swap (h : Consistent s) (hc : s.setters[n]? = some c) (hpc : c.pc = .swap) (input : RuleInput) :
    Consistent (s.swap n input) := by
  have unchanged : Consistent (s.setSetter n .returned) :=
    h.setSetter hc (by simp) (by simp) (by simp) fun hf => by simp [hpc, Fresh] at hf
  cases input with
  | token token =>
    by_cases heq : s.accessToken = token
    · rw [WsClient.swap, if_pos heq, ← heq]
      exact unchanged
    · rw [WsClient.swap, if_neg heq]
      exact h.swapped hc rfl rfl rfl rfl
  | userDisconnect disc =>
    by_cases heq : s.userDisconnect = disc
    · rw [WsClient.swap, if_pos heq, ← heq]
      exact unchanged
    · rw [WsClient.swap, if_neg heq]
      exact h.swapped hc rfl rfl rfl rfl
  | managerActive active =>
    by_cases heq : s.managerActive = active
    · rw [WsClient.swap, if_pos heq, ← heq]
      exact unchanged
    · rw [WsClient.swap, if_neg heq]
      exact h.swapped hc rfl rfl rfl rfl

theorem lock (h : Consistent s) (hc : s.setters[n]? = some c) (hfree : s.lockedBy = none) :
    Consistent ({ s with lockedBy := some n }.setSetter n .reap) := by
  have nobody : ∀ (k : ℕ) (a : Setter), s.setters[k]? = some a → ¬ a.pc.Held := by
    intro k a ha hpc
    have hlock := h.held k a ha hpc
    simp [hfree] at hlock
  refine ⟨fun k a ha hpc => ?_, fun k a ha hpc => ?_, fun k a i ha hpc => ?_, h.single, ?_⟩
  · obtain ⟨rfl, -⟩ | ⟨-, hold⟩ := getElem?_modify_cases hc ha
    · rfl
    · exact absurd hpc (nobody k a hold)
  · obtain ⟨-, rfl⟩ | ⟨-, hold⟩ := getElem?_modify_cases hc ha
    · cases hpc
    · exact absurd (SetterPc.held_of_spawning hpc) (nobody k a hold)
  · obtain ⟨-, rfl⟩ | ⟨-, hold⟩ := getElem?_modify_cases hc ha
    · cases hpc
    · exact absurd (SetterPc.held_of_stopping hpc) (nobody k a hold)
  · exact .inl ⟨n, { c with pc := .reap }, by simp [WsClient.setSetter, hc], trivial⟩

theorem release (h : Consistent s) (hc : s.setters[n]? = some c) (hpc : c.pc.Held) {s' : WsClient}
    {pc : SetterPc} (hsetters : s'.setters = s.setters.modify n fun c => { c with pc })
    (hinputs : SameInputs s s') (hlock : s'.lockedBy = none) (hpc' : pc.Held = false)
    (hsingle : ∀ (i : ℕ) (l : RunLoop), s'.loops[i]? = some l → l.aborted = false → l.pc ≠ .finished →
      s'.runloopHandle = some i)
    (hset : Fresh s c.pc → s'.runloopHandle.isSome = s.desiredUp) : Consistent s' := by
  have nobody : ∀ (k : ℕ) (a : Setter), s'.setters[k]? = some a → ¬ a.pc.Held := by
    intro k a ha hheld
    rw [hsetters] at ha
    obtain ⟨-, rfl⟩ | ⟨hk, hold⟩ := getElem?_modify_cases hc ha
    · rw [hpc'] at hheld
      cases hheld
    · exact hk (h.alone hc hpc hold hheld)
  refine ⟨fun k a ha hheld => ?_, fun k a ha hheld => ?_, fun k a i ha hheld => ?_, hsingle, ?_⟩
  · exact absurd hheld (nobody k a ha)
  · exact absurd (SetterPc.held_of_spawning hheld) (nobody k a ha)
  · exact absurd (SetterPc.held_of_stopping hheld) (nobody k a ha)
  · rw [hinputs.desiredUp]
    obtain ⟨k, a, ha, hf⟩ | ⟨hnone, -⟩ := h.settled
    · by_cases hk : n = k
      · subst hk
        obtain rfl : c = a := by simpa [hc] using ha
        exact .inr ⟨hlock, hset hf⟩
      · exact .inl ⟨k, a, by simp [hsetters, hk, ha], hinputs.fresh hf⟩
    · have hlock := h.held n c hc hpc
      simp [hnone] at hlock

theorem reap (h : Consistent s) (hc : s.setters[n]? = some c) (hpc : c.pc = .reap)
    (hfin : s.handleFinished) :
    Consistent ({ s with runloopHandle := none }.setSetter n .reapRunning) := by
  have allFinished : ∀ (i : ℕ) (l : RunLoop), s.loops[i]? = some l → l.aborted = false → l.pc = .finished := by
    intro i l hl ha
    obtain ⟨k, a, hk, hka, hf⟩ := s.handleFinished_iff.mp hfin
    by_contra hne
    have hi := h.single i l hl ha hne
    obtain rfl : k = i := Option.some.inj (hk.symm.trans hi)
    obtain rfl : l = a := by simpa [hl] using hka
    exact hne hf
  refine ⟨fun k a ha hheld => ?_, fun _ _ _ _ => rfl, fun k a i ha hstop => ?_, fun i l hl ha hne => ?_, ?_⟩
  · obtain ⟨rfl, -⟩ | ⟨-, hold⟩ := getElem?_modify_cases hc ha
    · exact h.held k c hc (by simp [hpc])
    · exact h.held k a hold hheld
  · obtain ⟨-, rfl⟩ | ⟨hk, hold⟩ := getElem?_modify_cases hc ha
    · cases hstop
    · exact absurd (h.alone hc (by simp [hpc]) hold (SetterPc.held_of_stopping hstop)) hk
  · exact absurd (allFinished i l hl ha) hne
  · exact .inl ⟨n, { c with pc := .reapRunning }, by simp [WsClient.setSetter, hc], trivial⟩

/-- `evaluate` goes on, with nothing more to say about the slot. -/
theorem within (h : Consistent s) (hc : s.setters[n]? = some c) {s' : WsClient} {pc : SetterPc}
    (hs : SameRules s s') (hheld : pc.Held → c.pc.Held) (hvacant : pc.Spawning → s.runloopHandle = none)
    (htaken : ∀ i, pc.stopping = some i → s.runloopHandle = some i) (hfresh : Fresh s c.pc → Fresh s pc) :
    Consistent (s'.setSetter n pc) := by
  refine (h.congr hs).setSetter (hs.setters ▸ hc) hheld (hs.handle ▸ hvacant) (hs.handle ▸ htaken) ?_
  exact fun hf => hs.fresh (hfresh (hs.toSameInputs.symm.fresh hf))

theorem hasToken (h : Consistent s) (hc : s.setters[n]? = some c) (hpc : c.pc = .hasToken) :
    Consistent (s.setSetter n (if s.accessToken.isSome then .userDisconnect else .decide false)) := by
  refine h.setSetter hc (by simp [hpc]) ?_ ?_ fun _ => ?_
  · split <;> simp
  · split <;> simp
  · split
    · next htoken => exact htoken
    · next htoken => simp [Fresh, WsClient.desiredUp, htoken]

theorem userDisconnect (h : Consistent s) (hc : s.setters[n]? = some c) (hpc : c.pc = .userDisconnect) :
    Consistent (s.setSetter n (if s.userDisconnect then .decide false else .managerActive)) := by
  refine h.setSetter hc (by simp [hpc]) ?_ ?_ fun hf => ?_
  · split <;> simp
  · split <;> simp
  · simp only [hpc, Fresh] at hf
    split
    · next hdisc => simp [Fresh, WsClient.desiredUp, hdisc]
    · next hdisc => simpa [Fresh, hf] using hdisc

theorem managerActive (h : Consistent s) (hc : s.setters[n]? = some c) (hpc : c.pc = .managerActive) :
    Consistent (s.setSetter n (.decide s.managerActive)) := by
  refine h.setSetter hc (by simp [hpc]) (by simp) (by simp) fun hf => ?_
  simp only [hpc, Fresh] at hf
  simp [Fresh, WsClient.desiredUp, hf]

theorem leave (h : Consistent s) (hc : s.setters[n]? = some c) {want : Bool} (hpc : c.pc = .decide want)
    (hset : s.runloopHandle.isSome = want) : Consistent ({ s with lockedBy := none }.setSetter n .returned) := by
  refine h.release hc (by simp [hpc]) rfl ⟨rfl, rfl, rfl⟩ rfl rfl h.single fun hf => ?_
  rw [hpc] at hf
  exact hset.trans hf

theorem decided (h : Consistent s) (hc : s.setters[n]? = some c) {want : Bool} (hpc : c.pc = .decide want) :
    Consistent (s.setterStep n) := by
  -- What was read of the inputs is carried over to the pc that acts on it.
  have hread : Fresh s c.pc → want = s.desiredUp := fun hf => by rwa [hpc] at hf
  cases hhandle : s.runloopHandle with
  | none =>
    cases want with
    | true =>
      simp only [WsClient.setterStep, hc, hpc, hhandle]
      exact h.setSetter hc (by simp [hpc]) (fun _ => hhandle) (by simp) fun hf => (hread hf).symm
    | false =>
      simpa only [WsClient.setterStep, hc, hpc, hhandle] using h.leave hc hpc (by rw [hhandle]; rfl)
  | some i =>
    cases want with
    | true => simpa only [WsClient.setterStep, hc, hpc, hhandle] using h.leave hc hpc (by rw [hhandle]; rfl)
    | false =>
      simp only [WsClient.setterStep, hc, hpc, hhandle]
      exact h.setSetter hc (by simp [hpc]) (by simp) (fun k hk => hhandle.trans hk) fun hf => (hread hf).symm

/-- The new loop is the only one that is not aborted: the slot was empty. -/
theorem spawn (h : Consistent s) (hc : s.setters[n]? = some c) {token : String} (hpc : c.pc = .spawn token) :
    Consistent (s.setterStep n) := by
  have hnone := h.vacant n c hc (by simp [hpc])
  simp only [WsClient.setterStep, hc, hpc]
  refine h.release hc (by simp [hpc]) rfl ⟨rfl, rfl, rfl⟩ rfl rfl (fun i l hl ha hf => ?_) fun hf => ?_
  · obtain hl | ⟨rfl, -⟩ := getElem?_concat_eq_some hl
    · have hsome := h.single i l hl ha hf
      simp [hnone] at hsome
    · rfl
  · simp only [hpc, Fresh] at hf
    simp [WsClient.setSetter, hf]

theorem abort (h : Consistent s) (hc : s.setters[n]? = some c) {i : ℕ} (hpc : c.pc = .abort i) :
    Consistent (s.setterStep n) := by
  have htaken := h.taken n c i hc (by simp [hpc])
  simp only [WsClient.setterStep, hc, hpc]
  refine h.release hc (by simp [hpc]) rfl ⟨rfl, rfl, rfl⟩ rfl rfl (fun k l hl ha hf => ?_) fun hf => ?_
  · obtain ⟨a, hka, rfl⟩ := getElem?_modify_eq_some hl
    split at ha
    · cases ha
    · next hk =>
      rw [if_neg hk] at hf
      have hsome := h.single k a hka ha hf
      rw [htaken] at hsome
      exact absurd (Option.some.inj hsome) hk
  · simp only [hpc, Fresh] at hf
    simp [WsClient.setSetter, hf]

theorem setterStep (h : Consistent s) (n : ℕ) : Consistent (s.setterStep n) := by
  cases hc : s.setters[n]? with
  | none => simpa only [WsClient.setterStep, hc] using h
  | some c =>
    have same : ∀ {s' : WsClient}, SameSlot s s' → s'.loops = s.loops → SameRules s s' :=
      fun hslot hloops => hslot.same hloops
    cases hpc : c.pc with
    | swap => simpa only [WsClient.setterStep, hc, hpc] using h.swap hc hpc c.input
    | lock =>
      simp only [WsClient.setterStep, hc, hpc]
      split
      · next hfree => exact h.lock hc hfree
      · exact h
    | reap =>
      simp only [WsClient.setterStep, hc, hpc]
      split
      · next hfin => exact h.reap hc hpc hfin
      · exact h.setSetter hc (by simp [hpc]) (by simp) (by simp) fun _ => trivial
    | reapRunning | reapReady =>
      simp only [WsClient.setterStep, hc, hpc]
      exact h.within hc (same ⟨⟨rfl, rfl, rfl⟩, rfl, rfl, rfl⟩ rfl) (by simp [hpc]) (by simp) (by simp)
        fun _ => trivial
    | hasToken => simpa only [WsClient.setterStep, hc, hpc] using h.hasToken hc hpc
    | userDisconnect => simpa only [WsClient.setterStep, hc, hpc] using h.userDisconnect hc hpc
    | managerActive => simpa only [WsClient.setterStep, hc, hpc] using h.managerActive hc hpc
    | decide want => exact h.decided hc hpc
    | takeToken =>
      simp only [WsClient.setterStep, hc, hpc]
      refine h.setSetter hc (by simp [hpc]) (fun _ => h.vacant n c hc (by simp [hpc])) (by simp) fun hf => ?_
      simpa [hpc, Fresh] using hf
    | startRunning token =>
      simp only [WsClient.setterStep, hc, hpc]
      refine h.within hc (same ⟨⟨rfl, rfl, rfl⟩, rfl, rfl, rfl⟩ rfl) (by simp [hpc])
        (fun _ => h.vacant n c hc (by simp [hpc])) (by simp) fun hf => ?_
      simpa [hpc, Fresh] using hf
    | spawn token => exact h.spawn hc hpc
    | stopRunning i | stopReady i =>
      simp only [WsClient.setterStep, hc, hpc]
      refine h.within hc (same ⟨⟨rfl, rfl, rfl⟩, rfl, rfl, rfl⟩ rfl) (by simp [hpc]) (by simp)
        (fun k hk => ?_) fun hf => ?_
      · exact h.taken n c k hc (by simpa [hpc] using hk)
      · simpa [hpc, Fresh] using hf
    | abort i => exact h.abort hc hpc
    | clearSender i | drainPending i =>
      simp only [WsClient.setterStep, hc, hpc]
      exact h.within hc (same ⟨⟨rfl, rfl, rfl⟩, rfl, rfl, rfl⟩ rfl) (by simp) (by simp) (by simp)
        fun hf => by simp [hpc, Fresh] at hf
    | returned => simpa only [WsClient.setterStep, hc, hpc] using h

theorem set (h : Consistent s) (input : RuleInput) : Consistent (s.move (.set input)) := by
  refine ⟨fun k a ha hpc => ?_, fun k a ha hpc => ?_, fun k a i ha hpc => ?_, h.single, ?_⟩
  · obtain ha | ⟨-, rfl⟩ := getElem?_concat_eq_some ha
    · exact h.held k a ha hpc
    · cases hpc
  · obtain ha | ⟨-, rfl⟩ := getElem?_concat_eq_some ha
    · exact h.vacant k a ha hpc
    · cases hpc
  · obtain ha | ⟨-, rfl⟩ := getElem?_concat_eq_some ha
    · exact h.taken k a i ha hpc
    · cases hpc
  · obtain ⟨k, a, ha, hf⟩ | hset := h.settled
    · exact .inl ⟨k, a, getElem?_concat_of_eq_some ha _, SameInputs.fresh ⟨rfl, rfl, rfl⟩ hf⟩
    · exact .inr hset

theorem move (h : Consistent s) (m : WsMove) : Consistent (s.move m) := by
  cases m with
  | set input => exact h.set input
  | setter n => exact h.setterStep n
  | loop i input => exact h.congr (s.sameRules_loopStep i input)
  | drop i => exact h.congr (s.sameRules_dropLoop i)
  | resubscribe j => exact h.congr (s.sameRules_resubscribeStep j)
  | rpcCall | rpcStep n | rpcTimeout n | close k =>
    exact h.congr (SameSlot.same ⟨⟨rfl, rfl, rfl⟩, rfl, rfl, rfl⟩ rfl)

theorem run (ms : List WsMove) : Consistent (WsClient.run {} ms) := by
  refine foldl_invariant (fun _ m h => h.move m) ms ⟨?_, ?_, ?_, ?_, .inr ⟨rfl, rfl⟩⟩
  · exact fun _ _ hc => by simp at hc
  · exact fun _ _ hc => by simp at hc
  · exact fun _ _ _ hc => by simp at hc
  · exact fun _ _ hl => by simp at hl

theorem unique (h : Consistent s) {i j : ℕ} {l l' : RunLoop} (hl : s.loops[i]? = some l)
    (hl' : s.loops[j]? = some l') (ha : l.aborted = false) (ha' : l'.aborted = false)
    (hpc : l.pc ≠ .finished) (hpc' : l'.pc ≠ .finished) : i = j :=
  Option.some.inj ((h.single i l hl ha hpc).symm.trans (h.single j l' hl' ha' hpc'))

end Consistent

theorem rule_converges (ms : List WsMove) :
    ((∀ c ∈ (run {} ms).setters, c.pc = .returned) →
      ((run {} ms).runloopHandle.isSome ↔
        (run {} ms).accessToken.isSome ∧ (run {} ms).userDisconnect = false ∧
          (run {} ms).managerActive = true)) ∧
    ∀ (i j : ℕ) (l l' : RunLoop), (run {} ms).loops[i]? = some l → (run {} ms).loops[j]? = some l' →
      l.aborted = false → l'.aborted = false → l.pc ≠ .finished → l'.pc ≠ .finished → i = j := by
  have h := Consistent.run ms
  refine ⟨fun hreturned => ?_, fun i j l l' hl hl' ha ha' hpc hpc' => h.unique hl hl' ha ha' hpc hpc'⟩
  obtain ⟨n, c, hc, hf⟩ | ⟨-, hset⟩ := h.settled
  · rw [hreturned c (List.mem_of_getElem? hc)] at hf
    exact hf.elim
  · rw [hset]
    simp [desiredUp, and_assoc]

end WsClient

end BaleVpn.Signaling
