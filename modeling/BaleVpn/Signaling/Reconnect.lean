import BaleVpn.Signaling.RuleEngine

/-!
# Teardowns and the next connection

`evaluate` releases the slot before it clears the sender and drains the pending calls, and an aborted loop
goes on until it is dropped, so that either may hit a connection that came up in between.

The next connection is not disturbed as long as neither of them touches what is its own: they clear the
sender only while no session is live, drain no call that was sent on a live one, and an aborted loop
installs its sender only where the teardown is still to clear it, and does not set `ready`.
-/

namespace BaleVpn.Signaling

open Lib

namespace LoopPc

/-- Its sender is installed, and the session has not ended. -/
@[simp]
def InSession : LoopPc → Bool
  | .reading | .ready | .subscribe | .store _ | .send _ => true
  | .top | .attempt | .connecting | .install | .ended _ | .clearSender _ | .drainPending _ | .outcome _
  | .sleeping | .finished => false

/-- `ready` may be set for its session. -/
@[simp]
def Open : LoopPc → Bool
  | .reading | .ready | .subscribe | .store _ | .send _ | .ended _ => true
  | .top | .attempt | .connecting | .install | .clearSender _ | .drainPending _ | .outcome _
  | .sleeping | .finished => false

/-- Its sender is installed. -/
@[simp]
def Installed : LoopPc → Bool
  | .reading | .ready | .subscribe | .store _ | .send _ | .ended _ | .clearSender _ => true
  | .top | .attempt | .connecting | .install | .drainPending _ | .outcome _ | .sleeping
  | .finished => false

theorem installed_of_open {pc : LoopPc} (h : pc.Open) : pc.Installed := by
  cases pc <;> simp at h ⊢

theorem open_of_inSession {pc : LoopPc} (h : pc.InSession) : pc.Open := by
  cases pc <;> simp at h ⊢

end LoopPc

/-- The sender is still to be cleared. -/
@[simp]
def SetterPc.Clearing : SetterPc → Bool
  | .clearSender _ => true
  | .swap | .lock | .reap | .reapRunning | .reapReady | .hasToken | .userDisconnect | .managerActive
  | .decide _ | .takeToken | .startRunning _ | .spawn _ | .stopRunning _ | .stopReady _ | .abort _
  | .drainPending _ | .returned => false

/-- The loop in whose teardown it was dropped. -/
@[simp]
def Responder.teardown : Responder → Option ℕ
  | .dropped teardown => teardown
  | .waiting | .answered _ => none

def RunLoop.Live (l : RunLoop) : Prop := l.aborted = false ∧ l.pc.InSession = true

instance (l : RunLoop) : Decidable l.Live := inferInstanceAs (Decidable (_ ∧ _))

/-- The call has found the session's sender. -/
def RpcCall.Found (c : RpcCall) (session : ℕ) : Prop := c.pc = .send session ∨ c.session = some session

instance (c : RpcCall) (session : ℕ) : Decidable (c.Found session) :=
  inferInstanceAs (Decidable (_ ∨ _))

/-! ## Calls -/

/-- No call finds a sender, and none is canceled by a teardown. -/
structure QuietRpc (r r' : RpcPlumbing) : Prop where
  sendTx : r'.sendTx = r.sendTx
  calls : ∀ c' ∈ r'.calls, ∀ k, c'.Found k →
    ∃ c ∈ r.calls, c.Found k ∧ ∀ j ∈ c'.responder.teardown, j ∈ c.responder.teardown

namespace QuietRpc

variable {r r' r'' : RpcPlumbing}

theorem of_eq (hsend : r'.sendTx = r.sendTx) (hcalls : r'.calls = r.calls) : QuietRpc r r' where
  sendTx := hsend
  calls c hc _ hk := ⟨c, hcalls ▸ hc, hk, fun _ hj => hj⟩

theorem refl (r : RpcPlumbing) : QuietRpc r r := of_eq rfl rfl

theorem trans (h : QuietRpc r r') (h' : QuietRpc r' r'') : QuietRpc r r'' where
  sendTx := h'.sendTx.trans h.sendTx
  calls c'' hc'' k hk := by
    obtain ⟨c', hc', hk', hdrop'⟩ := h'.calls c'' hc'' k hk
    obtain ⟨c, hc, hk, hdrop⟩ := h.calls c' hc' k hk'
    exact ⟨c, hc, hk, fun j hj => hdrop j (hdrop' j hj)⟩

theorem modify (r : RpcPlumbing) (n : ℕ) {f : RpcCall → RpcCall}
    (hf : ∀ c, r.calls[n]? = some c → (∀ k, (f c).Found k → c.Found k) ∧
      ∀ j ∈ (f c).responder.teardown, j ∈ c.responder.teardown) : QuietRpc r (r.modify n f) where
  sendTx := rfl
  calls c' hc' k hk := by
    obtain hc' | ⟨c, hc, rfl⟩ := mem_of_mem_modify hc'
    · exact ⟨c', hc', hk, fun _ hj => hj⟩
    · obtain ⟨hfound, hdrop⟩ := hf c hc
      exact ⟨c, List.mem_of_getElem? hc, hfound k hk, hdrop⟩

theorem removePending (r : RpcPlumbing) (idx : BitVec 32) : QuietRpc r (r.removePending idx) := by
  have herase : QuietRpc r { r with pending := Function.update r.pending idx none } := of_eq rfl rfl
  unfold RpcPlumbing.removePending
  split
  · exact herase.trans (modify _ _ fun _ _ => ⟨fun _ hk => hk, by simp⟩)
  · exact herase

theorem dispatch (r : RpcPlumbing) (resp : RpcResponse) : QuietRpc r (r.dispatchRpcResponse resp).1 := by
  unfold RpcPlumbing.dispatchRpcResponse
  split
  · have herase : QuietRpc r { r with pending := Function.update r.pending resp.idx none } := of_eq rfl rfl
    exact herase.trans (modify _ _ fun _ _ => ⟨fun _ hk => hk, by simp⟩)
  · exact refl r

theorem setPc (r : RpcPlumbing) (n : ℕ) {pc : RpcPc} (hpc : ∀ k, pc ≠ .send k) :
    QuietRpc r (r.setPc n pc) :=
  modify r n fun _ _ => ⟨fun k hk => hk.elim (fun h => absurd h (hpc k)) .inr, fun _ hj => hj⟩

theorem timeout (r : RpcPlumbing) (n : ℕ) : QuietRpc r (r.timeout n) := by
  unfold RpcPlumbing.timeout
  split
  · split
    · exact setPc r n (by simp)
    · exact refl r
  · exact refl r

theorem rpcCall (r : RpcPlumbing) : QuietRpc r r.rpcCall where
  sendTx := rfl
  calls c' hc' k hk := by
    obtain hc' | hc' := List.mem_append.mp hc'
    · exact ⟨c', hc', hk, fun _ hj => hj⟩
    · obtain rfl := List.mem_singleton.mp hc'
      simp [RpcCall.Found] at hk

theorem rpcStep (r : RpcPlumbing) {n : ℕ}
    (hfind : ∀ c, r.calls[n]? = some c → c.pc = .lookup → r.sendTx = none) :
    QuietRpc r (r.rpcStep n) := by
  unfold RpcPlumbing.rpcStep
  split
  · next c hc =>
    split
    · have hfile : QuietRpc r
          { r.removePending c.idx with
            pending := Function.update (r.removePending c.idx).pending c.idx (some n) } :=
        (removePending r c.idx).trans (of_eq rfl rfl)
      exact hfile.trans (setPc _ n (by simp))
    · next hpc =>
      rw [hfind c hc hpc]
      exact setPc r n (by simp)
    · next k hpc =>
      split
      · exact setPc r n (by simp)
      · refine modify r n fun a ha => ⟨fun k' hk' => ?_, fun _ hj => hj⟩
        obtain rfl : c = a := Option.some.inj (hc.symm.trans ha)
        simpa [RpcCall.Found, hpc] using Or.inl hk'
    · split
      · exact refl r
      · exact setPc r n (by simp)
      · exact setPc r n (by simp)
    · exact (removePending r c.idx).trans (setPc _ n (by simp))
    · exact refl r
  · exact refl r

end QuietRpc

namespace WsClient

/-! ## Undisturbed connections -/

structure Undisturbed (s : WsClient) : Prop where
  sender : ∀ l ∈ s.loops, l.Live → s.rpc.sendTx = some l.session
  /-- A call sent on a live session was canceled by no other loop's teardown. -/
  calls : ∀ (i : ℕ) (l : RunLoop), s.loops[i]? = some l → l.Live → ∀ c ∈ s.rpc.calls,
    c.session = some l.session → ∀ j ∈ c.responder.teardown, j = i
  down : (∀ l ∈ s.loops, l.pc = .finished) → (∀ c ∈ s.setters, c.pc = .returned) →
    s.ready = false ∧ s.rpc.sendTx = none

def NoneLive (s : WsClient) : Prop := ∀ l ∈ s.loops, ¬ l.Live

instance (s : WsClient) : Decidable s.NoneLive := inferInstanceAs (Decidable (∀ l ∈ _, _))

/-- No call that is pending was sent on a live session. -/
def NonePending (s : WsClient) : Prop :=
  ∀ l ∈ s.loops, l.Live → ∀ n ∈ List.range s.rpc.calls.length, ∀ c ∈ s.rpc.calls[n]?,
    s.rpc.pending c.idx = some n → ¬ c.Found l.session

instance (s : WsClient) : Decidable s.NonePending := inferInstanceAs (Decidable (∀ l ∈ _, _))

/-- What an aborted loop, or one that is being torn down, does not do. -/
def CalmLoop (s : WsClient) (i : ℕ) (l : RunLoop) : Prop :=
  match l.pc with
  | .install => l.aborted = true → s.NoneLive ∧ ∃ c ∈ s.setters, c.pc.Clearing
  | .ready => l.aborted = false ∧ ∀ c ∈ s.setters, c.pc ≠ .abort i
  | .clearSender _ => l.aborted = true → s.NoneLive
  | .drainPending _ => l.aborted = true → s.NonePending
  | .top | .attempt | .connecting | .reading | .subscribe | .store _ | .send _ | .ended _ | .outcome _
  | .sleeping | .finished => True

/-- What `evaluate` does not do once it has released the slot. -/
def CalmSetter (s : WsClient) (c : Setter) : Prop :=
  match c.pc with
  | .clearSender _ => s.NoneLive
  | .drainPending _ => s.NonePending
  | .swap | .lock | .reap | .reapRunning | .reapReady | .hasToken | .userDisconnect | .managerActive
  | .decide _ | .takeToken | .startRunning _ | .spawn _ | .stopRunning _ | .stopReady _ | .abort _
  | .returned => True

/-- A call that another loop's teardown has canceled does not find the sender of a live session. -/
def CalmCall (s : WsClient) (c : RpcCall) : Prop :=
  c.pc = .lookup → ∀ i ∈ List.range s.loops.length, ∀ l ∈ s.loops[i]?, l.Live →
    s.rpc.sendTx = some l.session → ∀ j ∈ c.responder.teardown, j = i

instance (s : WsClient) (i : ℕ) : (l : RunLoop) → Decidable (s.CalmLoop i l)
  | ⟨_, .install, _, _⟩ => inferInstanceAs (Decidable (_ → _))
  | ⟨_, .ready, _, _⟩ => inferInstanceAs (Decidable (_ ∧ _))
  | ⟨_, .clearSender _, _, _⟩ => inferInstanceAs (Decidable (_ → _))
  | ⟨_, .drainPending _, _, _⟩ => inferInstanceAs (Decidable (_ → _))
  | ⟨_, .top, _, _⟩ | ⟨_, .attempt, _, _⟩ | ⟨_, .connecting, _, _⟩ | ⟨_, .reading, _, _⟩
  | ⟨_, .subscribe, _, _⟩ | ⟨_, .store _, _, _⟩ | ⟨_, .send _, _, _⟩ | ⟨_, .ended _, _, _⟩
  | ⟨_, .outcome _, _, _⟩ | ⟨_, .sleeping, _, _⟩ | ⟨_, .finished, _, _⟩ => isTrue trivial

instance (s : WsClient) (c : Setter) : Decidable (s.CalmSetter c) := by
  unfold CalmSetter
  cases c.pc <;> infer_instance

instance (s : WsClient) (c : RpcCall) : Decidable (s.CalmCall c) := inferInstanceAs (Decidable (_ → _))

def Calm (s : WsClient) : WsMove → Prop
  | .loop i .go => ∀ l ∈ s.loops[i]?, s.CalmLoop i l
  | .setter n => ∀ c ∈ s.setters[n]?, s.CalmSetter c
  | .rpcStep n => ∀ c ∈ s.rpc.calls[n]?, s.CalmCall c
  | _ => True

instance (s : WsClient) : (m : WsMove) → Decidable (Calm s m)
  | .loop _ .go => inferInstanceAs (Decidable (∀ l ∈ _, _))
  | .setter _ => inferInstanceAs (Decidable (∀ c ∈ _, _))
  | .rpcStep _ => inferInstanceAs (Decidable (∀ c ∈ _, _))
  | .loop _ .connected | .loop _ (.connectFailed _) | .loop _ (.handshake _) | .loop _ .versionMismatch
  | .loop _ (.response _) | .loop _ (.closed _) | .set _ | .drop _ | .resubscribe _ | .rpcCall
  | .rpcTimeout _ | .close _ => isTrue trivial

/-! ## The shared cells -/

/-- Who has the sender, or is to clear it. -/
def Holder (s : WsClient) : Prop :=
  (∃ l ∈ s.loops, l.aborted = false ∧ l.pc.Installed) ∨ ∃ c ∈ s.setters, c.pc.Clearing

def Opened (s : WsClient) : Prop := ∃ l ∈ s.loops, l.aborted = false ∧ l.pc.Open

structure Shared (s : WsClient) : Prop where
  sender : ∀ l ∈ s.loops, l.Live → s.rpc.sendTx = some l.session
  holder : s.rpc.sendTx ≠ none → s.Holder
  ready : s.ready = true → s.Opened
  reset : ∀ c ∈ s.setters, ∀ i, c.pc = .abort i → s.ready = false
  calls : ∀ (i : ℕ) (l : RunLoop), s.loops[i]? = some l → l.Live → ∀ c ∈ s.rpc.calls,
    c.Found l.session → ∀ j ∈ c.responder.teardown, j = i
  fresh : ∀ k ∈ s.rpc.sendTx, k < s.nextSession
  freshCalls : ∀ c ∈ s.rpc.calls, ∀ k, c.Found k → k < s.nextSession

/-- No session comes up. -/
def NoneNew (s s' : WsClient) : Prop :=
  ∀ (i : ℕ) (l' : RunLoop), s'.loops[i]? = some l' → l'.Live →
    ∃ l, s.loops[i]? = some l ∧ l.Live ∧ l'.session = l.session

theorem NoneNew.of_eq {s s' : WsClient} (h : s'.loops = s.loops) : NoneNew s s' :=
  fun _ l' hl' hlive => ⟨l', h ▸ hl', hlive, rfl⟩

theorem NoneNew.modify {s s' : WsClient} {i : ℕ} {l : RunLoop} (hl : s.loops[i]? = some l)
    {f : RunLoop → RunLoop} (hloops : s'.loops = s.loops.modify i f)
    (hlive : (f l).Live → l.Live ∧ (f l).session = l.session) : NoneNew s s' := by
  intro k l' hl' hl'live
  rw [hloops] at hl'
  obtain ⟨rfl, rfl⟩ | ⟨-, hold⟩ := getElem?_modify_cases hl hl'
  · exact ⟨l, hl, hlive hl'live⟩
  · exact ⟨l', hold, hl'live, rfl⟩

namespace Shared

variable {s s' : WsClient}

theorem step (h : Shared s) (hnew : NoneNew s s') (hr : QuietRpc s.rpc s'.rpc)
    (hholder : s'.rpc.sendTx ≠ none → s.Holder → s'.Holder)
    (hready : s'.ready = true → s.ready = true) (hopened : s'.ready = true → s.Opened → s'.Opened)
    (hreset : ∀ c ∈ s'.setters, ∀ i, c.pc = .abort i → s.ready = false)
    (hnext : s'.nextSession = s.nextSession) : Shared s' where
  sender l' hl' hlive := by
    obtain ⟨i, hi⟩ := List.mem_iff_getElem?.mp hl'
    obtain ⟨l, hli, hlive, hsession⟩ := hnew i l' hi hlive
    rw [hr.sendTx, hsession, h.sender l (List.mem_of_getElem? hli) hlive]
  holder hne := hholder hne (h.holder (hr.sendTx ▸ hne))
  ready hset := hopened hset (h.ready (hready hset))
  reset c' hc' i hpc := by
    have hoff := hreset c' hc' i hpc
    by_contra hon
    rw [hready (by simpa using hon)] at hoff
    cases hoff
  calls i l' hl' hlive c' hc' hfound j hj := by
    obtain ⟨l, hli, hlive, hsession⟩ := hnew i l' hl' hlive
    obtain ⟨c, hc, hfound, hdrop⟩ := hr.calls c' hc' _ hfound
    exact h.calls i l hli hlive c hc (hsession ▸ hfound) j (hdrop j hj)
  fresh k hk := by
    rw [hnext]
    exact h.fresh k (hr.sendTx ▸ hk)
  freshCalls c' hc' k hk := by
    obtain ⟨c, hc, hfound, -⟩ := hr.calls c' hc' k hk
    rw [hnext]
    exact h.freshCalls c hc k hfound

theorem rpc (h : Shared s) {r : RpcPlumbing} (hr : QuietRpc s.rpc r) : Shared { s with rpc := r } :=
  h.step (.of_eq rfl) hr (fun _ hh => hh) id (fun _ ho => ho) h.reset rfl

theorem setLoop (h : Shared s) {i : ℕ} {l : RunLoop} (hl : s.loops[i]? = some l) {pc : LoopPc}
    (hlive : pc.InSession → l.pc.InSession)
    (hinstalled : s.rpc.sendTx ≠ none → l.aborted = false → l.pc.Installed → pc.Installed)
    (hopen : s.ready = true → l.aborted = false → l.pc.Open → pc.Open) : Shared (s.setLoop i pc) := by
  refine h.step (.modify hl rfl fun hnew => ⟨⟨hnew.1, hlive hnew.2⟩, rfl⟩) (.refl s.rpc)
    (fun hne hh => ?_) id (fun hset ho => ?_) h.reset rfl
  · obtain ⟨a, ha, haborted, hpc⟩ | hc := hh
    · obtain hmem | ⟨rfl, hmem⟩ := mem_modify_of_mem hl ha fun l => { l with pc }
      · exact .inl ⟨a, hmem, haborted, hpc⟩
      · exact .inl ⟨_, hmem, haborted, hinstalled hne haborted hpc⟩
    · exact .inr hc
  · obtain ⟨a, ha, haborted, hpc⟩ := ho
    obtain hmem | ⟨rfl, hmem⟩ := mem_modify_of_mem hl ha fun l => { l with pc }
    · exact ⟨a, hmem, haborted, hpc⟩
    · exact ⟨_, hmem, haborted, hopen hset haborted hpc⟩

theorem setSetter (h : Shared s) {n : ℕ} {c : Setter} (hc : s.setters[n]? = some c) {pc : SetterPc}
    (habort : ∀ i, pc = .abort i → s.ready = false)
    (hclearing : s.rpc.sendTx ≠ none → c.pc.Clearing → pc.Clearing) : Shared (s.setSetter n pc) := by
  refine h.step (.of_eq rfl) (.refl s.rpc) (fun hne hh => ?_) id (fun _ ho => ho) (fun a ha i hpc => ?_) rfl
  · obtain hl | ⟨a, ha, hpc⟩ := hh
    · exact .inl hl
    · obtain hmem | ⟨rfl, hmem⟩ := mem_modify_of_mem hc ha fun c => { c with pc }
      · exact .inr ⟨a, hmem, hpc⟩
      · exact .inr ⟨_, hmem, hclearing hne hpc⟩
  · obtain ha | ⟨b, -, rfl⟩ := mem_of_mem_modify ha
    · exact h.reset a ha i hpc
    · exact habort i hpc

/-! The steps that write the shared cells -/

theorem resetReady (h : Shared s) : Shared { s with ready := false } :=
  ⟨h.sender, h.holder, fun hset => (by cases hset), fun _ _ _ _ => rfl, h.calls, h.fresh, h.freshCalls⟩

theorem setReady (h : Shared s) (hopened : s.Opened) (habort : ∀ c ∈ s.setters, ∀ i, c.pc ≠ .abort i) :
    Shared { s with ready := true } :=
  ⟨h.sender, h.holder, fun _ => hopened, fun c hc i hpc => absurd hpc (habort c hc i), h.calls, h.fresh,
    h.freshCalls⟩

theorem clearSender (h : Shared s) (hnone : s.NoneLive) : Shared { s with rpc := s.rpc.clearSender } :=
  ⟨fun l hl hlive => absurd hlive (hnone l hl), fun hne => absurd rfl hne, h.ready, h.reset, h.calls,
    fun _ hk => (by cases hk), h.freshCalls⟩

theorem drainPending (h : Shared s) (hnone : s.NonePending) (j : ℕ) :
    Shared { s with rpc := s.rpc.drainPending j } := by
  -- What a call was before the drain.
  have before : ∀ c' ∈ (s.rpc.drainPending j).calls, ∃ (n : ℕ) (c : RpcCall), s.rpc.calls[n]? = some c ∧
      c' = if s.rpc.pending c.idx = some n then { c with responder := .dropped (some j) } else c := by
    intro c' hc'
    obtain ⟨n, hn⟩ := List.mem_iff_getElem?.mp hc'
    simp only [RpcPlumbing.drainPending, List.getElem?_mapIdx] at hn
    obtain ⟨c, hc, rfl⟩ := Option.map_eq_some_iff.mp hn
    exact ⟨n, c, hc, rfl⟩
  refine ⟨h.sender, h.holder, h.ready, h.reset, fun i l hl hlive c' hc' hfound t ht => ?_, h.fresh,
    fun c' hc' k hk => ?_⟩
  · obtain ⟨n, c, hc, rfl⟩ := before c' hc'
    split at hfound
    · next hp =>
      have hlt : n < s.rpc.calls.length := (List.getElem?_eq_some_iff.mp hc).1
      exact absurd hfound (hnone l (List.mem_of_getElem? hl) hlive n (List.mem_range.mpr hlt) c hc hp)
    · next hp =>
      rw [if_neg hp] at ht
      exact h.calls i l hl hlive c (List.mem_of_getElem? hc) hfound t ht
  · obtain ⟨n, c, hc, rfl⟩ := before c' hc'
    split at hk <;> exact h.freshCalls c (List.mem_of_getElem? hc) k hk

theorem cells (h : Shared s) (hloops : s'.loops = s.loops) (hsetters : s'.setters = s.setters)
    (hrpc : s'.rpc = s.rpc) (hready : s'.ready = s.ready) (hnext : s'.nextSession = s.nextSession) :
    Shared s' := by
  refine h.step (.of_eq hloops) (hrpc ▸ .refl s.rpc) (fun _ hh => ?_) (hready ▸ id) (fun _ ho => ?_)
    (hsetters ▸ h.reset) hnext
  · rwa [Holder, hloops, hsetters]
  · rwa [Opened, hloops]

/-! Loops -/

theorem noneLive_of_outside (hs : Consistent s) {i : ℕ} {l : RunLoop} (hl : s.loops[i]? = some l)
    (ha : l.aborted = false) (hpc : l.pc.InSession = false) (hne : l.pc ≠ .finished) : s.NoneLive := by
  intro l' hl' hlive
  obtain ⟨j, hj⟩ := List.mem_iff_getElem?.mp hl'
  have hne' : l'.pc ≠ .finished := fun hf => by simp [RunLoop.Live, hf] at hlive
  obtain rfl := hs.unique hl hj ha hlive.1 hne hne'
  obtain rfl : l = l' := Option.some.inj (hl.symm.trans hj)
  rw [hlive.2] at hpc
  cases hpc

theorem install (h : Shared s) (hs : Consistent s) {i : ℕ} {l : RunLoop} (hl : s.loops[i]? = some l)
    (hpc : l.pc = .install) (hcalm : s.CalmLoop i l) : Shared (s.loopGo i l) := by
  simp only [CalmLoop, hpc] at hcalm
  simp only [loopGo, hpc]
  have hnone : s.NoneLive := by
    cases ha : l.aborted with
    | false => exact noneLive_of_outside hs hl ha (by simp [hpc]) (by simp [hpc])
    | true => exact (hcalm ha).1
  -- Only the loop itself may be live afterwards, with the new session.
  have hnew : ∀ (k : ℕ) (l' : RunLoop), (s.loops.modify i fun l =>
      { l with pc := .reading, session := s.nextSession })[k]? = some l' → l'.Live →
      k = i ∧ l'.session = s.nextSession := by
    intro k l' hl' hlive
    obtain ⟨hk, rfl⟩ | ⟨-, hold⟩ := getElem?_modify_cases hl hl'
    · exact ⟨hk, rfl⟩
    · exact absurd hlive (hnone l' (List.mem_of_getElem? hold))
  refine ⟨fun l' hl' hlive => ?_, fun _ => ?_, fun hset => ?_, h.reset, fun k l' hl' hlive c hc hfound => ?_,
    fun k hk => ?_, fun c hc k hk => ?_⟩
  · obtain ⟨k, hk⟩ := List.mem_iff_getElem?.mp hl'
    exact congrArg some (hnew k l' hk hlive).2.symm
  · cases ha : l.aborted with
    | false =>
      have hmem := List.mem_of_getElem? (getElem?_modify_of_eq_some hl i fun l =>
        { l with pc := .reading, session := s.nextSession })
      rw [if_pos rfl] at hmem
      exact .inl ⟨_, hmem, ha, rfl⟩
    | true => exact .inr (hcalm ha).2
  · obtain ⟨a, ha, haborted, hopen⟩ := h.ready hset
    obtain hmem | ⟨rfl, -⟩ := mem_modify_of_mem hl ha fun l =>
      { l with pc := .reading, session := s.nextSession }
    · exact ⟨a, hmem, haborted, hopen⟩
    · simp [hpc] at hopen
  · rw [(hnew k l' hl' hlive).2] at hfound
    exact absurd (h.freshCalls c hc _ hfound) (by omega)
  · obtain rfl : s.nextSession = k := by simpa [RpcPlumbing.installSender] using hk
    exact Nat.lt_succ_self _
  · exact Nat.lt_succ_of_lt (h.freshCalls c hc k hk)

theorem sendSubscribe (h : Shared s) (session : ℕ) (idx : BitVec 32) :
    Shared (s.sendSubscribe session idx) := by
  unfold WsClient.sendSubscribe
  split
  · exact h
  · exact h.cells rfl rfl rfl rfl rfl

theorem loopGo (h : Shared s) (hs : Consistent s) {i : ℕ} {l : RunLoop} (hl : s.loops[i]? = some l)
    (hcalm : s.CalmLoop i l) : Shared (s.loopGo i l) := by
  -- Outside a session a loop has no shared cell; inside it keeps what it has.
  have outside : ∀ {s' : WsClient} {pc : LoopPc}, Shared s' → s'.loops = s.loops →
      pc.InSession = false → l.pc.Installed = false → Shared (s'.setLoop i pc) := by
    intro s' pc h' hloops hnew hold
    have hopen : l.pc.Open = false := by
      by_contra hne
      rw [LoopPc.installed_of_open (by simpa using hne)] at hold
      cases hold
    refine h'.setLoop (hloops ▸ hl) (fun hp => ?_) (fun _ _ hp => ?_) (fun _ _ hp => ?_)
    · rw [hnew] at hp
      cases hp
    · rw [hold] at hp
      cases hp
    · rw [hopen] at hp
      cases hp
  have within : ∀ {s' : WsClient} {pc : LoopPc}, Shared s' → s'.loops = s.loops → l.pc.InSession →
      pc.InSession → Shared (s'.setLoop i pc) := by
    intro s' pc h' hloops hold hnew
    have hopen := LoopPc.open_of_inSession hnew
    exact h'.setLoop (hloops ▸ hl) (fun _ => hold) (fun _ _ _ => LoopPc.installed_of_open hopen)
      fun _ _ _ => hopen
  by_cases hinstall : l.pc = .install
  · exact h.install hs hl hinstall hcalm
  unfold WsClient.loopGo
  split
  · next hpc => exact outside h rfl (by split <;> rfl) (by simp [hpc])
  · next hpc => exact outside h rfl rfl (by simp [hpc])
  · next hpc => exact absurd hpc hinstall
  · next hpc =>
    simp only [CalmLoop, hpc] at hcalm
    have hready := h.setReady ⟨l, List.mem_of_getElem? hl, hcalm.1, by simp [hpc]⟩ fun c hc j hj => by
      -- The loop about to be aborted would be this one.
      obtain ⟨n, hn⟩ := List.mem_iff_getElem?.mp hc
      have htaken := hs.taken n c j hn (by simp [hj])
      rw [hs.single i l hl hcalm.1 (by simp [hpc])] at htaken
      obtain rfl := Option.some.inj htaken
      exact hcalm.2 c hc hj
    exact within hready rfl (by simp [hpc]) rfl
  · next hpc => exact within (h.rpc (.of_eq rfl rfl)) rfl (by simp [hpc]) rfl
  · next hpc => exact within (h.rpc (.of_eq rfl rfl)) rfl (by simp [hpc]) rfl
  · next idx hpc =>
    exact within (h.sendSubscribe l.session idx) (s.sendSubscribe_loops l.session idx) (by simp [hpc]) rfl
  · next outcome hpc =>
    exact h.resetReady.setLoop hl (fun hp => by cases hp) (fun _ _ _ => rfl) fun hset => by cases hset
  · next outcome hpc =>
    have hnone : s.NoneLive := by
      simp only [CalmLoop, hpc] at hcalm
      cases ha : l.aborted with
      | false => exact noneLive_of_outside hs hl ha (by simp [hpc]) (by simp [hpc])
      | true => exact hcalm ha
    exact (h.clearSender hnone).setLoop hl (fun hp => by cases hp) (fun hne => absurd rfl hne)
      fun _ _ hp => by simp [hpc] at hp
  · next outcome hpc =>
    have hnone : s.NonePending := by
      simp only [CalmLoop, hpc] at hcalm
      cases ha : l.aborted with
      | false =>
        intro l' hl' hlive
        exact absurd hlive (noneLive_of_outside hs hl ha (by simp [hpc]) (by simp [hpc]) l' hl')
      | true => exact hcalm ha
    exact outside (h.drainPending hnone i) rfl rfl (by simp [hpc])
  · next outcome hpc => exact outside h rfl (by split <;> rfl) (by simp [hpc])
  · next hpc =>
    split
    · exact h
    · exact outside h rfl rfl (by simp [hpc])
  · exact h
  · exact h
  · exact h

theorem onRpcFrame (h : Shared s) {i : ℕ} {l : RunLoop} (hl : s.loops[i]? = some l)
    (hpc : l.pc = .reading) (resp : RpcResponse) : Shared (s.onRpcFrame i l resp) := by
  have hr := QuietRpc.dispatch s.rpc resp
  unfold WsClient.onRpcFrame
  split
  · next heq =>
    rw [heq] at hr
    exact (h.rpc hr).setLoop hl (by simp [hpc]) (fun _ _ _ => rfl) fun _ _ _ => rfl
  · next heq =>
    rw [heq] at hr
    exact (h.rpc hr).cells rfl rfl rfl rfl rfl
  · next heq =>
    rw [heq] at hr
    exact h.rpc hr
  · next heq =>
    rw [heq] at hr
    exact h.rpc hr

theorem loopStep (h : Shared s) (hs : Consistent s) {i : ℕ} {input : LoopInput}
    (hcalm : Calm s (.loop i input)) : Shared (s.loopStep i input) := by
  unfold WsClient.loopStep
  split
  · next l hl =>
    have ends : ∀ {outcome : SessionOutcome}, Shared (s.setLoop i (.ended outcome)) :=
      h.setLoop hl (fun hp => by cases hp) (fun _ _ _ => rfl) fun _ _ _ => rfl
    split
    · exact h.loopGo hs hl (hcalm l hl)
    · split
      · next hpc =>
        exact h.setLoop hl (fun hp => by cases hp) (fun _ _ hp => by simp [hpc] at hp)
          fun _ _ hp => by simp [hpc] at hp
      · exact h
    · split
      · exact ends
      · exact h
    · split
      · next wellFormed hpc =>
        have hsession : LoopPc.InSession (if wellFormed then .ready else .subscribe) := by split <;> rfl
        have hopen := LoopPc.open_of_inSession hsession
        exact h.setLoop hl (by simp [hpc]) (fun _ _ _ => LoopPc.installed_of_open hopen) fun _ _ _ => hopen
      · exact h
    · split
      · exact ends
      · exact h
    · next resp =>
      split
      · next hpc => exact h.onRpcFrame hl hpc resp
      · exact h
    · split
      · exact ends
      · exact h
  · exact h

theorem dropLoop (h : Shared s) (i : ℕ) : Shared (s.dropLoop i) := by
  unfold WsClient.dropLoop
  split
  · next l hl =>
    split
    · next hdrop =>
      refine h.setLoop hl (fun hp => by cases hp) (fun _ ha => ?_) fun _ ha => ?_
      · simp [hdrop.1] at ha
      · simp [hdrop.1] at ha
    · exact h
  · exact h

theorem resubscribeStep (h : Shared s) (j : ℕ) : Shared (s.resubscribeStep j) := by
  unfold WsClient.resubscribeStep
  split
  · next t ht =>
    dsimp only
    split
    · have hfetch : Shared { s with rpc := s.rpc.fetchAdd } := h.rpc (.of_eq rfl rfl)
      exact hfetch.cells rfl rfl rfl rfl rfl
    · next idx _ =>
      have hstore : Shared { s with rpc := s.rpc.setSubscribeIdx idx } := h.rpc (.of_eq rfl rfl)
      exact hstore.cells rfl rfl rfl rfl rfl
    · next idx _ => exact (h.sendSubscribe t.session idx).cells rfl rfl rfl rfl rfl
    · exact h
  · exact h

/-! Setters -/

theorem spawn (h : Shared s) {n : ℕ} {c : Setter} (hc : s.setters[n]? = some c) (hpc : c.pc.Clearing = false)
    (token : String) (handle : Option ℕ) :
    Shared ({ s with
      loops := s.loops ++ [{ token := token : RunLoop }]
      runloopHandle := handle
      lockedBy := none }.setSetter n .returned) := by
  have hloops : Shared { s with
      loops := s.loops ++ [{ token := token : RunLoop }]
      runloopHandle := handle
      lockedBy := none } := by
    refine h.step (fun i l' hl' hlive => ?_) (.refl s.rpc) (fun _ hh => ?_) id (fun _ ho => ?_) h.reset rfl
    · obtain hl' | ⟨-, rfl⟩ := getElem?_concat_eq_some hl'
      · exact ⟨l', hl', hlive, rfl⟩
      · simp [RunLoop.Live] at hlive
    · obtain ⟨l, hl, hrest⟩ | hset := hh
      · exact .inl ⟨l, List.mem_append_left _ hl, hrest⟩
      · exact .inr hset
    · obtain ⟨l, hl, hrest⟩ := ho
      exact ⟨l, List.mem_append_left _ hl, hrest⟩
  refine hloops.setSetter hc (fun i hi => (by cases hi)) fun _ hp => ?_
  rw [hpc] at hp
  cases hp

theorem abort (h : Shared s) {n i : ℕ} {c : Setter} (hc : s.setters[n]? = some c) (hpc : c.pc = .abort i) :
    Shared ({ s with
      loops := s.loops.modify i fun l => { l with aborted := true }
      runloopHandle := none
      lockedBy := none }.setSetter n (.clearSender i)) := by
  have hoff := h.reset c (List.mem_of_getElem? hc) i hpc
  refine h.step (fun k l' hl' hlive => ?_) (.refl s.rpc) (fun _ _ => .inr ?_) id (fun hset => ?_)
    (fun a ha j hj => ?_) rfl
  · obtain ⟨a, ha, rfl⟩ := getElem?_modify_eq_some hl'
    split at hlive
    · simp [RunLoop.Live] at hlive
    · next hk =>
      rw [if_neg hk]
      exact ⟨a, ha, hlive, rfl⟩
  · have hmem := List.mem_of_getElem? (getElem?_modify_of_eq_some hc n fun c => { c with pc := .clearSender i })
    rw [if_pos rfl] at hmem
    exact ⟨_, hmem, rfl⟩
  · rw [hoff] at hset
    cases hset
  · exact hoff

theorem setterStep (h : Shared s) {n : ℕ} (hcalm : Calm s (.setter n)) : Shared (s.setterStep n) := by
  unfold WsClient.setterStep
  split
  · next c hc =>
    have hcalm := hcalm c hc
    have goOn : ∀ {s' : WsClient} {pc : SetterPc}, Shared s' → s'.setters = s.setters →
        (∀ i, pc ≠ .abort i) → c.pc.Clearing = false → Shared (s'.setSetter n pc) := by
      intro s' pc h' hsetters hpc hclearing
      refine h'.setSetter (hsetters ▸ hc) (fun i hi => absurd hi (hpc i)) fun _ hp => ?_
      rw [hclearing] at hp
      cases hp
    have same : ∀ {s' : WsClient}, s'.loops = s.loops → s'.setters = s.setters → s'.rpc = s.rpc →
        s'.ready = s.ready → s'.nextSession = s.nextSession → Shared s' := h.cells
    split
    · next hpc =>
      unfold WsClient.swap
      split <;> exact goOn (same rfl rfl rfl rfl rfl) rfl (by split <;> simp) (by simp [hpc])
    · next hpc =>
      split
      · exact goOn (same rfl rfl rfl rfl rfl) rfl (by simp) (by simp [hpc])
      · exact h
    · next hpc =>
      split
      · exact goOn (same rfl rfl rfl rfl rfl) rfl (by simp) (by simp [hpc])
      · exact goOn h rfl (by simp) (by simp [hpc])
    · next hpc => exact goOn (same rfl rfl rfl rfl rfl) rfl (by simp) (by simp [hpc])
    · next hpc => exact goOn h.resetReady rfl (by simp) (by simp [hpc])
    · next hpc => exact goOn h rfl (by split <;> simp) (by simp [hpc])
    · next hpc => exact goOn h rfl (by split <;> simp) (by simp [hpc])
    · next hpc => exact goOn h rfl (by simp) (by simp [hpc])
    · next hpc =>
      split
      · exact goOn h rfl (by simp) (by simp [hpc])
      · exact goOn h rfl (by simp) (by simp [hpc])
      · exact goOn (same rfl rfl rfl rfl rfl) rfl (by simp) (by simp [hpc])
    · next hpc => exact goOn h rfl (by simp) (by simp [hpc])
    · next hpc => exact goOn (same rfl rfl rfl rfl rfl) rfl (by simp) (by simp [hpc])
    · next token hpc => exact h.spawn hc (by simp [hpc]) token _
    · next hpc => exact goOn (same rfl rfl rfl rfl rfl) rfl (by simp) (by simp [hpc])
    · next hpc => exact h.resetReady.setSetter hc (fun _ _ => rfl) fun _ hp => by simp [hpc] at hp
    · next i hpc => exact h.abort hc hpc
    · next i hpc =>
      simp only [CalmSetter, hpc] at hcalm
      exact (h.clearSender hcalm).setSetter hc (by simp) fun hne => absurd rfl hne
    · next i hpc =>
      simp only [CalmSetter, hpc] at hcalm
      exact (h.drainPending hcalm i).setSetter hc (by simp) fun _ hp => by simp [hpc] at hp
    · exact h
  · exact h

/-! Calls -/

theorem lookup (h : Shared s) {n k : ℕ} {c : RpcCall} (hc : s.rpc.calls[n]? = some c) (hpc : c.pc = .lookup)
    (hk : s.rpc.sendTx = some k) (hcalm : s.CalmCall c) :
    Shared { s with rpc := s.rpc.setPc n (.send k) } := by
  refine ⟨h.sender, h.holder, h.ready, h.reset, fun i l hl hlive c' hc' hfound j hj => ?_, h.fresh,
    fun c' hc' k' hk' => ?_⟩
  · obtain hc' | ⟨a, ha, rfl⟩ := mem_of_mem_modify hc'
    · exact h.calls i l hl hlive c' hc' hfound j hj
    · obtain rfl : c = a := Option.some.inj (hc.symm.trans ha)
      obtain hsend | hsession := hfound
      · obtain rfl : k = l.session := by simpa using hsend
        have hlt : i < s.loops.length := (List.getElem?_eq_some_iff.mp hl).1
        exact hcalm hpc i (List.mem_range.mpr hlt) l hl hlive hk j hj
      · exact h.calls i l hl hlive c (List.mem_of_getElem? hc) (.inr hsession) j hj
  · obtain hc' | ⟨a, ha, rfl⟩ := mem_of_mem_modify hc'
    · exact h.freshCalls c' hc' k' hk'
    · obtain hsend | hsession := hk'
      · obtain rfl : k = k' := by simpa using hsend
        exact h.fresh k hk
      · exact h.freshCalls a (List.mem_of_getElem? ha) k' (.inr hsession)

theorem rpcStep (h : Shared s) {n : ℕ} (hcalm : Calm s (.rpcStep n)) :
    Shared { s with rpc := s.rpc.rpcStep n } := by
  by_cases hfind : ∀ c, s.rpc.calls[n]? = some c → c.pc = .lookup → s.rpc.sendTx = none
  · exact h.rpc (.rpcStep s.rpc hfind)
  · push Not at hfind
    obtain ⟨c, hc, hpc, hne⟩ := hfind
    obtain ⟨k, hk⟩ := Option.ne_none_iff_exists'.mp hne
    have hstep : s.rpc.rpcStep n = s.rpc.setPc n (.send k) := by
      simp [RpcPlumbing.rpcStep, hc, hpc, hk]
    rw [hstep]
    exact h.lookup hc hpc hk (hcalm c hc)

theorem move (h : Shared s) (hs : Consistent s) {m : WsMove} (hcalm : Calm s m) : Shared (s.move m) := by
  cases m with
  | set input =>
    refine h.step (.of_eq rfl) (.refl s.rpc) (fun _ hh => ?_) id (fun _ ho => ho) (fun c hc i hpc => ?_) rfl
    · obtain hl | ⟨c, hc, hpc⟩ := hh
      · exact .inl hl
      · exact .inr ⟨c, List.mem_append_left _ hc, hpc⟩
    · obtain hc | hc := List.mem_append.mp hc
      · exact h.reset c hc i hpc
      · obtain rfl := List.mem_singleton.mp hc
        cases hpc
  | setter n => exact h.setterStep hcalm
  | loop i input => exact h.loopStep hs hcalm
  | drop i => exact h.dropLoop i
  | resubscribe j => exact h.resubscribeStep j
  | rpcCall => exact h.rpc (.rpcCall s.rpc)
  | rpcStep n => exact h.rpcStep hcalm
  | rpcTimeout n => exact h.rpc (.timeout s.rpc n)
  | close k => exact h.rpc (.of_eq rfl rfl)

theorem undisturbed (h : Shared s) : Undisturbed s where
  sender := h.sender
  calls i l hl hlive c hc hsession j hj := h.calls i l hl hlive c hc (.inr hsession) j hj
  down hover hreturned := by
    have nobody : ¬ s.Holder := by
      rintro (⟨l, hl, -, hpc⟩ | ⟨c, hc, hpc⟩)
      · simp [hover l hl] at hpc
      · simp [hreturned c hc] at hpc
    constructor
    · by_contra hset
      obtain ⟨l, hl, -, hpc⟩ := h.ready (by simpa using hset)
      simp [hover l hl] at hpc
    · by_contra hne
      exact nobody (h.holder hne)

end Shared

/-- In a calm run no teardown disturbs the next connection. -/
theorem next_connection_undisturbed (ms : List WsMove) (h : Along move Calm {} ms) :
    Undisturbed (run {} ms) := by
  have hboth : Consistent (run {} ms) ∧ Shared (run {} ms) := by
    refine Along.invariant (I := fun s => Consistent s ∧ Shared s)
      (fun s m hcalm hI => ⟨hI.1.move m, hI.2.move hI.1 hcalm⟩) ⟨Consistent.run [], ?_⟩ h
    exact ⟨by simp, by simp, by simp, by simp, by simp, by simp, by simp⟩
  exact hboth.2.undisturbed

/-- The loop connects, and its session is subscribed. -/
def connected (i : ℕ) : List WsMove :=
  [WsMove.loop i .go, .loop i .go, .loop i .connected, .loop i .go, .loop i (.handshake true)] ++
    List.replicate 4 (WsMove.loop i .go)

/-- The user disconnects a connection that is up and connects again; `steps` of the first teardown are made
before the next connection is up. -/
def reconnected (steps : ℕ) : List WsMove :=
  WsMove.set (.token (some "a")) :: List.replicate 10 (WsMove.setter 0) ++ connected 0 ++
    WsMove.set (.userDisconnect true) :: List.replicate steps (WsMove.setter 1) ++
    WsMove.drop 0 :: .set (.userDisconnect false) :: List.replicate 10 (WsMove.setter 2) ++ connected 1

/-- The teardown is over, and a call is made. -/
theorem next_connection_undisturbed_reconnected :
    Undisturbed (run {} (reconnected 11 ++ [WsMove.rpcCall, .rpcStep 0, .rpcStep 0, .rpcStep 0])) :=
  next_connection_undisturbed _ (by decide +kernel)

/-- The slot is released, and the teardown clears the sender of the next session. -/
theorem next_connection_disturbed : ¬ Undisturbed (run {} (reconnected 9 ++ [WsMove.setter 1])) := by
  intro h
  have hlive : (run {} (reconnected 9 ++ [WsMove.setter 1])).loops[1]? =
      some { token := "a", pc := .reading, session := 1 } := by decide +kernel
  have hsender := h.sender _ (List.mem_of_getElem? hlive) ⟨rfl, rfl⟩
  have hnone : (run {} (reconnected 9 ++ [WsMove.setter 1])).rpc.sendTx = none := by decide +kernel
  rw [hnone] at hsender
  cases hsender

end WsClient

end BaleVpn.Signaling
