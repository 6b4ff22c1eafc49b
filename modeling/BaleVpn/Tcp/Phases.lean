import BaleVpn.Tcp.FinAccept

/-!
# States without a way back

Once the session has sent its FIN, no event brings it back to `SynRcvd`, `Established` or
`CloseWait`. (A failed write closes it for good as well, but for a FIN in the same segment.)
-/

namespace BaleVpn.Tcp

open Net

/-- States up to the session's FIN. -/
def TcpState.early : TcpState → Bool
  | .synRcvd | .established | .closeWait => true
  | _ => false

theorem emitAck_state (c : Ctx) : c.emitAck.s.state = c.s.state := by
  have hcore := emitAck_core c
  generalize c.emitAck = c' at hcore ⊢
  exact congrArg Core.state hcore

theorem takePayload_late {c : Ctx} (h : c.s.state.early = false) (seq : UInt32) (payload : Bytes) :
    (c.takePayload seq payload).s.state.early = false := by
  unfold Ctx.takePayload
  split
  · exact h
  · have hpath := handleDataIn_path c seq payload
    generalize c.handleDataIn seq payload = c₁ at hpath ⊢
    rw [emitAck_state]
    obtain hst | hst := hpath.frame.state
    · rw [show c₁.s.state = c.s.state from hst]
      exact h
    · rw [show c₁.s.state = .closed from hst]
      rfl

theorem ackIfFlagged_state (c : Ctx) (flags : UInt8) (ack : UInt32) :
    (c.ackIfFlagged flags ack).s.state = c.s.state :=
  (ackIfFlagged_path c flags ack).path.frame.state

theorem finWait1Close_late {c : Ctx} (h : c.s.state.early = false) (flags : UInt8) (inOrder : Bool)
    (seq : UInt32) (payload : Bytes) :
    (c.finWait1Close flags inOrder seq payload).s.state.early = false := by
  unfold Ctx.finWait1Close
  simp only
  split
  · split
    · split
      · rw [enterTimeWait_state]
        rfl
      · rfl
    · exact h
  · split
    · rfl
    · exact h

theorem finWait2Close_late {c : Ctx} (h : c.s.state.early = false) (flags : UInt8) (inOrder : Bool)
    (seq : UInt32) (payload : Bytes) :
    (c.finWait2Close flags inOrder seq payload).s.state.early = false := by
  unfold Ctx.finWait2Close
  simp only
  split
  · rw [enterTimeWait_state]
    rfl
  · exact h

theorem dispatchState_late {c : Ctx} (h : c.s.state.early = false) (flags : UInt8)
    (seq ack : UInt32) (wnd : UInt16) (payload : Bytes) :
    (c.dispatchState flags seq ack wnd payload).s.state.early = false := by
  have hacked : ((c.ackIfFlagged flags ack).setSndWnd wnd).s.state.early = false := by
    rw [show ((c.ackIfFlagged flags ack).setSndWnd wnd).s.state = c.s.state from
      ackIfFlagged_state c flags ack]
    exact h
  unfold Ctx.dispatchState
  split
  · rename_i hst
    rw [hst] at h
    cases h
  · rename_i hst
    rw [hst] at h
    cases h
  · rename_i hst
    rw [hst] at h
    cases h
  · unfold Ctx.processFinWait1
    simp only
    rw [refreshZwp_state]
    exact finWait1Close_late (takePayload_late hacked seq payload) _ _ _ _
  · unfold Ctx.processFinWait2
    simp only
    rw [refreshZwp_state]
    exact finWait2Close_late (takePayload_late (c := c.setSndWnd wnd) h seq payload) _ _ _ _
  · unfold Ctx.processClosing
    simp only
    split
    · rw [enterTimeWait_state]
      rfl
    · rw [ackIfFlagged_state]
      exact h
  · unfold Ctx.processLastAck
    split
    · simp only
      split
      · rw [markClosed_state]
        rfl
      · have hst := (onAck_path c.nowMs.2 ack c.nowMs.1).path.frame.state
        rw [show (c.nowMs.2.onAck ack c.nowMs.1).s.state = c.s.state from hst]
        exact h
    · exact h
  · unfold Ctx.processTimeWait
    split
    · have hack := emitAck_state c
      simp only
      generalize c.emitAck = c₁ at hack ⊢
      show c₁.s.state.early = false
      rw [hack]
      exact h
    · exact h
  · exact h

theorem sendFin_late (c : Ctx) : c.sendFin.s.state.early = false := by
  rw [(sendFin_later c).2.2]
  split <;> rfl

theorem trySegmentAndEmit_late {c : Ctx} (h : c.s.state.early = false) :
    c.trySegmentAndEmit.refreshZwp.s.state.early = false := by
  rw [refreshZwp_state]
  obtain hst | ⟨-, -, -, hst⟩ := (trySegmentAndEmit_later c).2
  · rw [hst]
    exact h
  · rw [hst]
    split <;> rfl

theorem tryDrainToHost_late {c : Ctx} (h : c.s.state.early = false) :
    c.tryDrainToHost.s.state.early = false := by
  obtain hst | hst := (tryDrainToHost_path c).frame.state
  · rw [show c.tryDrainToHost.s.state = c.s.state from hst]
    exact h
  · rw [show c.tryDrainToHost.s.state = .closed from hst]
    rfl

theorem hostEof_late {c : Ctx} (h : c.s.state.early = false) : c.hostEof.s.state.early = false := by
  unfold Ctx.hostEof
  simp only
  split
  · exact sendFin_late _
  · exact h

theorem readLoop_late (rs : List ReadRes) : ∀ {c : Ctx}, c.s.state.early = false →
    (Ctx.readLoop rs c).2.s.state.early = false := by
  induction rs with
  | nil => exact fun h => h
  | cons r rs ih =>
    intro c h
    unfold Ctx.readLoop
    simp only
    split
    · exact hostEof_late h
    · split
      · exact h
      · exact ih h
    · exact h
    · exact ih h
    · rw [abort_state]
      rfl

theorem onHostReadable_late {c : Ctx} (h : c.s.state.early = false) :
    c.onHostReadable.s.state.early = false := by
  unfold Ctx.onHostReadable
  split
  · exact h
  · split
    · exact h
    · have hloop := readLoop_late c.io.oracle.reads h
      simp only
      split
      · exact trySegmentAndEmit_late hloop
      · exact hloop

theorem hostClosedEvent_late {c : Ctx} (h : c.s.state.early = false) :
    c.hostClosedEvent.s.state.early = false := by
  unfold Ctx.hostClosedEvent
  simp only
  split
  · exact sendFin_late _
  · exact h

theorem onHostWritable_late {c : Ctx} (h : c.s.state.early = false) :
    c.onHostWritable.s.state.early = false := by
  have hs : c.connectFailed.2.s = c.s := by
    unfold Ctx.connectFailed
    split <;> rfl
  unfold Ctx.onHostWritable
  generalize c.connectFailed = r at hs ⊢
  obtain ⟨failed, c₁⟩ := r
  simp only at hs ⊢
  split
  · rw [abort_state]
    rfl
  · have hset : c₁.setWritable.s.state.early = false := by
      show c₁.s.state.early = false
      rw [hs]
      exact h
    have hdrain := tryDrainToHost_late hset
    show (if _ then c₁.setWritable.tryDrainToHost.shutdownWr else
      c₁.setWritable.tryDrainToHost).s.state.early = false
    split
    · exact hdrain
    · exact hdrain

theorem tick_core (c : Ctx) (now : UInt32) :
    (c.tick now).2.s.state = .closed ∨ ResendPath c.view (c.tick now).2.view := by
  have hout := rtoFire_path c now
  unfold Ctx.tick
  split
  · exact .inr .refl
  · have hrto : ResendPath c.view
        (if c.s.rtoDeadlineMs != 0 && timeAfter now c.s.rtoDeadlineMs then c.rtoFire now
        else c).view ∨ (if c.s.rtoDeadlineMs != 0 && timeAfter now c.s.rtoDeadlineMs then
          c.rtoFire now else c).s.state = .closed := by
      split
      · obtain hpath | ⟨c₁, -, habort⟩ := hout
        · exact .inl hpath
        · rw [habort]
          exact .inr (abort_state c₁)
      · exact .inl .refl
    simp only [beq_iff_eq]
    generalize (if c.s.rtoDeadlineMs != 0 && timeAfter now c.s.rtoDeadlineMs then c.rtoFire now
      else c) = c₁ at hrto ⊢
    split
    · rename_i hclosed
      exact .inl hclosed
    · rename_i hopen
      have htimers := (hrto.resolve_right hopen).trans (tickTimers_path c₁ now)
      generalize c₁.tickTimers now = c₂ at htimers ⊢
      split
      · exact .inl (markClosed_state c₂)
      · exact .inr htimers

theorem handle_late {c : Ctx} (h : c.s.state.early = false) (hopen : c.s.state ≠ .closed)
    (ev : Event) : (c.handle ev).s.state.early = false := by
  cases ev with
  | segment seg =>
    have hview : ∀ opts seq, (c.preprocess opts seq).s.state = c.s.state := fun opts seq =>
      congrArg (fun v : View => v.state) (preprocess_view c opts seq)
    show (c.onSegment seg).2.s.state.early = false
    unfold Ctx.onSegment
    split
    · exact h
    · simp only
      split
      · exact h
      · have hpre := hview ((seg.take (TcpHeader.dataOff seg)).drop 20) (TcpHeader.seq seg)
        generalize c.preprocess ((seg.take (TcpHeader.dataOff seg)).drop 20) (TcpHeader.seq seg) = c₁
          at hpre ⊢
        split
        · split
          · show c₁.markClosed.s.state.early = false
            rw [markClosed_state]
            rfl
          · rw [hpre]
            exact h
        · split
          · rename_i hclosed
            rw [hpre] at hclosed
            exact absurd (by simpa using hclosed) hopen
          · exact dispatchState_late (by rw [hpre]; exact h) _ _ _ _ _
  | host ev =>
    have hs : (c.socketError ev).2.s = c.s := by
      unfold Ctx.socketError
      split <;> rfl
    show (c.onHostEvent ev).s.state.early = false
    unfold Ctx.onHostEvent
    generalize c.socketError ev = r at hs ⊢
    obtain ⟨failed, c₁⟩ := r
    simp only at hs ⊢
    rw [← hs] at h
    split
    · rw [abort_state]
      rfl
    · have hw : (if ev.isWritable then c₁.onHostWritable else c₁).s.state.early = false := by
        split
        · exact onHostWritable_late h
        · exact h
      generalize (if ev.isWritable then c₁.onHostWritable else c₁) = c₂ at hw ⊢
      have hr : (if ev.isReadable then c₂.onHostReadable else c₂).s.state.early = false := by
        split
        · exact onHostReadable_late hw
        · exact hw
      generalize (if ev.isReadable then c₂.onHostReadable else c₂) = c₃ at hr ⊢
      split
      · exact hostClosedEvent_late hr
      · exact hr
  | tick now =>
    obtain hclosed | hpath := tick_core c now
    · show (c.tick now).2.s.state.early = false
      rw [hclosed]
      rfl
    · show (c.tick now).2.s.state.early = false
      rw [show (c.tick now).2.s.state = c.s.state from congrArg Core.state hpath.core]
      exact h
  | windowUpdate =>
    show c.fanOutWindowUpdate.s.state.early = false
    unfold Ctx.fanOutWindowUpdate
    split
    all_goals
      try rw [emitAck_state]
      exact h

end BaleVpn.Tcp
