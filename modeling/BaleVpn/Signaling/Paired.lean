import BaleVpn.Signaling.Dedup

/-!
# The two pushes of one call (`ws.rs`, `signaling.rs`)

A call is announced by `callReceived`, with the call and its caller, and by `callStarted`, with the whole
`CallEntity`. Each spawns a task, and the one that comes while the other is in flight is ignored. Only
the task of `callStarted` knows that the call is a LiveKit one. When the reply to `AcceptCall` does not
say so either, the call has its session exactly if that task is not the one ignored.
-/

namespace BaleVpn.Signaling

open Lib Daemon

/-- The move is a push that announces the call. -/
def SignalingMove.announces (callId : ℤ) : SignalingMove → Bool
  | .push update => update.received.any (·.1 = callId)
  | _ => false

/-- The task that a move spawns, by its call. -/
def SignalingMove.received : SignalingMove → Option (ℤ × Option CallEntity)
  | .push update => update.received
  | _ => none

def Handler.key (t : Handler) : ℤ × Option CallEntity := (t.callId, t.call)

namespace BaleSignaling

/-- For the call, the handler accepts, and the reply carries a token and not `is_livekit`. -/
def AcceptsCall (callId : ℤ) (s : BaleSignaling) : SignalingMove → Prop
  | .answer n d => ∀ t ∈ s.handlers[n]?, t.callId = callId → d = .accept
  | .cancel n => ∀ t ∈ s.handlers[n]?, t.callId = callId → s.pending t.callerId = some n
  | .reply n accepted => ∀ t ∈ s.handlers[n]?, t.callId = callId →
    ∃ e ∈ accepted, e.token ≠ "" ∧ e.isLivekit = false
  | _ => True

instance (callId : ℤ) (s : BaleSignaling) : (m : SignalingMove) → Decidable (AcceptsCall callId s m)
  | .answer _ _ => inferInstanceAs (Decidable (∀ t ∈ _, _))
  | .cancel _ => inferInstanceAs (Decidable (∀ t ∈ _, _))
  | .reply _ _ => inferInstanceAs (Decidable (∀ t ∈ _, _))
  | .push _ | .step _ | .discarded _ | .takeEvent | .takeSession | .sessionOver _ | .placed _ _
  | .setHandler | .setDecider | .setConsumer => isTrue trivial

/-- The task that knows of LiveKit does not find the call in flight. -/
def Unblocked (callId : ℤ) (s : BaleSignaling) : SignalingMove → Prop
  | .step n => ∀ t ∈ s.handlers[n]?, t.callId = callId → t.isLivekit → t.pc = .start →
    callId ∉ s.inFlightCalls
  | _ => True

instance (callId : ℤ) (s : BaleSignaling) : (m : SignalingMove) → Decidable (Unblocked callId s m)
  | .step _ => inferInstanceAs (Decidable (∀ t ∈ _, _))
  | .push _ | .answer _ _ | .cancel _ | .reply _ _ | .discarded _ | .takeEvent | .takeSession
  | .sessionOver _ | .placed _ _ | .setHandler | .setDecider | .setConsumer => isTrue trivial

/-- The tasks of the call are over. -/
def Settled (callId : ℤ) (s : BaleSignaling) : Prop :=
  ∀ t ∈ s.handlers, t.callId = callId → t.pc = .returned ∨ t.pc = .ignored

instance (callId : ℤ) (s : BaleSignaling) : Decidable (Settled callId s) :=
  inferInstanceAs (Decidable (∀ t ∈ _, _))

/-! ## The tasks of a run -/

theorem setPc_key (s : BaleSignaling) (n : ℕ) (pc : HandlerPc) :
    (s.setPc n pc).handlers.map Handler.key = s.handlers.map Handler.key :=
  map_modify_of_eq _ _ fun _ => rfl

theorem callEnded_key (s : BaleSignaling) (callId : ℤ) :
    (s.callEnded callId).handlers.map Handler.key = s.handlers.map Handler.key := by
  unfold callEnded
  cases s.openTask callId with
  | none =>
    simp only
    split <;> rfl
  | some n =>
    simp only
    split <;> exact map_modify_of_eq _ _ fun _ => rfl

theorem handlerStep_key (s : BaleSignaling) (n : ℕ) :
    (s.handlerStep n).handlers.map Handler.key = s.handlers.map Handler.key := by
  unfold handlerStep
  repeat' split
  all_goals first | rfl | exact map_modify_of_eq _ _ fun _ => rfl

theorem move_key (s : BaleSignaling) (m : SignalingMove) :
    (s.move m).handlers.map Handler.key = s.handlers.map Handler.key ++ m.received.toList := by
  cases m with
  | push update =>
    simp only [move, dispatchXc, SignalingMove.received]
    split
    · simp only [XcUpdate.received, Option.toList_none, List.append_nil]
      split
      · exact s.callEnded_key _
      · rfl
    · split
      · next h => simp [h, Handler.key]
      · next h => simp [h]
  | step n => simpa [move, SignalingMove.received] using s.handlerStep_key n
  | answer n d =>
    simp only [move, answer, SignalingMove.received, Option.toList_none, List.append_nil]
    repeat' split
    all_goals first | rfl | exact s.setPc_key n _
  | cancel n =>
    simp only [move, cancel, SignalingMove.received, Option.toList_none, List.append_nil]
    repeat' split
    all_goals first | rfl | exact s.setPc_key n _
  | reply n accepted =>
    simp only [move, reply, SignalingMove.received, Option.toList_none, List.append_nil]
    repeat' split
    all_goals first | rfl | exact s.setPc_key n _
  | discarded n =>
    simp only [move, discarded, SignalingMove.received, Option.toList_none, List.append_nil]
    repeat' split
    all_goals first | rfl | exact s.setPc_key n _
  | takeEvent =>
    simp only [move, takeEvent, onWsCallEnded, SignalingMove.received, Option.toList_none, List.append_nil]
    repeat' split
    all_goals rfl
  | takeSession =>
    simp only [move, takeSession, SignalingMove.received, Option.toList_none, List.append_nil]
    split <;> rfl
  | _ => simp [move, SignalingMove.received]

theorem run_key (ms : List SignalingMove) : ∀ s : BaleSignaling,
    (s.run ms).handlers.map Handler.key = s.handlers.map Handler.key ++ ms.filterMap SignalingMove.received := by
  induction ms with
  | nil => intro s; simp [run]
  | cons m ms ih =>
    intro s
    have hrun : s.run (m :: ms) = (s.move m).run ms := rfl
    rw [hrun, ih, move_key, List.append_assoc]
    cases hm : m.received with
    | none => simp [hm]
    | some key => simp [hm]

/-! ## Who hands a session on -/

/-- The points that an accepted call passes. -/
def OnCourse (t : Handler) : HandlerPc → Prop
  | .clear d | .decided d => d = .accept
  | .discarding => False
  | .track _ | .announce _ => t.isLivekit
  | _ => True

/-- A task of the call that knows of LiveKit and is past its session. -/
def Sent (callId : ℤ) (t : Handler) : Bool :=
  decide (t.callId = callId) && t.isLivekit && decide (t.pc = .release ∨ t.pc = .returned)

@[simp]
theorem isLivekit_pc (t : Handler) (pc : HandlerPc) : Handler.isLivekit { t with pc } = t.isLivekit := rfl

structure Counted (callId : ℤ) (s : BaleSignaling) : Prop where
  installed : s.hasHandler ∧ s.hasDecider ∧ s.hasConsumer
  course : ∀ (n : ℕ) (t : Handler), s.handlers[n]? = some t → t.callId = callId → OnCourse t t.pc
  count : (s.sessions.map Session.callId).count callId = s.handlers.countP (Sent callId)

namespace Counted

variable {callId : ℤ} {s s' : BaleSignaling} {n : ℕ} {t : Handler}

theorem setPc (h : Counted callId s) (ht : s.handlers[n]? = some t) (pc : HandlerPc)
    (hcourse : t.callId = callId → OnCourse t pc)
    (hsent : Sent callId { t with pc } = Sent callId t)
    (hhandlers : s'.handlers = (s.setPc n pc).handlers) (hsessions : s'.sessions = s.sessions)
    (hinstalled : s'.hasHandler ∧ s'.hasDecider ∧ s'.hasConsumer) : Counted callId s' where
  installed := hinstalled
  course l b hb hid := by
    rw [hhandlers] at hb
    obtain ⟨rfl, rfl⟩ | ⟨-, hb⟩ := getElem?_setPc ht hb
    · exact hcourse hid
    · exact h.course l b hb hid
  count := by
    have hcount := countP_modify ht (fun t => { t with pc }) (Sent callId)
    rw [hsent] at hcount
    rw [hsessions, hhandlers, h.count]
    exact (Nat.add_right_cancel hcount).symm

theorem announce (h : Counted callId s) (ht : s.handlers[n]? = some t) {e : CallEntity}
    (hpc : t.pc = .announce e) (x : Session) (hx : x.callId = t.callId) :
    Counted callId ({ s with sessions := s.sessions ++ [x] }.setPc n .release) where
  installed := h.installed
  course l b hb hid := by
    obtain ⟨rfl, rfl⟩ | ⟨-, hb⟩ := getElem?_setPc ht hb
    · trivial
    · exact h.course l b hb hid
  count := by
    have hcount := countP_modify ht (fun t => { t with pc := .release }) (Sent callId)
    have hnot : Sent callId t = false := by simp [Sent, hpc]
    have hcourse := h.course n t ht
    simp only [hpc, OnCourse] at hcourse
    simp only [BaleSignaling.setPc, List.map_append, List.map_cons, List.map_nil, List.count_append, hx,
      h.count]
    rw [hnot] at hcount
    by_cases hid : t.callId = callId
    · have hsent : Sent callId { t with pc := .release } = true := by
        simp only [Sent, isLivekit_pc, hcourse hid]
        simp [hid]
      simp only [hsent, Bool.false_eq_true, if_false, if_true] at hcount
      rw [hid, List.count_singleton_self]
      omega
    · have hsent : Sent callId { t with pc := .release } = false := by simp [Sent, hid]
      simp only [hsent, Bool.false_eq_true, if_false] at hcount
      rw [List.count_singleton, if_neg (by simpa using hid)]
      omega

theorem congr (h : Counted callId s) (hhandlers : s'.handlers = s.handlers)
    (hsessions : s'.sessions = s.sessions)
    (hinstalled : s'.hasHandler ∧ s'.hasDecider ∧ s'.hasConsumer) : Counted callId s' where
  installed := hinstalled
  course := by rw [hhandlers]; exact h.course
  count := by rw [hsessions, hhandlers, h.count]

theorem step (h : Counted callId s) (n : ℕ) : Counted callId (s.handlerStep n) := by
  have hin := h.installed
  unfold handlerStep
  split
  · next t ht =>
    have hcourse := h.course n t ht
    split
    · next hpc =>
      split
      · split
        · exact h.setPc ht .ignored (fun _ => trivial) (by simp [Sent, hpc]) rfl rfl hin
        · exact h.setPc ht .lookup (fun _ => trivial) (by simp [Sent, hpc]) rfl rfl hin
      · exact h.setPc ht .ignored (fun _ => trivial) (by simp [Sent, hpc]) rfl rfl hin
    · next hpc =>
      rw [if_pos hin.1]
      exact h.setPc ht .decider (fun _ => trivial) (by simp [Sent, hpc]) rfl rfl hin
    · next hpc =>
      rw [if_pos hin.2.1]
      exact h.setPc ht .register (fun _ => trivial) (by simp [Sent, hpc]) rfl rfl hin
    · next hpc => exact h.setPc ht .deciding (fun _ => trivial) (by simp [Sent, hpc]) rfl rfl hin
    · next d hpc =>
      rw [hpc] at hcourse
      exact h.setPc ht (.decided d) hcourse (by simp [Sent, hpc]) rfl rfl hin
    · next hpc => exact h.setPc ht .accepting (fun _ => trivial) (by simp [Sent, hpc]) rfl rfl hin
    · next hpc =>
      rw [hpc] at hcourse
      have hid : t.callId ≠ callId := fun hid => nomatch hcourse hid
      exact h.setPc ht .discarding (fun h => hid h) (by simp [Sent, hid]) rfl rfl hin
    · next hpc =>
      rw [hpc] at hcourse
      have hid : t.callId ≠ callId := fun hid => nomatch hcourse hid
      exact h.setPc ht .release (fun _ => trivial) (by simp [Sent, hid]) rfl rfl hin
    · next e hpc =>
      rw [hpc] at hcourse
      exact h.setPc ht (.announce e) hcourse (by simp [Sent, hpc]) rfl rfl hin
    · next e hpc =>
      have hannounced := h.announce ht hpc
        { callId := t.callId, peer := t.callerId, url := e.url, token := e.token } rfl
      exact hannounced.congr rfl (by simp [BaleSignaling.setPc, hin.2.2]) hin
    · next hpc => exact h.setPc ht .returned (fun _ => trivial) (by simp [Sent, hpc]) rfl rfl hin
    -- The waits, and the ends.
    · exact h
    · exact h
    · exact h
    · exact h
    · exact h
  · exact h

theorem callEnded (h : Counted callId s) (c : ℤ) : Counted callId (s.callEnded c) := by
  have hmarked : ∀ n, Counted callId
      { s with handlers := s.handlers.modify n fun h => { h with hungUp := true } } := by
    intro n
    refine ⟨h.installed, fun l b hb hid => ?_, ?_⟩
    · obtain ⟨a, ha, rfl⟩ := getElem?_modify_eq_some hb
      have hcourse := h.course l a ha
      by_cases hn : n = l
      · rw [if_pos hn] at hid ⊢
        exact hcourse hid
      · rw [if_neg hn] at hid ⊢
        exact hcourse hid
    · have hcount : (s.handlers.modify n fun h => { h with hungUp := true }).countP (Sent callId) =
          s.handlers.countP (Sent callId) := countP_modify_of_eq _ _ fun _ => rfl
      rw [hcount]
      exact h.count
  unfold BaleSignaling.callEnded
  cases s.openTask c with
  | none =>
    simp only
    split
    · exact h.congr rfl rfl h.installed
    · exact h
  | some n =>
    simp only
    split
    · exact (hmarked n).congr rfl rfl h.installed
    · exact hmarked n

theorem dispatchXc (h : Counted callId s) (update : XcUpdate) : Counted callId (s.dispatchXc update) := by
  unfold BaleSignaling.dispatchXc
  split
  · split
    · exact h.callEnded _
    · exact h
  · split
    · next c call _ =>
      refine ⟨h.installed, fun l b hb hid => ?_, ?_⟩
      · obtain hb | ⟨-, rfl⟩ := getElem?_concat_eq_some hb
        · exact h.course l b hb hid
        · trivial
      · have hnew : Sent callId { callId := c, call } = false := by simp [Sent]
        rw [List.countP_append, List.countP_singleton, hnew, if_neg Bool.false_ne_true, Nat.add_zero]
        exact h.count
    · exact h

theorem move (h : Counted callId s) (m : SignalingMove) (haccepts : AcceptsCall callId s m) :
    Counted callId (s.move m) := by
  have hin := h.installed
  cases m with
  | push update => exact h.dispatchXc update
  | step n => exact h.step n
  | answer n d =>
    simp only [BaleSignaling.move, BaleSignaling.answer]
    split
    · next t ht =>
      split
      · next hpc => exact h.setPc ht (.clear d) (haccepts t ht) (by simp [Sent, hpc]) rfl rfl hin
      · exact h
    · exact h
  | cancel n =>
    simp only [BaleSignaling.move, BaleSignaling.cancel]
    split
    · next t ht =>
      split
      · next hpc =>
        have hid : t.callId ≠ callId := fun hid => hpc.2 (haccepts t ht hid)
        exact h.setPc ht (.clear .silentlyIgnore) (fun h => absurd h hid) (by simp [Sent, hid]) rfl rfl hin
      · exact h
    · exact h
  | reply n accepted =>
    simp only [BaleSignaling.move, BaleSignaling.reply]
    split
    · next t ht =>
      split
      · next hpc =>
        by_cases hid : t.callId = callId
        · obtain ⟨e, rfl, htoken, hlivekit⟩ := haccepts t ht hid
          simp only [hlivekit, Bool.or_false, beq_eq_false_iff_ne.mpr htoken]
          split
          · next hnot =>
            have hnot : t.isLivekit = false := by simpa using hnot
            exact h.setPc ht .release (fun _ => trivial) (by simp [Sent, hnot]) rfl rfl hin
          · next hyes =>
            have hyes : t.isLivekit = true := by simpa using hyes
            exact h.setPc ht (.track e) (fun _ => hyes) (by simp [Sent, hpc]) rfl rfl hin
        · have hrelease : Counted callId (s.setPc n .release) :=
            h.setPc ht .release (fun _ => trivial) (by simp [Sent, hid]) rfl rfl hin
          split
          · split
            · exact hrelease
            · exact h.setPc ht _ (fun h => absurd h hid) (by simp [Sent, hid]) rfl rfl hin
          · exact hrelease
      · exact h
    · exact h
  | discarded n =>
    simp only [BaleSignaling.move, BaleSignaling.discarded]
    split
    · next t ht =>
      split
      · next hpc =>
        have hid : t.callId ≠ callId := fun hid => by simpa [hpc, OnCourse] using h.course n t ht hid
        exact h.setPc ht .release (fun _ => trivial) (by simp [Sent, hid]) rfl rfl hin
      · exact h
    · exact h
  | takeEvent =>
    simp only [BaleSignaling.move, BaleSignaling.takeEvent, BaleSignaling.onWsCallEnded]
    split
    · split
      · exact h.congr rfl rfl hin
      · split
        · exact h.congr rfl rfl hin
        · exact h.congr rfl rfl hin
    · exact h
  | takeSession =>
    simp only [BaleSignaling.move, BaleSignaling.takeSession]
    split
    · exact h.congr rfl rfl hin
    · exact h
  | sessionOver peer => exact h.congr rfl rfl hin
  | placed c peer => exact h.congr rfl rfl hin
  | setHandler => exact h.congr rfl rfl ⟨rfl, hin.2⟩
  | setDecider => exact h.congr rfl rfl ⟨hin.1, rfl, hin.2.2⟩
  | setConsumer => exact h.congr rfl rfl ⟨hin.1, hin.2.1, rfl⟩

end Counted

/-! ## Who is ignored -/

/-- A task keeps what it was spawned with, and is ignored for good; it comes to be so at its start. -/
theorem ignored_move {s : BaleSignaling} (m : SignalingMove) {n : ℕ} {t : Handler}
    (ht : s.handlers[n]? = some t) : ∃ t', (s.move m).handlers[n]? = some t' ∧ t'.key = t.key ∧
      (t.pc = .ignored → t'.pc = .ignored) ∧
      (t'.pc = .ignored → t.pc = .ignored ∨
        m = .step n ∧ t.pc = .start ∧ (t.Valid → t.callId ∈ s.inFlightCalls)) := by
  -- Task `k` goes from `pc` to `pc'`, and only when it is ignored is it ignored now.
  have moved : ∀ (k : ℕ) (a : Handler) (pc : HandlerPc), s.handlers[k]? = some a → a.pc ≠ .ignored →
      (s.move m).handlers = s.handlers.modify k (fun h => { h with pc }) →
      (pc = .ignored → m = .step k ∧ a.pc = .start ∧ (a.Valid → a.callId ∈ s.inFlightCalls)) →
      ∃ t', (s.move m).handlers[n]? = some t' ∧ t'.key = t.key ∧ (t.pc = .ignored → t'.pc = .ignored) ∧
        (t'.pc = .ignored → t.pc = .ignored ∨
          m = .step n ∧ t.pc = .start ∧ (t.Valid → t.callId ∈ s.inFlightCalls)) := by
    intro k a pc ha hstay hhandlers hignored
    rw [hhandlers]
    refine ⟨_, getElem?_modify_of_eq_some ht _ _, ?_⟩
    by_cases hk : k = n
    · subst hk
      obtain rfl : a = t := by simpa [ha] using ht
      rw [if_pos rfl]
      exact ⟨rfl, fun h => absurd h hstay, fun h => .inr (hignored h)⟩
    · rw [if_neg hk]
      exact ⟨rfl, id, .inl⟩
  cases s.move_change m with
  | none hhandlers => exact ⟨t, by rw [hhandlers, ht], rfl, id, .inl⟩
  | spawn a _ hhandlers => exact ⟨t, by rw [hhandlers]; exact getElem?_concat_of_eq_some ht a, rfl, id, .inl⟩
  | hungUp k hhandlers =>
    rw [hhandlers]
    refine ⟨_, getElem?_modify_of_eq_some ht _ _, ?_⟩
    split <;> exact ⟨rfl, id, .inl⟩
  | enter k a hm ha hpc _ _ hhandlers => exact moved k a _ ha (by simp [hpc]) hhandlers (by simp)
  | inner k a pc ha _ _ _ hstay hignored hhandlers => exact moved k a pc ha hstay hhandlers hignored
  | accept k a ha hpc hhandlers => exact moved k a _ ha (by simp [hpc]) hhandlers (by simp)
  | announce k a e x ha hpc _ hhandlers => exact moved k a _ ha (by simp [hpc]) hhandlers (by simp)
  | leave k a ha hpc hhandlers => exact moved k a _ ha (by simp [hpc]) hhandlers (by simp)

theorem start_of_none {s : BaleSignaling} {m : SignalingMove} {n : ℕ} {t : Handler}
    (hn : s.handlers[n]? = none) (ht : (s.move m).handlers[n]? = some t) : t.pc = .start := by
  have hlen : s.handlers.length ≤ n := List.getElem?_eq_none_iff.mp hn
  have hold : ∀ (k : ℕ) (f : Handler → Handler), (s.move m).handlers = s.handlers.modify k f → False := by
    intro k f hhandlers
    have hlt : n < (s.move m).handlers.length := (List.getElem?_eq_some_iff.mp ht).1
    rw [hhandlers, List.length_modify] at hlt
    omega
  cases s.move_change m with
  | none hhandlers => rw [hhandlers, hn] at ht; cases ht
  | spawn a ha hhandlers =>
    rw [hhandlers] at ht
    obtain ht | ⟨-, rfl⟩ := getElem?_concat_eq_some ht
    · rw [hn] at ht
      cases ht
    · exact ha
  | hungUp k hhandlers => exact (hold k _ hhandlers).elim
  | enter k a _ _ _ _ _ hhandlers => exact (hold k _ hhandlers).elim
  | inner k a pc _ _ _ _ _ _ hhandlers => exact (hold k _ hhandlers).elim
  | accept k a _ _ hhandlers => exact (hold k _ hhandlers).elim
  | announce k a e x _ _ _ hhandlers => exact (hold k _ hhandlers).elim
  | leave k a _ _ hhandlers => exact (hold k _ hhandlers).elim

/-- The task of the call that knows of LiveKit. -/
def Informed (callId : ℤ) (t : Handler) : Prop := t.callId = callId ∧ t.isLivekit = true

theorem Informed.of_key {callId : ℤ} {t t' : Handler} (h : Informed callId t) (hkey : t'.key = t.key) :
    Informed callId t' := by
  simp only [Handler.key, Prod.mk.injEq] at hkey
  simpa only [Informed, Handler.isLivekit, hkey.1, hkey.2] using h

theorem valid_of_key {t t' : Handler} (h : t.Valid) (hkey : t'.key = t.key) : t'.Valid := by
  simp only [Handler.key, Prod.mk.injEq] at hkey
  simpa only [Handler.Valid, Handler.callerId, hkey.2] using h

theorem ignored_run {callId : ℤ} {n : ℕ} (ms : List SignalingMove) : ∀ {s : BaleSignaling},
    (∃ t, s.handlers[n]? = some t ∧ Informed callId t ∧ t.pc = .ignored) →
    ∃ t, (s.run ms).handlers[n]? = some t ∧ Informed callId t ∧ t.pc = .ignored := by
  refine foldl_invariant (I := fun s : BaleSignaling => ∃ t, s.handlers[n]? = some t ∧
    Informed callId t ∧ t.pc = .ignored) (fun s m h => ?_) ms
  obtain ⟨t, ht, hinf, hpc⟩ := h
  obtain ⟨t', ht', hkey, hstay, -⟩ := ignored_move m ht
  exact ⟨t', ht', hinf.of_key hkey, hstay hpc⟩

theorem ignored_of_blocked {callId : ℤ} (ms : List SignalingMove) : ∀ {s : BaleSignaling},
    ¬ Along move (Unblocked callId) s ms →
    ∃ (n : ℕ) (t : Handler), (s.run ms).handlers[n]? = some t ∧ Informed callId t ∧ t.pc = .ignored := by
  induction ms with
  | nil => exact fun h => absurd trivial h
  | cons m ms ih =>
    intro s h
    by_cases hm : Unblocked callId s m
    · exact ih fun hms => h ⟨hm, hms⟩
    · cases m with
      | step n =>
        simp only [Unblocked, not_forall, not_not] at hm
        obtain ⟨t, ht, hid, hlivekit, hpc, hin⟩ := hm
        refine ⟨n, ignored_run ms ⟨{ t with pc := .ignored }, ?_, ⟨hid, hlivekit⟩, rfl⟩⟩
        have ht : s.handlers[n]? = some t := ht
        have hin : t.callId ∈ s.inFlightCalls := by rw [hid]; exact hin
        have hstep : s.handlerStep n = s.setPc n .ignored := by simp [handlerStep, ht, hpc, hin]
        simp [move, hstep, setPc, ht]
      | _ => exact absurd trivial hm

/-- An informed task with a proper caller is ignored only if it found the call in flight. -/
theorem not_ignored_of_unblocked {callId : ℤ} {s : BaleSignaling} {ms : List SignalingMove}
    (hs : s.handlers = []) (h : Along move (Unblocked callId) s ms) :
    ∀ (n : ℕ) (t : Handler), (s.run ms).handlers[n]? = some t → Informed callId t → t.Valid →
      t.pc ≠ .ignored := by
  refine Along.invariant (I := fun s : BaleSignaling => ∀ (n : ℕ) (t : Handler), s.handlers[n]? = some t →
    Informed callId t → t.Valid → t.pc ≠ .ignored) (fun s m hm hI n t' ht' hinf hvalid hpc => ?_) ?_ h
  · cases ht : s.handlers[n]? with
    | none => simp [start_of_none ht ht'] at hpc
    | some t =>
      obtain ⟨t'', ht'', hkey, -, hignored⟩ := ignored_move m ht
      obtain rfl : t' = t'' := by simpa [ht'] using ht''
      have hinf' : Informed callId t := hinf.of_key hkey.symm
      have hvalid' : t.Valid := valid_of_key hvalid hkey.symm
      obtain hpc' | ⟨rfl, hstart, hin⟩ := hignored hpc
      · exact hI n t ht hinf' hvalid' hpc'
      · exact hm t ht hinf'.1 hinf'.2 hstart (hinf'.1 ▸ hin hvalid')
  · simp [hs]

/-! ## One session -/

instance (callId : ℤ) : DecidablePred (Informed callId) := fun _ => inferInstanceAs (Decidable (_ ∧ _))

theorem countP_sent_add_ignored (callId : ℤ) (l : List Handler)
    (h : ∀ t ∈ l, t.callId = callId → t.pc = .returned ∨ t.pc = .ignored) :
    l.countP (Sent callId) + l.countP (fun t => Informed callId t ∧ t.pc = .ignored) =
      l.countP (fun t => Informed callId t) := by
  induction l with
  | nil => rfl
  | cons t l ih =>
    have hrest := ih fun t' ht' => h t' (List.mem_cons_of_mem _ ht')
    simp only [List.countP_cons]
    by_cases hinf : Informed callId t
    · obtain hpc | hpc := h t List.mem_cons_self hinf.1
      · have hsent : Sent callId t = true := by simp [Sent, hinf.1, hinf.2, hpc]
        simp [hsent, hinf, hpc] at hrest ⊢
        omega
      · have hsent : Sent callId t = false := by simp [Sent, hpc]
        simp [hsent, hinf, hpc] at hrest ⊢
        omega
    · have hsent : Sent callId t = false := by
        cases hs : Sent callId t with
        | false => rfl
        | true =>
          simp only [Sent, Bool.and_eq_true, decide_eq_true_eq] at hs
          exact absurd hs.1 hinf
      simp [hsent, hinf] at hrest ⊢
      omega

theorem countP_informed {callId callerId : ℤ} {entity : CallEntity} (hlivekit : entity.isLivekit = true)
    {ms : List SignalingMove} (hpair : (ms.filter (SignalingMove.announces callId)).Perm
      [.push (.callReceived callId callerId), .push (.callStarted (some entity))])
    {s : BaleSignaling} (hs : s.handlers = []) :
    (s.run ms).handlers.countP (fun t => Informed callId t) = 1 := by
  -- By what a task is spawned with.
  let q (key : ℤ × Option CallEntity) : Bool :=
    decide (key.1 = callId ∧ (key.2.map (·.isLivekit)).getD false = true)
  have hkeys : (s.run ms).handlers.countP (fun t => Informed callId t) =
      (ms.filterMap SignalingMove.received).countP q := by
    have hrun := run_key ms s
    rw [hs, List.map_nil, List.nil_append] at hrun
    rw [← hrun, List.countP_map]
    rfl
  have hfilter : (ms.filterMap SignalingMove.received).countP q =
      (ms.filter (SignalingMove.announces callId)).countP fun m => (m.received.map q).getD false := by
    rw [List.countP_filterMap, List.countP_filter]
    apply List.countP_congr
    intro m _
    cases m with
    | push update =>
      simp only [SignalingMove.received, SignalingMove.announces]
      cases update.received with
      | none => simp
      | some key =>
        simp only [q, Option.map_some, Option.getD_some, Option.any_some, Bool.and_eq_true,
          decide_eq_true_eq]
        exact ⟨fun h => ⟨h, h.1⟩, fun h => h.1⟩
    | _ => simp [SignalingMove.received]
  have hannounces : ∀ m ∈ [SignalingMove.push (.callReceived callId callerId),
      .push (.callStarted (some entity))], m.announces callId = true :=
    fun m hm => (List.mem_filter.mp (hpair.mem_iff.mpr hm)).2
  have hstub := hannounces _ List.mem_cons_self
  have hentity := hannounces (.push (.callStarted (some entity))) (by simp)
  rw [hkeys, hfilter, hpair.countP_eq]
  have hzero : callId ≠ 0 := by
    rintro rfl
    simp [SignalingMove.announces, XcUpdate.received] at hstub
  have hid : entity.callId = callId := by
    simpa [SignalingMove.announces, XcUpdate.received] using hentity
  by_cases hcaller : callerId = 0 <;>
    simp [SignalingMove.received, XcUpdate.received, q, hzero, hid, hlivekit, hcaller]

theorem counted_start (callId : ℤ) : Counted callId (start true true true) where
  installed := ⟨rfl, rfl, rfl⟩
  course _ _ ht := by simp [start] at ht
  count := rfl

theorem valid_of_informed {callId callerId : ℤ} {entity : CallEntity}
    (hcaller : 0 < entity.callerId ∧ entity.callerId ≤ I32_MAX) {ms : List SignalingMove}
    (hpair : (ms.filter (SignalingMove.announces callId)).Perm
      [.push (.callReceived callId callerId), .push (.callStarted (some entity))])
    {s : BaleSignaling} (hs : s.handlers = []) {t : Handler} (ht : t ∈ (s.run ms).handlers)
    (hinf : Informed callId t) : t.Valid := by
  have hkey : t.key ∈ ms.filterMap SignalingMove.received := by
    have hrun := run_key ms s
    rw [hs, List.map_nil, List.nil_append] at hrun
    rw [← hrun]
    exact List.mem_map_of_mem ht
  obtain ⟨m, hm, hreceived⟩ := List.mem_filterMap.mp hkey
  have hannounces : m.announces callId = true := by
    cases m with
    | push update =>
      have hupdate : update.received = some t.key := hreceived
      simp [SignalingMove.announces, hupdate, Handler.key, hinf.1]
    | _ => cases hreceived
  have hmem := hpair.mem_iff.mp (List.mem_filter.mpr ⟨hm, hannounces⟩)
  simp only [List.mem_cons, List.not_mem_nil, or_false] at hmem
  obtain rfl | rfl := hmem
  · -- The stub does not know of LiveKit.
    have hlivekit := hinf.2
    simp only [SignalingMove.received, XcUpdate.received] at hreceived
    split at hreceived
    · simp only [Option.some.injEq, Handler.key, Prod.mk.injEq] at hreceived
      rw [Handler.isLivekit, ← hreceived.2] at hlivekit
      split at hlivekit <;> simp at hlivekit
    · cases hreceived
  · simp only [SignalingMove.received, XcUpdate.received, Option.some.injEq, Handler.key,
      Prod.mk.injEq] at hreceived
    have hid : t.callerId = entity.callerId := by rw [Handler.callerId, ← hreceived.2]; rfl
    rw [Handler.Valid, hid]
    omega

/-- With both tasks over, the call has its one session exactly if the task of `callStarted` did not find
it in flight. -/
theorem paired_pushes_iff (callId callerId : ℤ) (entity : CallEntity)
    (hlivekit : entity.isLivekit = true) (hcaller : 0 < entity.callerId ∧ entity.callerId ≤ I32_MAX)
    (ms : List SignalingMove)
    (hpair : (ms.filter (SignalingMove.announces callId)).Perm
      [.push (.callReceived callId callerId), .push (.callStarted (some entity))])
    (haccepts : Along move (AcceptsCall callId) (start true true true) ms)
    (hsettled : Settled callId ((start true true true).run ms)) :
    (((start true true true).run ms).sessions.map Session.callId).count callId = 1 ↔
      Along move (Unblocked callId) (start true true true) ms := by
  have hcounted : Counted callId ((start true true true).run ms) :=
    Along.invariant (fun s m hm h => h.move m hm) (counted_start callId) haccepts
  have hsum := countP_sent_add_ignored callId ((start true true true).run ms).handlers hsettled
  rw [countP_informed hlivekit hpair rfl, ← hcounted.count] at hsum
  constructor
  · intro hone
    by_contra hblocked
    obtain ⟨n, t, ht, hinf, hpc⟩ := ignored_of_blocked ms hblocked
    have hnone : ((start true true true).run ms).handlers.countP
        (fun t => Informed callId t ∧ t.pc = .ignored) = 0 := by omega
    have := List.countP_eq_zero.mp hnone t (List.mem_of_getElem? ht)
    simp [hinf, hpc] at this
  · intro hfree
    have hnone : ((start true true true).run ms).handlers.countP
        (fun t => Informed callId t ∧ t.pc = .ignored) = 0 := by
      refine List.countP_eq_zero.mpr fun t ht hignored => ?_
      obtain ⟨hinf, hpc⟩ := of_decide_eq_true hignored
      obtain ⟨n, hn⟩ := List.mem_iff_getElem?.mp ht
      exact not_ignored_of_unblocked rfl hfree n t hn hinf (valid_of_informed hcaller hpair rfl ht hinf) hpc
    omega

/-- A LiveKit call as `callStarted` announces it. -/
def announced : CallEntity := { callId := 9, callerId := 500, isLivekit := true }

/-- Task `n` runs to its end: the decider accepts, and the reply has a token only. -/
def carriedOut (n : ℕ) : List SignalingMove :=
  List.replicate 4 (SignalingMove.step n) ++
    [SignalingMove.answer n .accept, .step n, .step n, .reply n (some { token := "t" })] ++
    List.replicate 3 (SignalingMove.step n)

/-- `callStarted` comes first. -/
def startedFirst : List SignalingMove :=
  [SignalingMove.push (.callStarted (some announced)), .step 0, .push (.callReceived 9 500), .step 1] ++
    carriedOut 0

theorem paired_pushes_started_first :
    (((start true true true).run startedFirst).sessions.map Session.callId).count 9 = 1 :=
  (paired_pushes_iff 9 500 announced rfl (by decide) startedFirst (by decide +kernel) (by decide +kernel)
    (by decide +kernel)).mpr (by decide +kernel)

/-- `callReceived` comes first, and `callStarted` while its task is in flight. -/
def receivedFirst : List SignalingMove :=
  [SignalingMove.push (.callReceived 9 500), .step 0, .push (.callStarted (some announced)), .step 1] ++
    carriedOut 0

theorem received_first_no_session :
    (receivedFirst.filter (SignalingMove.announces 9)).Perm
        [.push (.callReceived 9 500), .push (.callStarted (some announced))] ∧
      Along move (AcceptsCall 9) (start true true true) receivedFirst ∧
      Settled 9 ((start true true true).run receivedFirst) ∧
      ¬ (((start true true true).run receivedFirst).sessions.map Session.callId).count 9 = 1 := by
  decide +kernel

end BaleSignaling

end BaleVpn.Signaling
