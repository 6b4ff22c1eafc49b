import BaleVpn.Signaling.Incoming

/-!
# One session for one call (`signaling.rs`)

`in_flight_calls` holds a call exactly while a task of it is between its insertion and the drop of its
guard, so that two tasks of one call never overlap. They may follow one another: a push that is handled
after the task that sent `AcceptCall` has returned starts all over.
-/

namespace BaleVpn.Signaling

open Lib Daemon

namespace HandlerPc

/-- The task holds the guard. -/
@[simp]
def InFlight : HandlerPc → Bool
  | .start | .returned | .ignored => false
  | _ => true

/-- The task holds the guard and has not sent `AcceptCall`. -/
@[simp]
def BeforeAccept : HandlerPc → Bool
  | .lookup | .decider | .register | .deciding | .clear _ | .decided _ => true
  | _ => false

/-- The task has sent `AcceptCall` and not its session. -/
@[simp]
def Accepting : HandlerPc → Bool
  | .accepting | .track _ | .announce _ => true
  | _ => false

theorem inFlight_of_accepting {pc : HandlerPc} (h : pc.Accepting) : pc.InFlight := by
  cases pc <;> simp_all

theorem inFlight_of_beforeAccept {pc : HandlerPc} (h : pc.BeforeAccept) : pc.InFlight := by
  cases pc <;> simp_all

end HandlerPc

namespace BaleSignaling

/-! ## What a move may do -/

/-- What a move does to the tasks and to what they share, but for the pending decisions. -/
inductive Change (s : BaleSignaling) (m : SignalingMove) (s' : BaleSignaling) : Prop
  | none (hhandlers : s'.handlers = s.handlers) (hflight : s'.inFlightCalls = s.inFlightCalls)
      (haccept : s'.acceptCalls = s.acceptCalls) (hsessions : s'.sessions = s.sessions)
  | spawn (t : Handler) (ht : t.pc = .start) (hhandlers : s'.handlers = s.handlers ++ [t])
      (hflight : s'.inFlightCalls = s.inFlightCalls) (haccept : s'.acceptCalls = s.acceptCalls)
      (hsessions : s'.sessions = s.sessions)
  | hungUp (n : ℕ) (hhandlers : s'.handlers = s.handlers.modify n fun h => { h with hungUp := true })
      (hflight : s'.inFlightCalls = s.inFlightCalls) (haccept : s'.acceptCalls = s.acceptCalls)
      (hsessions : s'.sessions = s.sessions)
  | enter (n : ℕ) (t : Handler) (hm : m = .step n) (ht : s.handlers[n]? = some t) (hpc : t.pc = .start)
      (hvalid : t.Valid) (hnot : t.callId ∉ s.inFlightCalls)
      (hhandlers : s'.handlers = s.handlers.modify n fun h => { h with pc := .lookup })
      (hflight : s'.inFlightCalls = insert t.callId s.inFlightCalls)
      (haccept : s'.acceptCalls = s.acceptCalls) (hsessions : s'.sessions = s.sessions)
  | inner (n : ℕ) (t : Handler) (pc : HandlerPc) (ht : s.handlers[n]? = some t)
      (hin : pc.InFlight = t.pc.InFlight) (hacc : pc.BeforeAccept → t.pc.BeforeAccept)
      (hses : pc.Accepting → t.pc.Accepting) (hstay : t.pc ≠ .ignored)
      (hignored : pc = .ignored →
        m = .step n ∧ t.pc = .start ∧ (t.Valid → t.callId ∈ s.inFlightCalls))
      (hhandlers : s'.handlers = s.handlers.modify n fun h => { h with pc })
      (hflight : s'.inFlightCalls = s.inFlightCalls) (haccept : s'.acceptCalls = s.acceptCalls)
      (hsessions : s'.sessions = s.sessions)
  | accept (n : ℕ) (t : Handler) (ht : s.handlers[n]? = some t) (hpc : t.pc = .decided .accept)
      (hhandlers : s'.handlers = s.handlers.modify n fun h => { h with pc := .accepting })
      (hflight : s'.inFlightCalls = s.inFlightCalls)
      (haccept : s'.acceptCalls = s.acceptCalls ++ [(t.callId, n)]) (hsessions : s'.sessions = s.sessions)
  | announce (n : ℕ) (t : Handler) (e : CallEntity) (x : Session) (ht : s.handlers[n]? = some t)
      (hpc : t.pc = .announce e) (hx : x.callId = t.callId)
      (hhandlers : s'.handlers = s.handlers.modify n fun h => { h with pc := .release })
      (hflight : s'.inFlightCalls = s.inFlightCalls) (haccept : s'.acceptCalls = s.acceptCalls)
      (hsessions : s'.sessions = s.sessions ++ [x])
  | leave (n : ℕ) (t : Handler) (ht : s.handlers[n]? = some t) (hpc : t.pc = .release)
      (hhandlers : s'.handlers = s.handlers.modify n fun h => { h with pc := .returned })
      (hflight : s'.inFlightCalls = s.inFlightCalls.erase t.callId)
      (haccept : s'.acceptCalls = s.acceptCalls) (hsessions : s'.sessions = s.sessions)

theorem Change.refl (s : BaleSignaling) (m : SignalingMove) : Change s m s := .none rfl rfl rfl rfl

theorem change_setPc {s : BaleSignaling} {m : SignalingMove} {n : ℕ} {t : Handler} {pc : HandlerPc}
    (ht : s.handlers[n]? = some t) (hin : pc.InFlight = t.pc.InFlight)
    (hacc : pc.BeforeAccept → t.pc.BeforeAccept) (hses : pc.Accepting → t.pc.Accepting)
    (hstay : t.pc ≠ .ignored) (hpc : pc ≠ .ignored) : Change s m (s.setPc n pc) :=
  .inner n t pc ht hin hacc hses hstay (fun h => absurd h hpc) rfl rfl rfl rfl

theorem handlerStep_change (s : BaleSignaling) (n : ℕ) : Change s (.step n) (s.handlerStep n) := by
  unfold handlerStep
  split
  · next t ht =>
    split
    · next hpc =>
      have hignored (hin : t.Valid → t.callId ∈ s.inFlightCalls) :
          Change s (.step n) (s.setPc n .ignored) := by
        refine .inner n t .ignored ht ?_ ?_ ?_ ?_ (fun _ => ⟨rfl, hpc, hin⟩) rfl rfl rfl rfl <;> simp [hpc]
      split
      · next hvalid =>
        split
        · next hin => exact hignored fun _ => hin
        · next hnot => exact .enter n t rfl ht hpc hvalid hnot rfl rfl rfl rfl
      · next hvalid => exact hignored fun h => absurd h hvalid
    · next hpc => split <;> apply change_setPc ht <;> simp [hpc]
    · next hpc => split <;> apply change_setPc ht <;> simp [hpc]
    · next hpc => refine .inner n t .deciding ht ?_ ?_ ?_ ?_ ?_ rfl rfl rfl rfl <;> simp [hpc]
    · next d hpc => refine .inner n t (.decided d) ht ?_ ?_ ?_ ?_ ?_ rfl rfl rfl rfl <;> simp [hpc]
    · next hpc => exact .accept n t ht hpc rfl rfl rfl rfl
    · next hpc => apply change_setPc ht <;> simp [hpc]
    · next hpc => apply change_setPc ht <;> simp [hpc]
    · next e hpc => refine .inner n t (.announce e) ht ?_ ?_ ?_ ?_ ?_ rfl rfl rfl rfl <;> simp [hpc]
    · next e hpc =>
      split
      · exact .announce n t e _ ht hpc rfl rfl rfl rfl rfl
      · refine .inner n t .release ht ?_ ?_ ?_ ?_ ?_ rfl rfl rfl rfl <;> simp [hpc]
    · next hpc => exact .leave n t ht hpc rfl rfl rfl rfl
    -- The waits, and the ends.
    · exact .refl s _
    · exact .refl s _
    · exact .refl s _
    · exact .refl s _
    · exact .refl s _
  · exact .refl s _

theorem callEnded_change (s : BaleSignaling) (m : SignalingMove) (callId : ℤ) :
    Change s m (s.callEnded callId) := by
  unfold callEnded
  cases hopen : s.openTask callId with
  | none =>
    simp only
    split
    · exact .none rfl rfl rfl rfl
    · exact .refl s _
  | some n =>
    simp only
    split
    · exact .hungUp n rfl rfl rfl rfl
    · exact .hungUp n rfl rfl rfl rfl

theorem dispatchXc_change (s : BaleSignaling) (m : SignalingMove) (update : XcUpdate) :
    Change s m (s.dispatchXc update) := by
  unfold dispatchXc
  split
  · split
    · exact s.callEnded_change m _
    · exact .refl s _
  · split
    · exact .spawn _ rfl rfl rfl rfl rfl
    · exact .refl s _

theorem takeEvent_change (s : BaleSignaling) (m : SignalingMove) : Change s m s.takeEvent := by
  unfold takeEvent
  split
  · unfold onWsCallEnded
    split
    · exact .none rfl rfl rfl rfl
    · split
      · exact .none rfl rfl rfl rfl
      · exact .none rfl rfl rfl rfl
  · exact .refl s _

theorem move_change (s : BaleSignaling) (m : SignalingMove) : Change s m (s.move m) := by
  cases m with
  | push update => exact s.dispatchXc_change _ update
  | step n => exact s.handlerStep_change n
  | answer n d =>
    simp only [move, answer]
    split
    · next t ht =>
      split
      · next hpc => apply change_setPc ht <;> simp [hpc]
      · exact .refl s _
    · exact .refl s _
  | cancel n =>
    simp only [move, cancel]
    split
    · next t ht =>
      split
      · next hpc => apply change_setPc ht <;> simp [hpc.1]
      · exact .refl s _
    · exact .refl s _
  | reply n accepted =>
    simp only [move, reply]
    split
    · next t ht =>
      split
      · next hpc =>
        have hrelease : Change s (.reply n accepted) (s.setPc n .release) := by apply change_setPc ht <;> simp [hpc]
        split
        · split
          · exact hrelease
          · apply change_setPc ht <;> simp [hpc]
        · exact hrelease
      · exact .refl s _
    · exact .refl s _
  | discarded n =>
    simp only [move, discarded]
    split
    · next t ht =>
      split
      · next hpc => apply change_setPc ht <;> simp [hpc]
      · exact .refl s _
    · exact .refl s _
  | takeEvent => exact s.takeEvent_change _
  | takeSession =>
    simp only [move, takeSession]
    split
    · exact .none rfl rfl rfl rfl
    · exact .refl s _
  | sessionOver peer => exact .none rfl rfl rfl rfl
  | placed callId peer => exact .none rfl rfl rfl rfl
  | setHandler => exact .none rfl rfl rfl rfl
  | setDecider => exact .none rfl rfl rfl rfl
  | setConsumer => exact .none rfl rfl rfl rfl

/-! ## One task at a time -/

/-- A call in flight is in the set, with one task. -/
structure Flight (s : BaleSignaling) : Prop where
  flight : ∀ (n : ℕ) (t : Handler), s.handlers[n]? = some t → t.pc.InFlight → t.callId ∈ s.inFlightCalls
  single : ∀ (i j : ℕ) (a b : Handler), s.handlers[i]? = some a → s.handlers[j]? = some b →
    a.callId = b.callId → a.pc.InFlight → b.pc.InFlight → i = j

namespace Flight

variable {s s' : BaleSignaling} {n : ℕ} {t : Handler} {pc : HandlerPc}

theorem not_inFlight (h : Flight s) (ht : s.handlers[n]? = some t) (hin : t.pc.InFlight) {l : ℕ}
    {b : Handler} (hb : s.handlers[l]? = some b) (hl : n ≠ l) (hid : b.callId = t.callId) :
    ¬ b.pc.InFlight :=
  fun hbin => hl (h.single n l t b ht hb hid.symm hin hbin)

theorem follow (h : Flight s)
    (hback : ∀ (l : ℕ) (b : Handler), s'.handlers[l]? = some b → b.pc.InFlight →
      ∃ a, s.handlers[l]? = some a ∧ a.callId = b.callId ∧ a.pc.InFlight)
    (hflight : s'.inFlightCalls = s.inFlightCalls) : Flight s' where
  flight l b hb hin := by
    obtain ⟨a, ha, hid, hain⟩ := hback l b hb hin
    rw [hflight, ← hid]
    exact h.flight l a ha hain
  single i j a b ha hb hid hai hbi := by
    obtain ⟨a', ha', hida, hai'⟩ := hback i a ha hai
    obtain ⟨b', hb', hidb, hbi'⟩ := hback j b hb hbi
    exact h.single i j a' b' ha' hb' (by rw [hida, hidb, hid]) hai' hbi'

theorem setPc (h : Flight s) (ht : s.handlers[n]? = some t) (hin : pc.InFlight → t.pc.InFlight) :
    Flight (s.setPc n pc) := by
  refine h.follow (fun l b hb hbin => ?_) rfl
  obtain ⟨rfl, rfl⟩ | ⟨-, hb⟩ := getElem?_setPc ht hb
  · exact ⟨t, ht, rfl, hin hbin⟩
  · exact ⟨b, hb, rfl, hbin⟩

theorem enter (h : Flight s) (ht : s.handlers[n]? = some t) (hnot : t.callId ∉ s.inFlightCalls) :
    Flight ({ s with inFlightCalls := insert t.callId s.inFlightCalls }.setPc n .lookup) where
  flight l b hb hin := by
    obtain ⟨rfl, rfl⟩ | ⟨-, hb⟩ := getElem?_setPc ht hb
    · exact Finset.mem_insert_self _ _
    · exact Finset.mem_insert_of_mem (h.flight l b hb hin)
  single i j a b ha hb hid hai hbi := by
    obtain ⟨rfl, rfl⟩ | ⟨hi, ha⟩ := getElem?_setPc ht ha <;>
      obtain ⟨rfl, rfl⟩ | ⟨hj, hb⟩ := getElem?_setPc ht hb
    · rfl
    · exact absurd (hid ▸ h.flight j b hb hbi) hnot
    · exact absurd (hid ▸ h.flight i a ha hai) hnot
    · exact h.single i j a b ha hb hid hai hbi

theorem leave (h : Flight s) (ht : s.handlers[n]? = some t) (hpc : t.pc = .release) :
    Flight ({ s with inFlightCalls := s.inFlightCalls.erase t.callId }.setPc n .returned) where
  flight l b hb hin := by
    obtain ⟨rfl, rfl⟩ | ⟨hl, hb⟩ := getElem?_setPc ht hb
    · simp at hin
    · refine Finset.mem_erase.mpr ⟨fun hid => ?_, h.flight l b hb hin⟩
      exact h.not_inFlight ht (by simp [hpc]) hb hl hid hin
  single := (h.setPc ht (by simp)).single

end Flight

/-- Each call is accepted and handed on at most once. -/
structure OneEach (s : BaleSignaling) : Prop extends Flight s where
  quiet : ∀ (n : ℕ) (t : Handler), s.handlers[n]? = some t → t.pc.BeforeAccept → t.callId ∉ s.acceptCalls.map Prod.fst
  asked : ∀ (n : ℕ) (t : Handler), s.handlers[n]? = some t → t.pc.Accepting →
    t.callId ∈ s.acceptCalls.map Prod.fst ∧ t.callId ∉ s.sessions.map Session.callId
  accepts : (s.acceptCalls.map Prod.fst).Nodup
  sent : (s.sessions.map Session.callId).Nodup
  accepted : ∀ callId ∈ s.sessions.map Session.callId, callId ∈ s.acceptCalls.map Prod.fst

/-- A push of a call is handled while `AcceptCall` has not been sent for it, or its task is there. -/
def Fresh (s : BaleSignaling) : SignalingMove → Prop
  | .step n => ∀ t ∈ s.handlers[n]?, t.pc = .start → t.Valid → t.callId ∈ s.acceptCalls.map Prod.fst →
    t.callId ∈ s.inFlightCalls
  | _ => True

instance (s : BaleSignaling) : (m : SignalingMove) → Decidable (Fresh s m)
  | .step _ => inferInstanceAs (Decidable (∀ t ∈ _, _))
  | .push _ | .answer _ _ | .cancel _ | .reply _ _ | .discarded _ | .takeEvent | .takeSession
  | .sessionOver _ | .placed _ _ | .setHandler | .setDecider | .setConsumer => isTrue trivial

namespace OneEach

variable {s s' : BaleSignaling} {n : ℕ} {t : Handler} {pc : HandlerPc}

theorem start (hasHandler hasDecider hasConsumer : Bool) :
    OneEach (BaleSignaling.start hasHandler hasDecider hasConsumer) where
  flight _ _ ht := by simp [BaleSignaling.start] at ht
  single _ _ _ _ ha := by simp [BaleSignaling.start] at ha
  quiet _ _ ht := by simp [BaleSignaling.start] at ht
  asked _ _ ht := by simp [BaleSignaling.start] at ht
  accepts := .nil
  sent := .nil
  accepted _ hx := by simp [BaleSignaling.start] at hx

theorem follow (h : OneEach s)
    (hback : ∀ (l : ℕ) (b : Handler), s'.handlers[l]? = some b → b.pc ≠ .start →
      ∃ a, s.handlers[l]? = some a ∧ a.callId = b.callId ∧ (b.pc.InFlight → a.pc.InFlight) ∧
        (b.pc.BeforeAccept → a.pc.BeforeAccept) ∧ (b.pc.Accepting → a.pc.Accepting))
    (hflight : s'.inFlightCalls = s.inFlightCalls) (haccept : s'.acceptCalls = s.acceptCalls)
    (hsessions : s'.sessions = s.sessions) : OneEach s' where
  toFlight := by
    refine h.toFlight.follow (fun l b hb hin => ?_) hflight
    obtain ⟨a, ha, hid, hain, -⟩ := hback l b hb (by rintro hpc; simp [hpc] at hin)
    exact ⟨a, ha, hid, hain hin⟩
  quiet l b hb hacc := by
    obtain ⟨a, ha, hid, -, hacc', -⟩ := hback l b hb (by rintro hpc; simp [hpc] at hacc)
    rw [haccept, ← hid]
    exact h.quiet l a ha (hacc' hacc)
  asked l b hb hses := by
    obtain ⟨a, ha, hid, -, -, hses'⟩ := hback l b hb (by rintro hpc; simp [hpc] at hses)
    rw [haccept, hsessions, ← hid]
    exact h.asked l a ha (hses' hses)
  accepts := by rw [haccept]; exact h.accepts
  sent := by rw [hsessions]; exact h.sent
  accepted := by rw [hsessions, haccept]; exact h.accepted

theorem enter (h : OneEach s) (ht : s.handlers[n]? = some t) (hnot : t.callId ∉ s.inFlightCalls)
    (hfresh : t.callId ∉ s.acceptCalls.map Prod.fst) :
    OneEach ({ s with inFlightCalls := insert t.callId s.inFlightCalls }.setPc n .lookup) where
  toFlight := h.toFlight.enter ht hnot
  quiet l b hb hacc := by
    obtain ⟨rfl, rfl⟩ | ⟨-, hb⟩ := getElem?_setPc ht hb
    · exact hfresh
    · exact h.quiet l b hb hacc
  asked l b hb hses := by
    obtain ⟨rfl, rfl⟩ | ⟨-, hb⟩ := getElem?_setPc ht hb
    · simp at hses
    · exact h.asked l b hb hses
  accepts := h.accepts
  sent := h.sent
  accepted := h.accepted

theorem accept (h : OneEach s) (ht : s.handlers[n]? = some t) (hpc : t.pc = .decided .accept) :
    OneEach ({ s with acceptCalls := s.acceptCalls ++ [(t.callId, n)] }.setPc n .accepting) where
  flight := (h.toFlight.setPc ht (by simp [hpc])).flight
  single := (h.toFlight.setPc ht (by simp [hpc])).single
  quiet l b hb hacc := by
    obtain ⟨rfl, rfl⟩ | ⟨hl, hb⟩ := getElem?_setPc ht hb
    · simp at hacc
    · have hne : b.callId ≠ t.callId := fun hid =>
        h.not_inFlight ht (by simp [hpc]) hb hl hid (HandlerPc.inFlight_of_beforeAccept hacc)
      simp [BaleSignaling.setPc, h.quiet l b hb hacc, hne]
  asked l b hb hses := by
    obtain ⟨rfl, rfl⟩ | ⟨-, hb⟩ := getElem?_setPc ht hb
    · refine ⟨by simp [BaleSignaling.setPc], fun hmem => ?_⟩
      exact h.quiet n t ht (by simp [hpc]) (h.accepted _ hmem)
    · obtain ⟨hmem, hnot⟩ := h.asked l b hb hses
      refine ⟨?_, hnot⟩
      rw [BaleSignaling.setPc, List.map_append]
      exact List.mem_append_left _ hmem
  accepts := by
    have hnot : t.callId ∉ s.acceptCalls.map Prod.fst := h.quiet n t ht (by simp [hpc])
    rw [BaleSignaling.setPc, List.map_append]
    exact List.nodup_append_comm.mpr (List.nodup_cons.mpr ⟨hnot, h.accepts⟩)
  sent := h.sent
  accepted callId hmem := by
    rw [BaleSignaling.setPc, List.map_append]
    exact List.mem_append_left _ (h.accepted callId hmem)

theorem announce (h : OneEach s) (ht : s.handlers[n]? = some t) {e : CallEntity}
    (hpc : t.pc = .announce e) {x : Session} (hx : x.callId = t.callId) :
    OneEach ({ s with sessions := s.sessions ++ [x] }.setPc n .release) where
  flight := (h.toFlight.setPc ht (by simp [hpc])).flight
  single := (h.toFlight.setPc ht (by simp [hpc])).single
  quiet l b hb hacc := by
    obtain ⟨rfl, rfl⟩ | ⟨-, hb⟩ := getElem?_setPc ht hb
    · simp at hacc
    · exact h.quiet l b hb hacc
  asked l b hb hses := by
    obtain ⟨rfl, rfl⟩ | ⟨hl, hb⟩ := getElem?_setPc ht hb
    · simp at hses
    · obtain ⟨hmem, hnot⟩ := h.asked l b hb hses
      have hne : b.callId ≠ t.callId := fun hid =>
        h.not_inFlight ht (by simp [hpc]) hb hl hid (HandlerPc.inFlight_of_accepting hses)
      refine ⟨hmem, ?_⟩
      simpa [BaleSignaling.setPc, hx, hne] using hnot
  accepts := h.accepts
  sent := by
    have hnot := (h.asked n t ht (by simp [hpc])).2
    simp only [BaleSignaling.setPc, List.map_append, List.map_cons, List.map_nil, hx]
    exact List.nodup_append_comm.mpr (List.nodup_cons.mpr ⟨hnot, h.sent⟩)
  accepted callId hmem := by
    simp only [BaleSignaling.setPc, List.map_append, List.map_cons, List.map_nil, hx] at hmem
    obtain hmem | hmem := List.mem_append.mp hmem
    · exact h.accepted callId hmem
    · rw [List.mem_singleton.mp hmem]
      exact (h.asked n t ht (by simp [hpc])).1

theorem leave (h : OneEach s) (ht : s.handlers[n]? = some t) (hpc : t.pc = .release) :
    OneEach ({ s with inFlightCalls := s.inFlightCalls.erase t.callId }.setPc n .returned) where
  toFlight := h.toFlight.leave ht hpc
  quiet l b hb hacc := by
    obtain ⟨rfl, rfl⟩ | ⟨-, hb⟩ := getElem?_setPc ht hb
    · simp at hacc
    · exact h.quiet l b hb hacc
  asked l b hb hses := by
    obtain ⟨rfl, rfl⟩ | ⟨-, hb⟩ := getElem?_setPc ht hb
    · simp at hses
    · exact h.asked l b hb hses
  accepts := h.accepts
  sent := h.sent
  accepted := h.accepted

theorem congr (h : OneEach s) (hhandlers : s'.handlers = s.handlers)
    (hflight : s'.inFlightCalls = s.inFlightCalls) (haccept : s'.acceptCalls = s.acceptCalls)
    (hsessions : s'.sessions = s.sessions) : OneEach s' :=
  h.follow (fun l b hb _ => ⟨b, by rw [← hhandlers, hb], rfl, id, id, id⟩) hflight haccept hsessions

theorem move (h : OneEach s) (m : SignalingMove) (hfresh : Fresh s m) : OneEach (s.move m) := by
  cases s.move_change m with
  | none hhandlers hflight haccept hsessions => exact h.congr hhandlers hflight haccept hsessions
  | spawn t ht hhandlers hflight haccept hsessions =>
    refine h.follow (fun l b hb hpc => ?_) hflight haccept hsessions
    rw [hhandlers] at hb
    obtain hb | ⟨-, rfl⟩ := getElem?_concat_eq_some hb
    · exact ⟨b, hb, rfl, id, id, id⟩
    · exact absurd ht hpc
  | hungUp n hhandlers hflight haccept hsessions =>
    refine h.follow (fun l b hb hpc => ?_) hflight haccept hsessions
    rw [hhandlers] at hb
    obtain ⟨a, ha, rfl⟩ := getElem?_modify_eq_some hb
    refine ⟨a, ha, ?_⟩
    split <;> exact ⟨rfl, id, id, id⟩
  | enter n t hm ht hpc hvalid hnot hhandlers hflight haccept hsessions =>
    subst hm
    have hnew : t.callId ∉ s.acceptCalls.map Prod.fst := fun hmem => hnot (hfresh t ht hpc hvalid hmem)
    exact (h.enter ht hnot hnew).congr hhandlers hflight haccept hsessions
  | inner n t pc ht hin hacc hses _ _ hhandlers hflight haccept hsessions =>
    refine h.follow (fun l b hb _ => ?_) hflight haccept hsessions
    rw [hhandlers] at hb
    obtain ⟨rfl, rfl⟩ | ⟨-, hb⟩ := getElem?_setPc ht hb
    · exact ⟨t, ht, rfl, fun h => hin ▸ h, hacc, hses⟩
    · exact ⟨b, hb, rfl, id, id, id⟩
  | accept n t ht hpc hhandlers hflight haccept hsessions =>
    exact (h.accept ht hpc).congr hhandlers hflight haccept hsessions
  | announce n t e x ht hpc hx hhandlers hflight haccept hsessions =>
    exact (h.announce ht hpc hx).congr hhandlers hflight haccept hsessions
  | leave n t ht hpc hhandlers hflight haccept hsessions =>
    exact (h.leave ht hpc).congr hhandlers hflight haccept hsessions

end OneEach

/-- No push of a call is handled once the task that sent its `AcceptCall` has returned: then each call
is accepted once and has one session. -/
theorem one_session_per_call (hasHandler hasDecider hasConsumer : Bool) (ms : List SignalingMove)
    (h : Along move Fresh (start hasHandler hasDecider hasConsumer) ms) (callId : ℤ) :
    (((start hasHandler hasDecider hasConsumer).run ms).acceptCalls.map Prod.fst).count callId ≤ 1 ∧
      (((start hasHandler hasDecider hasConsumer).run ms).sessions.map Session.callId).count callId ≤ 1 := by
  have hone : OneEach ((start hasHandler hasDecider hasConsumer).run ms) :=
    Along.invariant (fun s m hfresh hone => hone.move m hfresh)
      (OneEach.start hasHandler hasDecider hasConsumer) h
  exact ⟨List.nodup_iff_count_le_one.mp hone.accepts callId,
    List.nodup_iff_count_le_one.mp hone.sent callId⟩

/-- Task `n` takes a call to its session: the decider accepts and the reply has the credentials. -/
def acceptedBy (n : ℕ) : List SignalingMove :=
  List.replicate 4 (SignalingMove.step n) ++ [SignalingMove.answer n .accept, .step n, .step n,
    .reply n (some { token := "t", isLivekit := true }), .step n, .step n, .step n]

/-- The pushes of two calls, one of them twice while it is in flight. -/
def overlapping : List SignalingMove :=
  [SignalingMove.push (.callReceived 9 500), .step 0, .push (.callReceived 9 500),
    .push (.callReceived 8 600), .step 1] ++ (acceptedBy 0).tail ++ acceptedBy 2

theorem one_session_per_call_overlapping :
    (((start true true true).run overlapping).acceptCalls.map Prod.fst).count 9 ≤ 1 ∧
      (((start true true true).run overlapping).sessions.map Session.callId).count 9 ≤ 1 :=
  one_session_per_call true true true overlapping (by decide +kernel) 9

/-- A push is delivered again after its call has been handled. -/
def redelivered : List SignalingMove :=
  [SignalingMove.push (.callReceived 9 500)] ++ acceptedBy 0 ++
    [SignalingMove.push (.callReceived 9 500)] ++ acceptedBy 1

theorem redelivery_accepts_twice :
    ¬ ((((start true true true).run redelivered).acceptCalls.map Prod.fst).count 9 ≤ 1 ∧
      (((start true true true).run redelivered).sessions.map Session.callId).count 9 ≤ 1) := by
  decide +kernel

end BaleSignaling

end BaleVpn.Signaling
