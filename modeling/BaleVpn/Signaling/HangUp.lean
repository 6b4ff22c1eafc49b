import BaleVpn.Signaling.Dedup

/-!
# A caller who hangs up while the decision is open (`signaling.rs`, `manager.rs`)

The manager's `CallEnded` handler cancels an open decision. Its event comes from `active_peers`, and an
incoming call is entered there when its `AcceptCall` has been answered. A `callEnded` that finds the
decision open is therefore dropped as unknown, but for a call that was accepted before and is delivered
again. There it takes effect if the manager has no session of the peer by the time it takes the event,
the sender in its map is still the one of this decision, and the decider does not come first. The decision
itself ends when its `select!` is polled next, which is a move of its own.
-/

namespace BaleVpn.Signaling

open Lib Daemon

namespace HandlerPc

/-- The `select!` is over, and the call is neither accepted nor rejected. -/
@[simp]
def Off : HandlerPc → Bool
  | .clear .silentlyIgnore | .decided .silentlyIgnore | .release | .returned => true
  | _ => false

/-- The cancel sender has been filed. -/
@[simp]
def Registered : HandlerPc → Bool
  | .start | .lookup | .decider | .register | .ignored => false
  | _ => true

/-- The task has not sent `AcceptCall`. -/
@[simp]
def Unsent : HandlerPc → Bool
  | .start | .lookup | .decider | .register | .deciding | .clear _ | .decided _ | .ignored => true
  | _ => false

/-- Where a step may lead. -/
inductive Next : HandlerPc → HandlerPc → Prop
  | checked : Next .start .lookup
  | dropped : Next .start .ignored
  | handler : Next .lookup .decider
  | noHandler : Next .lookup .release
  | asks : Next .decider .register
  | noDecider : Next .decider (.decided .silentlyIgnore)
  | files : Next .register .deciding
  | answered (d : CallDecision) : Next .deciding (.clear d)
  | clears (d : CallDecision) : Next (.clear d) (.decided d)
  | accepts : Next (.decided .accept) .accepting
  | rejects : Next (.decided .reject) .discarding
  | ignores : Next (.decided .silentlyIgnore) .release
  | accepted (e : CallEntity) : Next .accepting (.track e)
  | failed : Next .accepting .release
  | discarded : Next .discarding .release
  | tracked (e : CallEntity) : Next (.track e) (.announce e)
  | announced (e : CallEntity) : Next (.announce e) .release
  | leaves : Next .release .returned

theorem Next.off {pc pc' : HandlerPc} (h : Next pc pc') (hoff : pc.Off = true) : pc'.Off = true := by
  cases h <;> first | rfl | simp at hoff
  rename_i d
  cases d <;> simp_all

theorem Next.registered {pc pc' : HandlerPc} (h : Next pc pc') (hreg : pc.Registered = true) :
    pc'.Registered = true := by
  cases h <;> first | rfl | simp at hreg

end HandlerPc

namespace BaleSignaling

/-- Task `n` was hung up on, and no event of that is left. -/
def Consumed (s : BaleSignaling) (n : ℕ) (t : Handler) : Prop :=
  s.handlers[n]? = some t ∧ t.hungUp = true ∧ ∀ e ∈ s.events, e.2 ≠ some n

/-- A hang-up finds the call tracked and its `select!` waiting; when the manager takes its event, there is
no session of the peer and the sender is still there; and the decider does not answer in between. -/
def Heard (s : BaleSignaling) : SignalingMove → Prop
  | .push (.callEnded callId) => callId ≠ 0 → ∀ n ∈ s.openTask callId, ∀ t ∈ s.handlers[n]?,
    t.hungUp = false → t.pc = .deciding ∧ s.activePeers callId = some t.callerId
  | .takeEvent => ∀ e ∈ s.events.head?, ∀ n ∈ e.2, ∀ t ∈ s.handlers[n]?,
    s.registry e.1 = false ∧ s.pending t.callerId = some n
  | .answer n _ => ∀ t ∈ s.handlers[n]?, t.hungUp = false
  | _ => True

instance (s : BaleSignaling) : (m : SignalingMove) → Decidable (Heard s m)
  | .push (.callEnded _) => inferInstanceAs (Decidable (_ → _))
  | .takeEvent => inferInstanceAs (Decidable (∀ e ∈ _, _))
  | .answer _ _ => inferInstanceAs (Decidable (∀ t ∈ _, _))
  | .push (.callStarted _) | .push (.callReceived _ _) | .step _ | .cancel _ | .reply _ _ | .discarded _
  | .takeSession | .sessionOver _ | .placed _ _ | .setHandler | .setDecider | .setConsumer => isTrue trivial

/-! ## The invariant -/

/-- The event of the hang-up is on its way, or the manager has acted on it. -/
def Arriving (s : BaleSignaling) (n : ℕ) (t : Handler) : Prop :=
  (t.callerId, some n) ∈ s.events ∨ s.pending t.callerId ≠ some n ∧ t.callerId ∈ s.failed

structure Tracked (s : BaleSignaling) : Prop where
  unsent : ∀ (n : ℕ) (t : Handler), s.handlers[n]? = some t → t.pc.Unsent → n ∉ s.acceptCalls.map Prod.snd
  bound : ∀ n ∈ s.acceptCalls.map Prod.snd, n < s.handlers.length
  hungUp : ∀ (n : ℕ) (t : Handler), s.handlers[n]? = some t → t.hungUp = true →
    (t.pc = .deciding ∨ t.pc.Off) ∧ n ∉ s.acceptCalls.map Prod.snd ∧ Arriving s n t

namespace Tracked

variable {s s' : BaleSignaling} {n : ℕ} {t : Handler}

theorem arriving_mono (h : Arriving s n t) (hevents : ∀ e ∈ s.events, e ∈ s'.events)
    (hpending : s'.pending t.callerId = some n → s.pending t.callerId = some n)
    (hfailed : ∀ p ∈ s.failed, p ∈ s'.failed) : Arriving s' n t := by
  obtain hmem | ⟨hp, hf⟩ := h
  · exact .inl (hevents _ hmem)
  · exact .inr ⟨fun h => hp (hpending h), hfailed _ hf⟩

theorem setPc (h : Tracked s) (ht : s.handlers[n]? = some t) (pc : HandlerPc)
    (hunsent : pc.Unsent → t.pc.Unsent) (hoff : t.hungUp = true → pc = .deciding ∨ pc.Off)
    (hhandlers : s'.handlers = (s.setPc n pc).handlers) (haccept : s'.acceptCalls = s.acceptCalls)
    (hevents : s'.events = s.events) (hfailed : s'.failed = s.failed)
    (hpending : ∀ p l, s'.pending p = some l → s.pending p = some l ∨ l = n ∧ t.hungUp = false) :
    Tracked s' where
  unsent l b hb hpc := by
    rw [hhandlers] at hb
    rw [haccept]
    obtain ⟨rfl, rfl⟩ | ⟨-, hb⟩ := getElem?_setPc ht hb
    · exact h.unsent n t ht (hunsent hpc)
    · exact h.unsent l b hb hpc
  bound l hl := by
    rw [haccept] at hl
    rw [hhandlers, BaleSignaling.setPc, List.length_modify]
    exact h.bound l hl
  hungUp l b hb hup := by
    have harriving : ∀ a : Handler, s.handlers[l]? = some a → a.hungUp = true → a.callerId = b.callerId →
        Arriving s' l b := by
      intro a ha haup hcaller
      have harr := (h.hungUp l a ha haup).2.2
      simp only [Arriving, hcaller] at harr
      refine arriving_mono harr (fun e he => by rw [hevents]; exact he) (fun hp => ?_)
        (fun p hp => by rw [hfailed]; exact hp)
      obtain hp | ⟨rfl, hnot⟩ := hpending _ l hp
      · exact hp
      · obtain rfl : a = t := by simpa [ha] using ht
        simp [haup] at hnot
    rw [hhandlers] at hb
    rw [haccept]
    obtain ⟨rfl, rfl⟩ | ⟨-, hb⟩ := getElem?_setPc ht hb
    · obtain ⟨-, hnot, -⟩ := h.hungUp n t ht hup
      exact ⟨hoff hup, hnot, harriving t ht hup rfl⟩
    · obtain ⟨hboff, hnot, -⟩ := h.hungUp l b hb hup
      exact ⟨hboff, hnot, harriving b hb hup rfl⟩

theorem accept (h : Tracked s) (ht : s.handlers[n]? = some t) (hpc : t.pc = .decided .accept) :
    Tracked ({ s with acceptCalls := s.acceptCalls ++ [(t.callId, n)] }.setPc n .accepting) := by
  -- It was not hung up on, or its point would be another.
  have hnot : t.hungUp = false := by
    by_contra hup
    have := (h.hungUp n t ht (by simpa using hup)).1
    simp [hpc] at this
  refine ⟨fun l b hb hbpc => ?_, fun l hl => ?_, fun l b hb hup => ?_⟩
  · obtain ⟨rfl, rfl⟩ | ⟨hl, hb⟩ := getElem?_setPc ht hb
    · simp at hbpc
    · simpa [BaleSignaling.setPc, hl.symm] using h.unsent l b hb hbpc
  · simp only [BaleSignaling.setPc, List.map_append, List.map_cons, List.map_nil, List.mem_append,
      List.mem_singleton, List.length_modify] at hl ⊢
    obtain hl | rfl := hl
    · exact h.bound l hl
    · exact (List.getElem?_eq_some_iff.mp ht).1
  · obtain ⟨rfl, rfl⟩ | ⟨hl, hb⟩ := getElem?_setPc ht hb
    · simp [hnot] at hup
    · obtain ⟨hboff, hunsent, harr⟩ := h.hungUp l b hb hup
      refine ⟨hboff, ?_, harr⟩
      simpa [BaleSignaling.setPc, hl.symm] using hunsent

theorem congr (h : Tracked s) (hhandlers : s'.handlers = s.handlers)
    (haccept : s'.acceptCalls = s.acceptCalls)
    (harriving : ∀ n t, s.handlers[n]? = some t → t.hungUp = true → Arriving s n t → Arriving s' n t) :
    Tracked s' where
  unsent := by rw [hhandlers, haccept]; exact h.unsent
  bound := by rw [hhandlers, haccept]; exact h.bound
  hungUp n t ht hup := by
    rw [hhandlers] at ht
    rw [haccept]
    obtain ⟨hoff, hunsent, harr⟩ := h.hungUp n t ht hup
    exact ⟨hoff, hunsent, harriving n t ht hup harr⟩

theorem step (h : Tracked s) (n : ℕ) : Tracked (s.handlerStep n) := by
  unfold handlerStep
  split
  · next t ht =>
    have hup : t.hungUp = true → t.pc = .deciding ∨ t.pc.Off := fun hup => (h.hungUp n t ht hup).1
    split
    · next hpc =>
      have hnot : t.hungUp = true → False := fun h => by simpa [hpc] using hup h
      split
      · split
        · exact h.setPc ht .ignored (by simp [hpc]) (fun h => (hnot h).elim) rfl rfl rfl rfl fun _ _ => .inl
        · exact h.setPc ht .lookup (by simp [hpc]) (fun h => (hnot h).elim) rfl rfl rfl rfl fun _ _ => .inl
      · exact h.setPc ht .ignored (by simp [hpc]) (fun h => (hnot h).elim) rfl rfl rfl rfl fun _ _ => .inl
    · next hpc =>
      have hnot : t.hungUp = true → False := fun h => by simpa [hpc] using hup h
      exact h.setPc ht _ (by simp [hpc]) (fun h => (hnot h).elim) rfl rfl rfl rfl fun _ _ => .inl
    · next hpc =>
      have hnot : t.hungUp = true → False := fun h => by simpa [hpc] using hup h
      exact h.setPc ht _ (by simp [hpc]) (fun h => (hnot h).elim) rfl rfl rfl rfl fun _ _ => .inl
    · next hpc =>
      have hnot : t.hungUp = true → False := fun h => by simpa [hpc] using hup h
      refine h.setPc ht .deciding (by simp [hpc]) (fun h => (hnot h).elim) rfl rfl rfl rfl fun p l hp => ?_
      by_cases hpeer : p = t.callerId
      · subst hpeer
        obtain rfl : n = l := by simpa [BaleSignaling.setPc] using hp
        exact .inr ⟨rfl, by simpa using hnot⟩
      · exact .inl (by simpa [BaleSignaling.setPc, Function.update_of_ne hpeer] using hp)
    · next d hpc =>
      refine h.setPc ht (.decided d) (by simp [hpc]) (fun h => ?_) rfl rfl rfl rfl fun p l hp => ?_
      · have hoff := hup h
        rw [hpc] at hoff
        cases d with
        | silentlyIgnore => exact .inr rfl
        | accept => simp at hoff
        | reject => simp at hoff
      · by_cases hpeer : p = t.callerId
        · simp [BaleSignaling.setPc, hpeer] at hp
        · exact .inl (by simpa [BaleSignaling.setPc, Function.update_of_ne hpeer] using hp)
    · next hpc => exact h.accept ht hpc
    · next hpc =>
      have hnot : t.hungUp = true → False := fun h => by simpa [hpc] using hup h
      exact h.setPc ht .discarding (by simp [hpc]) (fun h => (hnot h).elim) rfl rfl rfl rfl fun _ _ => .inl
    · next hpc => exact h.setPc ht .release (by simp [hpc]) (fun _ => .inr rfl) rfl rfl rfl rfl fun _ _ => .inl
    · next e hpc =>
      have hnot : t.hungUp = true → False := fun h => by simpa [hpc] using hup h
      exact h.setPc ht (.announce e) (by simp) (fun h => (hnot h).elim) rfl rfl rfl rfl fun _ _ => .inl
    · next e hpc => exact h.setPc ht .release (by simp) (fun _ => .inr rfl) rfl rfl rfl rfl fun _ _ => .inl
    · next hpc => exact h.setPc ht .returned (by simp) (fun _ => .inr rfl) rfl rfl rfl rfl fun _ _ => .inl
    -- The waits, and the ends.
    · exact h
    · exact h
    · exact h
    · exact h
    · exact h
  · exact h

theorem mark (h : Tracked s) (hhandlers : s'.handlers = s.handlers.modify n fun t => { t with hungUp := true })
    (haccept : s'.acceptCalls = s.acceptCalls) (hpending : s'.pending = s.pending)
    (hfailed : s'.failed = s.failed) (hevents : ∀ e ∈ s.events, e ∈ s'.events)
    (hnews : ∀ t, s.handlers[n]? = some t → t.hungUp = false →
      t.pc = .deciding ∧ (t.callerId, some n) ∈ s'.events) : Tracked s' where
  unsent l b hb hpc := by
    rw [hhandlers] at hb
    rw [haccept]
    obtain ⟨a, ha, rfl⟩ := getElem?_modify_eq_some hb
    refine h.unsent l a ha ?_
    split at hpc
    · exact hpc
    · exact hpc
  bound l hl := by
    rw [haccept] at hl
    rw [hhandlers, List.length_modify]
    exact h.bound l hl
  hungUp l b hb hup := by
    have hold : ∀ a : Handler, s.handlers[l]? = some a → a.hungUp = true →
        (a.pc = .deciding ∨ a.pc.Off) ∧ l ∉ s'.acceptCalls.map Prod.snd ∧ Arriving s' l a := by
      intro a ha haup
      obtain ⟨hoff, hunsent, harr⟩ := h.hungUp l a ha haup
      rw [haccept]
      exact ⟨hoff, hunsent, arriving_mono harr hevents (fun hp => by rwa [hpending] at hp)
        (fun p hp => by rwa [hfailed])⟩
    rw [hhandlers] at hb
    obtain ⟨a, ha, rfl⟩ := getElem?_modify_eq_some hb
    by_cases hl : n = l
    · subst hl
      rw [if_pos rfl]
      cases haup : a.hungUp with
      | true => exact hold a ha haup
      | false =>
        obtain ⟨hpc, hevent⟩ := hnews a ha haup
        refine ⟨.inl hpc, ?_, .inl hevent⟩
        rw [haccept]
        exact h.unsent n a ha (by simp [hpc])
    · rw [if_neg hl] at hup ⊢
      exact hold a ha hup

theorem callEnded (h : Tracked s) (callId : ℤ)
    (hheard : ∀ n ∈ s.openTask callId, ∀ t ∈ s.handlers[n]?, t.hungUp = false →
      t.pc = .deciding ∧ s.activePeers callId = some t.callerId) : Tracked (s.callEnded callId) := by
  unfold BaleSignaling.callEnded
  cases hopen : s.openTask callId with
  | none =>
    simp only
    split
    · refine h.congr rfl rfl fun n t _ _ harr => ?_
      exact arriving_mono harr (fun e he => List.mem_append_left _ he) (fun hp => hp) (fun _ hp => hp)
    · exact h
  | some n =>
    have hheard' := hheard n hopen
    simp only
    cases hactive : s.activePeers callId with
    | some peer =>
      refine h.mark rfl rfl rfl rfl (fun e he => List.mem_append_left _ he) fun t ht hnot => ?_
      obtain ⟨hpc, hpeer⟩ := hheard' t ht hnot
      obtain rfl : peer = t.callerId := by simpa [hactive] using hpeer
      exact ⟨hpc, by simp⟩
    | none =>
      refine h.mark rfl rfl rfl rfl (fun _ he => he) fun t ht hnot => ?_
      obtain ⟨-, hpeer⟩ := hheard' t ht hnot
      simp [hactive] at hpeer

theorem takeEvent (h : Tracked s) (hheard : Heard s .takeEvent) : Tracked s.takeEvent := by
  unfold BaleSignaling.takeEvent
  split
  · next peer task events hevents =>
    have hhead : ∀ n ∈ task, ∀ t ∈ s.handlers[n]?, s.registry peer = false ∧ s.pending t.callerId = some n :=
      hheard (peer, task) (by simp [hevents])
    -- A task whose event this is has its sender in the map, which goes, and its peer is told.
    have harriving : ∀ n t, s.handlers[n]? = some t → Arriving s n t →
        Arriving (onWsCallEnded { s with events } peer) n t := by
      intro n t ht harr
      unfold onWsCallEnded
      obtain hmem | ⟨hpending, hfailed⟩ := harr
      · rw [hevents] at hmem
        obtain heq | hmem := List.mem_cons.mp hmem
        · obtain ⟨rfl, rfl⟩ : t.callerId = peer ∧ some n = task := by simpa using heq
          obtain ⟨hreg, hpend⟩ := hhead n rfl t ht
          simp only [hreg, hpend, Bool.false_eq_true, if_false, Option.isSome_some, if_true]
          exact .inr ⟨by simp, by simp⟩
        · split
          · exact .inl hmem
          · split
            · exact .inl hmem
            · exact .inl hmem
      · split
        · exact .inr ⟨hpending, hfailed⟩
        · split
          · refine .inr ⟨fun hp => ?_, List.mem_append_left _ hfailed⟩
            by_cases hpeer : t.callerId = peer
            · simp [hpeer] at hp
            · exact hpending (by simpa [Function.update_of_ne hpeer] using hp)
          · exact .inr ⟨hpending, hfailed⟩
    refine h.congr ?_ ?_ fun n t ht _ harr => harriving n t ht harr
    · unfold onWsCallEnded
      split
      · rfl
      · split <;> rfl
    · unfold onWsCallEnded
      split
      · rfl
      · split <;> rfl
  · exact h

/-- A call comes in: its task has sent nothing and is not hung up on. -/
theorem received (h : Tracked s) (callId : ℤ) (call : Option CallEntity) :
    Tracked { s with handlers := s.handlers ++ [{ callId, call }] } where
  unsent l b hb hpc := by
    obtain hb | ⟨rfl, rfl⟩ := getElem?_concat_eq_some hb
    · exact h.unsent l b hb hpc
    · exact fun hmem => Nat.lt_irrefl _ (h.bound _ hmem)
  bound l hl := by
    have hlt := h.bound l hl
    simp only [List.length_append, List.length_singleton]
    omega
  hungUp l b hb hup := by
    obtain hb | ⟨rfl, rfl⟩ := getElem?_concat_eq_some hb
    · exact h.hungUp l b hb hup
    · cases hup

theorem reply (h : Tracked s) (n : ℕ) (accepted : Option CallEntity) : Tracked (s.reply n accepted) := by
  unfold BaleSignaling.reply
  split
  · next t ht =>
    split
    · next hpc =>
      have hrelease : Tracked (s.setPc n .release) :=
        h.setPc ht .release (by simp) (fun _ => .inr rfl) rfl rfl rfl rfl fun _ _ => .inl
      split
      · next e =>
        split
        · exact hrelease
        · have hnot : t.hungUp = true → False := fun hup => by
            simpa [hpc] using (h.hungUp n t ht hup).1
          exact h.setPc ht (.track e) (by simp) (fun h => (hnot h).elim) rfl rfl rfl rfl fun _ _ => .inl
      · exact hrelease
    · exact h
  · exact h

theorem move (h : Tracked s) (m : SignalingMove) (hheard : Heard s m) : Tracked (s.move m) := by
  cases m with
  | push update =>
    simp only [BaleSignaling.move, dispatchXc]
    split
    · next callId =>
      split
      · next hid => exact h.callEnded callId (hheard hid)
      · exact h
    · split
      · next callId call _ => exact h.received callId call
      · exact h
  | step n => exact h.step n
  | answer n d =>
    simp only [BaleSignaling.move, BaleSignaling.answer]
    split
    · next t ht =>
      split
      · next hpc =>
        have hnot : t.hungUp = false := hheard t ht
        exact h.setPc ht (.clear d) (by simp [hpc]) (by simp [hnot]) rfl rfl rfl rfl fun _ _ => .inl
      · exact h
    · exact h
  | cancel n =>
    simp only [BaleSignaling.move, BaleSignaling.cancel]
    split
    · next t ht =>
      split
      · next hpc =>
        exact h.setPc ht (.clear .silentlyIgnore) (by simp [hpc.1]) (fun _ => .inr rfl) rfl rfl rfl rfl
          fun _ _ => .inl
      · exact h
    · exact h
  | reply n accepted => exact h.reply n accepted
  | discarded n =>
    simp only [BaleSignaling.move, BaleSignaling.discarded]
    split
    · next t ht =>
      split
      · exact h.setPc ht .release (by simp) (fun _ => .inr rfl) rfl rfl rfl rfl fun _ _ => .inl
      · exact h
    · exact h
  | takeEvent => exact h.takeEvent hheard
  | takeSession =>
    simp only [BaleSignaling.move, BaleSignaling.takeSession]
    split
    · exact h.congr rfl rfl fun _ _ _ _ harr => harr
    · exact h
  | sessionOver peer => exact h.congr rfl rfl fun _ _ _ _ harr => harr
  | placed c peer => exact h.congr rfl rfl fun _ _ _ _ harr => harr
  | setHandler => exact h.congr rfl rfl fun _ _ _ _ harr => harr
  | setDecider => exact h.congr rfl rfl fun _ _ _ _ harr => harr
  | setConsumer => exact h.congr rfl rfl fun _ _ _ _ harr => harr

theorem start (hasHandler hasDecider hasConsumer : Bool) :
    Tracked (BaleSignaling.start hasHandler hasDecider hasConsumer) where
  unsent _ _ ht := by simp [BaleSignaling.start] at ht
  bound _ hn := by simp [BaleSignaling.start] at hn
  hungUp _ _ ht := by simp [BaleSignaling.start] at ht

end Tracked

/-! ## What becomes of a task -/

/-- Task `n` before and after a move. -/
structure Follows (s : BaleSignaling) (m : SignalingMove) (n : ℕ) (t t' : Handler) : Prop where
  caller : t'.callerId = t.callerId
  pc : t'.pc = t.pc ∨ t.pc.Next t'.pc
  hungUp : t'.hungUp = t.hungUp ∨ t'.hungUp = true ∧
    ∃ callId, m = .push (.callEnded callId) ∧ callId ≠ 0 ∧ s.openTask callId = some n

section Follows

variable {s : BaleSignaling} {m : SignalingMove} {n : ℕ} {t : Handler}

theorem follows_same (ht : s.handlers[n]? = some t) :
    ∃ t', s.handlers[n]? = some t' ∧ Follows s m n t t' := ⟨t, ht, rfl, .inl rfl, .inl rfl⟩

theorem follows_setPc {l : ℕ} {a : Handler} {pc : HandlerPc} (ha : s.handlers[l]? = some a)
    (hnext : a.pc.Next pc) (ht : s.handlers[n]? = some t) :
    ∃ t', (s.setPc l pc).handlers[n]? = some t' ∧ Follows s m n t t' := by
  by_cases hl : l = n
  · subst hl
    obtain rfl : a = t := by simpa [ha] using ht
    exact ⟨{ a with pc }, by simp [setPc, ha], rfl, .inr hnext, .inl rfl⟩
  · exact ⟨t, by simp [setPc, hl, ht], rfl, .inl rfl, .inl rfl⟩

theorem follows_step (l : ℕ) (ht : s.handlers[n]? = some t) :
    ∃ t', (s.handlerStep l).handlers[n]? = some t' ∧ Follows s m n t t' := by
  unfold handlerStep
  split
  · next a ha =>
    split
    · next hpc =>
      have hchecked : ∃ t', (s.setPc l .lookup).handlers[n]? = some t' ∧ Follows s m n t t' :=
        follows_setPc ha (hpc ▸ .checked) ht
      split
      · split
        · exact follows_setPc ha (hpc ▸ .dropped) ht
        · exact hchecked
      · exact follows_setPc ha (hpc ▸ .dropped) ht
    · next hpc =>
      split
      · exact follows_setPc ha (hpc ▸ .handler) ht
      · exact follows_setPc ha (hpc ▸ .noHandler) ht
    · next hpc =>
      split
      · exact follows_setPc ha (hpc ▸ .asks) ht
      · exact follows_setPc ha (hpc ▸ .noDecider) ht
    · next hpc => exact follows_setPc ha (hpc ▸ .files) ht
    · next d hpc => exact follows_setPc ha (hpc ▸ .clears d) ht
    · next hpc => exact follows_setPc ha (hpc ▸ .accepts) ht
    · next hpc => exact follows_setPc ha (hpc ▸ .rejects) ht
    · next hpc => exact follows_setPc ha (hpc ▸ .ignores) ht
    · next e hpc => exact follows_setPc ha (hpc ▸ .tracked e) ht
    · next e hpc => exact follows_setPc ha (hpc ▸ .announced e) ht
    · next hpc => exact follows_setPc ha (hpc ▸ .leaves) ht
    -- The waits, and the ends.
    · exact follows_same ht
    · exact follows_same ht
    · exact follows_same ht
    · exact follows_same ht
    · exact follows_same ht
  · exact follows_same ht

theorem follows_callEnded {callId : ℤ} (hid : callId ≠ 0) (ht : s.handlers[n]? = some t) :
    ∃ t', (s.callEnded callId).handlers[n]? = some t' ∧ Follows s (.push (.callEnded callId)) n t t' := by
  unfold callEnded
  cases hopen : s.openTask callId with
  | none =>
    simp only
    split <;> exact follows_same ht
  | some l =>
    have hmarked : ∃ t', (s.handlers.modify l fun h => { h with hungUp := true })[n]? = some t' ∧
        Follows s (.push (.callEnded callId)) n t t' := by
      by_cases hl : l = n
      · subst hl
        exact ⟨{ t with hungUp := true }, by simp [ht], rfl, .inl rfl, .inr ⟨rfl, callId, rfl, hid, hopen⟩⟩
      · exact ⟨t, by simp [hl, ht], rfl, .inl rfl, .inl rfl⟩
    simp only
    split <;> exact hmarked

theorem follows_move (m : SignalingMove) (ht : s.handlers[n]? = some t) :
    ∃ t', (s.move m).handlers[n]? = some t' ∧ Follows s m n t t' := by
  cases m with
  | push update =>
    simp only [move, dispatchXc]
    split
    · split
      · next callId hid => exact follows_callEnded hid ht
      · exact follows_same ht
    · split
      · exact ⟨t, getElem?_concat_of_eq_some ht _, rfl, .inl rfl, .inl rfl⟩
      · exact follows_same ht
  | step l => exact follows_step l ht
  | answer l d =>
    simp only [move, answer]
    split
    · next a ha =>
      split
      · next hpc => exact follows_setPc ha (hpc ▸ .answered d) ht
      · exact follows_same ht
    · exact follows_same ht
  | cancel l =>
    simp only [move, cancel]
    split
    · next a ha =>
      split
      · next hpc => exact follows_setPc ha (hpc.1 ▸ .answered .silentlyIgnore) ht
      · exact follows_same ht
    · exact follows_same ht
  | reply l accepted =>
    simp only [move, reply]
    split
    · next a ha =>
      split
      · next hpc =>
        split
        · next e =>
          split
          · exact follows_setPc ha (hpc ▸ .failed) ht
          · exact follows_setPc ha (hpc ▸ .accepted e) ht
        · exact follows_setPc ha (hpc ▸ .failed) ht
      · exact follows_same ht
    · exact follows_same ht
  | discarded l =>
    simp only [move, discarded]
    split
    · next a ha =>
      split
      · next hpc => exact follows_setPc ha (hpc ▸ .discarded) ht
      · exact follows_same ht
    · exact follows_same ht
  | takeEvent =>
    simp only [move, takeEvent, onWsCallEnded]
    split
    · split
      · exact follows_same ht
      · split <;> exact follows_same ht
    · exact follows_same ht
  | takeSession =>
    simp only [move, takeSession]
    split <;> exact follows_same ht
  | sessionOver peer => exact follows_same ht
  | placed c peer => exact follows_same ht
  | setHandler => exact follows_same ht
  | setDecider => exact follows_same ht
  | setConsumer => exact follows_same ht

theorem Follows.off {t' : Handler} (h : Follows s m n t t') (hoff : t.pc.Off = true) :
    t'.pc.Off = true := by
  obtain hpc | hnext := h.pc
  · rw [hpc, hoff]
  · exact hnext.off hoff

theorem Follows.hungUp_of {t' : Handler} (h : Follows s m n t t') (hup : t.hungUp = true) :
    t'.hungUp = true := by
  obtain heq | ⟨hup', -⟩ := h.hungUp
  · rw [heq, hup]
  · exact hup'

end Follows

/-! ## Decisions that are called off -/

/-- No sender of task `n` is filed for `p`, and what the app was told of `p` stays told. -/
structure Frames (s s' : BaleSignaling) (n : ℕ) (p : ℤ) : Prop where
  pending : s'.pending p = some n → s.pending p = some n
  failed : p ∈ s.failed → p ∈ s'.failed

section Frames

variable {s s' : BaleSignaling} {n : ℕ} {t : Handler} {p : ℤ}

theorem Frames.of_eq (hpending : s'.pending = s.pending) (hfailed : s'.failed = s.failed) :
    Frames s s' n p := ⟨fun hp => hpending ▸ hp, fun hp => hfailed ▸ hp⟩

theorem Frames.erase {peer : ℤ} (hpending : s'.pending = Function.update s.pending peer none)
    (hfailed : p ∈ s.failed → p ∈ s'.failed) : Frames s s' n p := by
  refine ⟨fun hp => ?_, hfailed⟩
  rw [hpending] at hp
  by_cases hpeer : p = peer
  · simp [hpeer] at hp
  · simpa [Function.update_of_ne hpeer] using hp

theorem frames_step (l : ℕ) (ht : s.handlers[n]? = some t) (hreg : t.pc.Registered = true) :
    Frames s (s.handlerStep l) n p := by
  unfold handlerStep
  split
  · next a ha =>
    split
    case h_1 =>
      split
      · split <;> exact .of_eq rfl rfl
      · exact .of_eq rfl rfl
    case h_4 hpc =>
      -- The task that files its sender is another one.
      have hl : l ≠ n := by
        rintro rfl
        obtain rfl : a = t := by simpa [ha] using ht
        simp [hpc] at hreg
      refine ⟨fun hp => ?_, id⟩
      by_cases hpeer : p = a.callerId
      · subst hpeer
        exact absurd (by simpa [setPc] using hp) hl
      · simpa [setPc, Function.update_of_ne hpeer] using hp
    case h_5 => exact .erase rfl id
    all_goals exact .of_eq rfl rfl
  · exact .of_eq rfl rfl

theorem frames_move (m : SignalingMove) (ht : s.handlers[n]? = some t) (hreg : t.pc.Registered = true) :
    Frames s (s.move m) n p := by
  cases m with
  | step l => exact frames_step l ht hreg
  | push update =>
    simp only [move, dispatchXc, callEnded]
    split
    · split
      · split <;> split <;> exact .of_eq rfl rfl
      · exact .of_eq rfl rfl
    · split <;> exact .of_eq rfl rfl
  | answer l d =>
    simp only [move, answer]
    split
    · split <;> exact .of_eq rfl rfl
    · exact .of_eq rfl rfl
  | cancel l =>
    simp only [move, cancel]
    split
    · split <;> exact .of_eq rfl rfl
    · exact .of_eq rfl rfl
  | reply l accepted =>
    simp only [move, reply]
    split
    · split
      · split
        · split <;> exact .of_eq rfl rfl
        · exact .of_eq rfl rfl
      · exact .of_eq rfl rfl
    · exact .of_eq rfl rfl
  | discarded l =>
    simp only [move, discarded]
    split
    · split <;> exact .of_eq rfl rfl
    · exact .of_eq rfl rfl
  | takeEvent =>
    simp only [move, takeEvent, onWsCallEnded]
    split
    · split
      · exact .of_eq rfl rfl
      · split
        · exact .erase rfl (List.mem_append_left _)
        · exact .of_eq rfl rfl
    · exact .of_eq rfl rfl
  | takeSession =>
    simp only [move, takeSession]
    split <;> exact .of_eq rfl rfl
  | sessionOver peer => exact .of_eq rfl rfl
  | placed c peer => exact .of_eq rfl rfl
  | setHandler => exact .of_eq rfl rfl
  | setDecider => exact .of_eq rfl rfl
  | setConsumer => exact .of_eq rfl rfl

end Frames

/-- Task `n` of `peer` was hung up on, its sender is gone, and the app has been told. -/
structure Cancelled (s : BaleSignaling) (n : ℕ) (peer : ℤ) : Prop where
  task : ∃ t, s.handlers[n]? = some t ∧ t.callerId = peer ∧ t.hungUp = true ∧ t.pc.Registered = true
  pending : s.pending peer ≠ some n
  failed : peer ∈ s.failed

theorem Cancelled.move {s : BaleSignaling} {n : ℕ} {peer : ℤ} (h : Cancelled s n peer) (m : SignalingMove) :
    Cancelled (s.move m) n peer := by
  obtain ⟨t, ht, hcaller, hup, hreg⟩ := h.task
  obtain ⟨t', ht', hfollows⟩ := follows_move m ht
  have hframes : Frames s (s.move m) n peer := frames_move m ht hreg
  refine ⟨⟨t', ht', hfollows.caller.trans hcaller, hfollows.hungUp_of hup, ?_⟩,
    fun hp => h.pending (hframes.pending hp), hframes.failed h.failed⟩
  obtain hpc | hnext := hfollows.pc
  · rw [hpc, hreg]
  · exact hnext.registered hreg

/-- The poll of the `select!` ends a decision that is cancelled. -/
theorem Cancelled.polled {s : BaleSignaling} {n : ℕ} {peer : ℤ} (h : Cancelled s n peer) (htracked : Tracked s) :
    ∃ t', (s.cancel n).handlers[n]? = some t' ∧ t'.pc.Off = true := by
  obtain ⟨t, ht, rfl, hup, -⟩ := h.task
  simp only [cancel, ht]
  obtain hpc | hoff := (htracked.hungUp n t ht hup).1
  · rw [if_pos ⟨hpc, h.pending⟩]
    exact ⟨{ t with pc := .clear .silentlyIgnore }, by simp [setPc, ht], rfl⟩
  · split
    · exact ⟨{ t with pc := .clear .silentlyIgnore }, by simp [setPc, ht], rfl⟩
    · exact ⟨t, ht, hoff⟩

/-! ## What `decide` returns -/

end BaleSignaling

end BaleVpn.Signaling
