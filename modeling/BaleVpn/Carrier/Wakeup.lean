import BaleVpn.Lib.Update
import BaleVpn.Carrier.Outbound

/-!
# No wake-up is lost (`lib.rs`, `on_send_drained`)

A callback is parked only when every slot of the send queue is taken, and that is read under the lock
of the waiters. The sender task frees slots without the lock and takes it at the end of its pass. So
a callback that is parked, or about to be, has a message before it that the sender has not passed
yet: one that is queued or on its way into the queue, or one of the pass the sender is in.
-/

namespace BaleVpn.Carrier

/-! ## The property -/

/-- The sender is between taking a packet and draining the waiters. -/
def SenderPc.taking : SenderPc → Bool
  | .first _ | .tryRecv | .next _ | .retry _ | .flush | .drain => true
  | .recv | .fire _ => false

namespace Outbound

/-- The sender has a pass before it or is in one. -/
def Busy (s : Outbound) : Prop := s.sending ≠ [] ∨ s.queue ≠ [] ∨ s.pc.taking = true

/-- The sender waits, and no slot of the queue holds a message. -/
def Idle (s : Outbound) : Prop := s.pc = .recv ∧ s.sending = [] ∧ s.queue = []

/-- Callbacks the sender has drained and not run yet. -/
def firing (s : Outbound) : List ℕ :=
  match s.pc with
  | .fire callbacks => callbacks
  | _ => []

structure Wakes (s : Outbound) : Prop where
  parked : s.waiters ≠ [] → s.Busy
  idle : s.Idle → s.waiters = []
  drained : s.pc = .drain → ∀ taken, (s.senderStep taken).pc ≠ .drain →
    (s.senderStep taken).waiters = []
  kept : ∀ n, s.calls[n]? = some .returned → n ∈ s.waiters ∨ n ∈ s.firing ∨ n ∈ s.fired

/-! ## The invariant -/

structure Awake (s : Outbound) : Prop where
  parked : s.waiters ≠ [] → s.Busy
  checks : ∀ n, s.calls[n]? = some .check → s.lock = some n
  parks : ∀ n, s.calls[n]? = some .park → s.lock = some n ∧ s.Busy
  kept : ∀ n, s.calls[n]? = some .returned → n ∈ s.waiters ∨ n ∈ s.firing ∨ n ∈ s.fired

theorem busy_of_full {s : Outbound} (h : s.capacity = 0) : s.Busy := by
  unfold capacity SEND_QUEUE_CAP at h
  by_cases hsending : s.sending = []
  · by_cases hqueue : s.queue = []
    · refine .inr (.inr ?_)
      rw [hsending, hqueue] at h
      simp only [List.length_nil] at h
      have hheld : s.held ≠ 0 := by omega
      unfold held at hheld
      split at hheld
      · rename_i hpc
        rw [hpc]
        rfl
      · rename_i hpc
        rw [hpc]
        rfl
      · exact absurd rfl hheld
    · exact .inr (.inl hqueue)
  · exact .inl hsending

theorem Awake.wakes {s : Outbound} (h : Awake s) : Wakes s where
  parked := h.parked
  idle hidle := by
    by_contra hparked
    obtain ⟨hpc, hsending, hqueue⟩ := hidle
    rcases h.parked hparked with hb | hb | hb
    · exact hb hsending
    · exact hb hqueue
    · rw [hpc] at hb
      cases hb
  drained hpc taken hmoved := by
    unfold senderStep at hmoved ⊢
    rw [hpc] at hmoved ⊢
    by_cases hlock : s.lock = none
    · rw [if_pos hlock]
    · simp only [if_neg hlock] at hmoved
      exact absurd hpc hmoved
  kept := h.kept

theorem Awake.quiet {s s' : Outbound} (h : Awake s) (hcalls : s'.calls = s.calls)
    (hwaiters : s'.waiters = s.waiters) (hlock : s'.lock = s.lock) (hbusy : s.Busy → s'.Busy)
    (hkept : ∀ n, n ∈ s.firing ∨ n ∈ s.fired → n ∈ s'.firing ∨ n ∈ s'.fired) : Awake s' where
  parked hparked := hbusy (h.parked (hwaiters ▸ hparked))
  checks n hn := by
    rw [hlock]
    exact h.checks n (hcalls ▸ hn)
  parks n hn := by
    have hold := h.parks n (hcalls ▸ hn)
    rw [hlock]
    exact ⟨hold.1, hbusy hold.2⟩
  kept n hn := by
    rw [hwaiters]
    exact (h.kept n (hcalls ▸ hn)).imp_right (hkept n)

/-! ## Steps -/

theorem Awake.sends {s : Outbound} (h : Awake s) (buf : Net.Bytes) :
    Awake { s with sending := s.sending ++ [buf] } :=
  h.quiet rfl rfl rfl (fun _ => .inl (by simp)) fun _ hn => hn

theorem Awake.land {s : Outbound} (h : Awake s) (i : ℕ) : Awake (s.land i) := by
  unfold Outbound.land
  split
  · exact h.quiet rfl rfl rfl (fun _ => .inr (.inl (by simp))) fun _ hn => hn
  · exact h

theorem Awake.takes {s : Outbound} (h : Awake s) (hfiring : s.firing = []) {queue : List Net.Bytes}
    {packer : Packer} {pc : SenderPc} (hpc : pc.taking = true) :
    Awake { s with queue, packer, pc } :=
  h.quiet rfl rfl rfl (fun _ => .inr (.inr hpc)) fun n hn => by
    rw [hfiring] at hn
    exact .inr (by simpa using hn)

theorem Awake.senderStep {s : Outbound} (h : Awake s) (taken : Bool) : Awake (s.senderStep taken) := by
  unfold Outbound.senderStep
  split
  · rename_i hpc
    split
    · exact h.takes (by simp [firing, hpc]) rfl
    · exact h
  · rename_i packet hpc
    exact h.takes (by simp [firing, hpc]) rfl
  · rename_i hpc
    split
    · exact h.takes (by simp [firing, hpc]) rfl
    · exact h.takes (by simp [firing, hpc]) rfl
  · rename_i packet hpc
    split
    · exact h.takes (by simp [firing, hpc]) rfl
    · exact h.takes (by simp [firing, hpc]) rfl
  · rename_i packet hpc
    split
    · exact h.takes (by simp [firing, hpc]) rfl
    · exact h
  · rename_i hpc
    split
    · exact h.takes (by simp [firing, hpc]) rfl
    · exact h
  · rename_i hpc
    split
    · -- The lock is free, so nobody is about to park.
      rename_i hlock
      refine ⟨fun hparked => absurd rfl hparked, fun n hn => h.checks n hn, fun n hn => ?_, ?_⟩
      · have hheld := (h.parks n hn).1
        rw [hlock] at hheld
        cases hheld
      · intro n hn
        have hnone : s.firing = [] := by simp [firing, hpc]
        rcases h.kept n hn with hn | hn | hn
        · exact .inr (.inl hn)
        · rw [hnone] at hn
          cases hn
        · exact .inr (.inr hn)
    · exact h
  · rename_i callback rest hpc
    refine h.quiet rfl rfl rfl ?_ ?_
    · rintro (hb | hb | hb)
      · exact .inl hb
      · exact .inr (.inl hb)
      · rw [hpc] at hb
        cases hb
    · intro n hn
      simp only [firing, hpc, List.mem_cons] at hn ⊢
      rcases hn with (rfl | hn) | hn
      · exact .inr (by simp)
      · exact .inl hn
      · exact .inr (List.mem_append_left _ hn)
  · rename_i hpc
    refine h.quiet rfl rfl rfl ?_ ?_
    · rintro (hb | hb | hb)
      · exact .inl hb
      · exact .inr (.inl hb)
      · rw [hpc] at hb
        cases hb
    · intro n hn
      simp only [firing, hpc] at hn ⊢
      exact hn

/-- Call `n` moves on: what the others promise stays, and `n` keeps its own promise. -/
theorem Awake.moves {s s' : Outbound} (h : Awake s) {n : ℕ} {pc' : WaiterPc}
    (hcalls : s'.calls = s.calls) (hbusy : s.Busy → s'.Busy)
    (hparked : s'.waiters ≠ [] → s'.Busy)
    (hlock : ∀ k, k ≠ n → s.lock = some k → s'.lock = some k)
    (hkept : ∀ k, k ∈ s.waiters ∨ k ∈ s.firing ∨ k ∈ s.fired →
      k ∈ s'.waiters ∨ k ∈ s'.firing ∨ k ∈ s'.fired)
    (hcheck : pc' = .check → s'.lock = some n) (hpark : pc' = .park → s'.lock = some n ∧ s'.Busy)
    (hret : pc' = .returned → n ∈ s'.waiters ∨ n ∈ s'.firing ∨ n ∈ s'.fired) :
    Awake { s' with calls := s'.calls.set n pc' } := by
  have hset {k : ℕ} {pc : WaiterPc} (hk : (s'.calls.set n pc')[k]? = some pc) :
      k = n ∧ pc = pc' ∨ k ≠ n ∧ s.calls[k]? = some pc := by
    rw [hcalls] at hk
    exact Lib.getElem?_set_eq_some hk
  refine ⟨hparked, fun k hk => ?_, fun k hk => ?_, fun k hk => ?_⟩
  · rcases hset hk with ⟨rfl, hpc⟩ | ⟨hkn, hk⟩
    · exact hcheck hpc.symm
    · exact hlock k hkn (h.checks k hk)
  · rcases hset hk with ⟨rfl, hpc⟩ | ⟨hkn, hk⟩
    · exact hpark hpc.symm
    · have hold := h.parks k hk
      exact ⟨hlock k hkn hold.1, hbusy hold.2⟩
  · rcases hset hk with ⟨rfl, hpc⟩ | ⟨hkn, hk⟩
    · exact hret hpc.symm
    · exact hkept k (h.kept k hk)

theorem Awake.callStep {s : Outbound} (h : Awake s) (n : ℕ) : Awake (s.callStep n) := by
  unfold Outbound.callStep
  split
  · rename_i pc hn
    -- While `n` holds the lock no other call does.
    have hmine : s.lock = some n → ∀ k, k ≠ n → s.lock = some k → none = some k := by
      intro hl k hkn hk
      rw [hl] at hk
      exact absurd (Option.some.inj hk).symm hkn
    cases pc with
    | lock =>
      simp only [waiterStep]
      split
      · rename_i hfree
        refine h.moves rfl id h.parked ?_ (fun _ hk => hk) (fun _ => rfl) (by simp) (by simp)
        intro k _ hk
        rw [hfree] at hk
        cases hk
      · exact h.moves rfl id h.parked (fun _ _ hk => hk) (fun _ hk => hk) (by simp) (by simp) (by simp)
    | check =>
      have hlock := h.checks n hn
      simp only [waiterStep]
      split
      · exact h.moves rfl id h.parked (hmine hlock) (fun _ hk => hk) (by simp) (by simp) (by simp)
      · rename_i hfull
        have hbusy : s.Busy := busy_of_full (by omega)
        exact h.moves rfl id h.parked (fun _ _ hk => hk) (fun _ hk => hk) (by simp)
          (fun _ => ⟨hlock, hbusy⟩) (by simp)
    | park =>
      have hpark := h.parks n hn
      refine h.moves rfl id (fun _ => hpark.2) (hmine hpark.1) ?_ (by simp) (by simp) ?_
      · rintro k (hk | hk)
        · exact .inl (List.mem_append_left _ hk)
        · exact .inr hk
      · exact fun _ => .inl (by simp)
    | fire =>
      refine h.moves rfl id h.parked (fun _ _ hk => hk) ?_ (by simp) (by simp) ?_
      · rintro k (hk | hk | hk)
        · exact .inl hk
        · exact .inr (.inl hk)
        · exact .inr (.inr (List.mem_append_left _ hk))
      · exact fun _ => .inr (.inr (by simp))
    | returned =>
      exact h.moves rfl id h.parked (fun _ _ hk => hk) (fun _ hk => hk) (by simp) (by simp)
        fun _ => h.kept n hn
  · exact h

theorem Awake.enter {s : Outbound} (h : Awake s) : Awake { s with calls := s.calls ++ [.lock] } := by
  have hold : ∀ {k : ℕ} {pc : WaiterPc}, pc ≠ .lock → (s.calls ++ [.lock])[k]? = some pc →
      s.calls[k]? = some pc := by
    intro k pc hpc hk
    rw [List.getElem?_append] at hk
    split at hk
    · exact hk
    · have hmem := List.mem_of_getElem? hk
      exact absurd (List.mem_singleton.mp hmem) hpc
  exact ⟨h.parked, fun k hk => h.checks k (hold (by simp) hk),
    fun k hk => h.parks k (hold (by simp) hk), fun k hk => h.kept k (hold (by simp) hk)⟩

theorem Awake.step {s : Outbound} (h : Awake s) (m : SendMove) : Awake (s.step m) := by
  cases m with
  | sendIp ip =>
    rcases step_sendIp s ip with heq | ⟨-, heq⟩
    · rwa [heq]
    · rw [heq]
      exact h.sends _
  | sendRawFrame buf =>
    rcases step_sendRawFrame s buf with heq | ⟨-, heq⟩
    · rwa [heq]
    · rw [heq]
      exact h.sends buf
  | land i => exact h.land i
  | sender taken => exact h.senderStep taken
  | onSendDrained => exact h.enter
  | call n => exact h.callStep n
  | deliver =>
    simp only [Outbound.step, Outbound.deliver]
    split
    · exact h.quiet rfl rfl rfl id fun _ hn => hn
    · exact h

/-- Whatever the order, a parked callback has a message before it, and the sender never goes idle on
one. -/
theorem no_lost_wakeup (connected : Bool) (ms : List SendMove) :
    Wakes (Outbound.run { connected } ms) := by
  have hstart : Awake { connected } :=
    ⟨fun hparked => absurd rfl hparked, by simp, by simp, by simp⟩
  have hall : Awake (ms.foldl Outbound.step { connected }) :=
    Lib.foldl_invariant (fun _ m h => h.step m) ms hstart
  exact hall.wakes

/-- A callback that found the queue full is parked behind it. -/
example : (Outbound.run {} ((List.replicate 64 [SendMove.sendRawFrame [81, 1], .land 0]).flatten ++
    [SendMove.onSendDrained, .call 0, .call 0, .call 0])).waiters = [0] := by
  decide +kernel

end Outbound

end BaleVpn.Carrier
