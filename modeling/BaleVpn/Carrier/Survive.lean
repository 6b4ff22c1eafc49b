import BaleVpn.Carrier.Outbound

/-!
# What is accepted arrives, up to one length (`lib.rs`, `rtp.rs`)

`send_ip` takes up to 65535 bytes and adds a tag, `send_raw_frame` takes up to 65536 bytes with the
tag, and the length in front of a packed frame is 16 bits wide. `push_packed` answers `true` for a
frame of 65536 bytes and leaves it out. Every shorter frame arrives once, in order.
-/

namespace BaleVpn.Carrier

open Net Lib

/-! ## The property -/

/-- A move of the sender, of the carrier or of a waiter that is already there. -/
def SendMove.isWork : SendMove → Bool
  | .sender _ | .call _ | .deliver => true
  | _ => false

namespace Outbound

/-- Nothing that was accepted is under way. -/
structure Settled (s : Outbound) : Prop where
  pc : s.pc = .recv
  queue : s.queue = []
  batch : s.packer.batch = []
  received : s.received = s.packer.frames.length

/-- The peer has dispatched a start of what was accepted, and the rest arrives with no further call. -/
structure Survives (s : Outbound) : Prop where
  order : s.dispatched <+: s.accepted
  handed : s.handed = s.dispatched.filterMap dispatchPayload
  arrives : ∀ work, (∀ m ∈ work, m.isWork = true) → (s.run work).Settled →
    (s.run work).dispatched = s.accepted
  settles : ∃ work, (∀ m ∈ work, m.isWork = true) ∧ (s.run work).Settled

/-! ## The invariant -/

/-- The packet the sender has in hand. -/
def pending (s : Outbound) : List Bytes :=
  match s.pc with
  | .first packet | .next packet | .retry packet => [packet]
  | _ => []

/-- The sender is outside its pass or at its start. -/
def SenderPc.flushed : SenderPc → Bool
  | .recv | .first _ | .drain | .fire _ => true
  | _ => false

/-- A frame the length prefix can hold. -/
def short (frame : Bytes) : Bool := frame.length ≤ 65535

/-- Every frame accepted is in one place, but for those that are too long. -/
structure Conserved (s : Outbound) : Prop where
  tagged : ∀ f ∈ s.sending ++ s.pending ++ s.queue, f ≠ []
  packed : ∃ kept, Holds s.packer kept ∧
    s.accepted.filter short = kept ++ (s.pending ++ s.queue).filter short
  flushed : SenderPc.flushed s.pc = true → s.packer.batch = []
  delivered : s.dispatched = (s.packer.frames.take s.received).flatMap unpack
  received : s.received ≤ s.packer.frames.length
  handed : s.handed = s.dispatched.filterMap dispatchPayload

theorem Conserved.order {s : Outbound} (h : Conserved s) : s.dispatched <+: s.accepted.filter short := by
  obtain ⟨kept, hholds, haccepted⟩ := h.packed
  have hkept := hholds.unpack.1
  have hframes : s.dispatched <+: s.packer.frames.flatMap unpack := by
    rw [h.delivered]
    conv_rhs => rw [← List.take_append_drop s.received s.packer.frames, List.flatMap_append]
    exact List.prefix_append _ _
  rw [haccepted, ← hkept, List.append_assoc]
  exact hframes.trans (List.prefix_append _ _)

theorem Conserved.settled {s : Outbound} (h : Conserved s) (hs : s.Settled) :
    s.dispatched = s.accepted.filter short := by
  obtain ⟨kept, hholds, haccepted⟩ := h.packed
  have hkept := hholds.unpack.1
  have hpending : s.pending = [] := by simp [pending, hs.pc]
  rw [hs.batch, unpack_nil, List.append_nil] at hkept
  rw [haccepted, hpending, hs.queue, h.delivered, hs.received, List.take_length, hkept]
  simp

/-! ## Steps -/

theorem push_long (s : Packer) {packet : Bytes} (h : short packet = false) :
    s.push packet = (true, s) := by
  have hlen : 65535 < packet.length := by simpa [short] using h
  simp only [Packer.push, pushPacked_long hlen]

theorem push_kept {s : Packer} {kept : List Bytes} (h : Holds s kept) {packet : Bytes}
    (hne : packet ≠ []) :
    ((s.push packet).1 = true ∧ Holds (s.push packet).2 (kept ++ [packet].filter short)) ∨
      s.batch ≠ [] ∧ s.push packet = (false, s) := by
  cases hshort : short packet with
  | true =>
    have hfits : Fits packet := ⟨hne, by simpa [short] using hshort⟩
    rw [List.filter_cons_of_pos hshort, List.filter_nil]
    exact h.push hfits
  | false =>
    rw [push_long s hshort, List.filter_cons_of_neg (by simp [hshort]), List.filter_nil,
      List.append_nil]
    exact .inl ⟨rfl, h⟩

theorem push_frames (s : Packer) (packet : Bytes) : (s.push packet).2.frames = s.frames := rfl

theorem flush_frames (s : Packer) : s.frames <+: s.flush.frames := by
  unfold Packer.flush
  split
  · exact List.prefix_refl _
  · exact List.prefix_append _ _

theorem delivered_of_frames {s : Outbound} (h : Conserved s) (s' : Outbound)
    (hframes : s.packer.frames <+: s'.packer.frames) (hreceived : s'.received = s.received)
    (hdispatched : s'.dispatched = s.dispatched) :
    s'.dispatched = (s'.packer.frames.take s'.received).flatMap unpack ∧
      s'.received ≤ s'.packer.frames.length := by
  obtain ⟨more, hmore⟩ := hframes
  have hle := h.received
  rw [hdispatched, hreceived, ← hmore, List.take_append_of_le_length hle]
  refine ⟨h.delivered, ?_⟩
  rw [List.length_append]
  omega

theorem Conserved.sends {s : Outbound} (h : Conserved s) {buf : Bytes} (hne : buf ≠ []) :
    Conserved { s with sending := s.sending ++ [buf] } := by
  refine ⟨fun f hf => ?_, h.packed, h.flushed, h.delivered, h.received, h.handed⟩
  simp only [List.append_assoc, List.mem_append, List.mem_singleton] at hf
  rcases hf with hf | rfl | hf
  · exact h.tagged f (by simp [hf])
  · exact hne
  · exact h.tagged f (by
      simp only [List.append_assoc, List.mem_append]
      exact .inr hf)

theorem Conserved.land {s : Outbound} (h : Conserved s) (i : ℕ) : Conserved (s.land i) := by
  unfold Outbound.land
  split
  · rename_i buf hbuf
    refine ⟨fun f hf => ?_, ?_, h.flushed, h.delivered, h.received, h.handed⟩
    · apply h.tagged f
      simp only [List.append_assoc, List.mem_append, List.mem_singleton] at hf ⊢
      rcases hf with hf | hf | hf | rfl
      · exact .inl (List.mem_of_mem_eraseIdx hf)
      · exact .inr (.inl hf)
      · exact .inr (.inr hf)
      · exact .inl (List.mem_of_getElem? hbuf)
    · obtain ⟨kept, hholds, haccepted⟩ := h.packed
      refine ⟨kept, hholds, ?_⟩
      show (s.accepted ++ [buf]).filter short = kept ++ (s.pending ++ (s.queue ++ [buf])).filter short
      rw [List.filter_append, haccepted, List.append_assoc, ← List.filter_append, List.append_assoc]
  · exact h

theorem Conserved.takes {s : Outbound} (h : Conserved s) (hpending : s.pending = []) {packet : Bytes}
    {queue : List Bytes} (hqueue : s.queue = packet :: queue) {pc : SenderPc}
    (hpc : pc = .first packet ∧ s.packer.batch = [] ∨ pc = .next packet) :
    Conserved { s with queue, pc } := by
  have hnew : ({ s with queue, pc } : Outbound).pending ++ queue = s.pending ++ s.queue := by
    rw [hpending, hqueue]
    rcases hpc with ⟨rfl, -⟩ | rfl <;> rfl
  refine ⟨fun f hf => h.tagged f ?_, ?_, ?_, h.delivered, h.received, h.handed⟩
  · rw [List.append_assoc] at hf ⊢
    rwa [hnew] at hf
  · obtain ⟨kept, hholds, haccepted⟩ := h.packed
    exact ⟨kept, hholds, hnew ▸ haccepted⟩
  · intro hflushed
    rcases hpc with ⟨-, hbatch⟩ | rfl
    · exact hbatch
    · cases hflushed

theorem Conserved.pushes {s : Outbound} (h : Conserved s) {packet : Bytes} {packer : Packer}
    (hpending : s.pending = [packet]) (hframes : s.packer.frames <+: packer.frames)
    (hpush : ∀ kept, Holds s.packer kept → Holds packer (kept ++ [packet].filter short)) :
    Conserved { s with packer, pc := .tryRecv } := by
  obtain ⟨hdispatched, hreceived⟩ := delivered_of_frames h { s with packer, pc := .tryRecv } hframes
    rfl rfl
  refine ⟨fun f hf => h.tagged f ?_, ?_, by simp [SenderPc.flushed], hdispatched, hreceived,
    h.handed⟩
  · simp only [pending, List.append_nil, List.mem_append] at hf
    simp only [List.mem_append]
    tauto
  · obtain ⟨kept, hholds, haccepted⟩ := h.packed
    refine ⟨_, hpush kept hholds, ?_⟩
    simp only [pending, List.nil_append, List.append_assoc, ← List.filter_append]
    rw [← hpending]
    exact haccepted

theorem Conserved.passes {s : Outbound} (h : Conserved s) (hpending : s.pending = []) {packer : Packer}
    {pc : SenderPc} (hframes : s.packer.frames <+: packer.frames)
    (hholds : ∀ kept, Holds s.packer kept → Holds packer kept)
    (hpc : ({ s with packer, pc } : Outbound).pending = [])
    (hflushed : SenderPc.flushed pc = true → packer.batch = []) : Conserved { s with packer, pc } := by
  obtain ⟨hdispatched, hreceived⟩ := delivered_of_frames h { s with packer, pc } hframes rfl rfl
  refine ⟨fun f hf => h.tagged f ?_, ?_, hflushed, hdispatched, hreceived, h.handed⟩
  · rw [hpc] at hf
    rw [hpending]
    exact hf
  · obtain ⟨kept, hkept, haccepted⟩ := h.packed
    refine ⟨kept, hholds kept hkept, ?_⟩
    rw [hpc]
    rw [hpending] at haccepted
    exact haccepted

theorem Conserved.quiet {s s' : Outbound} (h : Conserved s) (hsending : s'.sending = s.sending)
    (hqueue : s'.queue = s.queue) (haccepted : s'.accepted = s.accepted) (hpc : s'.pc = s.pc)
    (hpacker : s'.packer = s.packer) (hreceived : s'.received = s.received)
    (hdispatched : s'.dispatched = s.dispatched) (hhanded : s'.handed = s.handed) :
    Conserved s' := by
  have hpending : s'.pending = s.pending := by simp only [pending, hpc]
  constructor
  · rw [hsending, hqueue, hpending]
    exact h.tagged
  · rw [hpacker, haccepted, hqueue, hpending]
    exact h.packed
  · rw [hpc, hpacker]
    exact h.flushed
  · rw [hdispatched, hpacker, hreceived]
    exact h.delivered
  · rw [hreceived, hpacker]
    exact h.received
  · rw [hhanded, hdispatched]
    exact h.handed

theorem Conserved.senderStep {s : Outbound} (h : Conserved s) (taken : Bool) :
    Conserved (s.senderStep taken) := by
  unfold Outbound.senderStep
  split
  · rename_i hpc
    have hbatch := h.flushed (by rw [hpc]; rfl)
    split
    · rename_i packet queue hqueue
      exact h.takes (by simp [pending, hpc]) hqueue (.inl ⟨rfl, hbatch⟩)
    · exact h
  · rename_i packet hpc
    have hbatch := h.flushed (by rw [hpc]; rfl)
    have hpending : s.pending = [packet] := by simp [pending, hpc]
    refine h.pushes hpending (List.prefix_refl s.packer.frames) fun kept hkept => ?_
    rcases push_kept hkept (h.tagged packet (by simp [hpending])) with hpush | hpush
    · exact hpush.2
    · exact absurd hbatch hpush.1
  · rename_i hpc
    split
    · rename_i packet queue hqueue
      exact h.takes (by simp [pending, hpc]) hqueue (.inr rfl)
    · exact h.passes (by simp [pending, hpc]) (List.prefix_refl _) (fun _ hkept => hkept) rfl
        (by simp [SenderPc.flushed])
  · rename_i packet hpc
    have hpending : s.pending = [packet] := by simp [pending, hpc]
    have hne := h.tagged packet (by simp [hpending])
    split
    · rename_i packer hpush
      have hpacker : packer = (s.packer.push packet).2 := by rw [hpush]
      subst hpacker
      refine h.pushes hpending (List.prefix_refl s.packer.frames) fun kept hkept => ?_
      rcases push_kept hkept hne with hpushed | hpushed
      · exact hpushed.2
      · rw [hpush] at hpushed
        simp at hpushed
    · rename_i packer hpush
      obtain ⟨kept, hkept, haccepted⟩ := h.packed
      have hpacker : packer = s.packer := by
        rcases push_kept hkept hne with hpushed | hpushed
        · rw [hpush] at hpushed
          simp at hpushed
        · rw [hpush] at hpushed
          exact (Prod.mk.inj hpushed.2).2
      subst hpacker
      refine ⟨fun f hf => h.tagged f ?_, ⟨kept, hkept, ?_⟩, by simp [SenderPc.flushed], h.delivered,
        h.received, h.handed⟩
      · rw [hpending]
        exact hf
      · rw [hpending] at haccepted
        exact haccepted
  · rename_i packet hpc
    have hpending : s.pending = [packet] := by simp [pending, hpc]
    split
    · refine h.pushes hpending ?_ fun kept hkept => ?_
      · rw [push_frames]
        exact flush_frames s.packer
      · rcases push_kept hkept.flush (h.tagged packet (by simp [hpending])) with hpush | hpush
        · exact hpush.2
        · exact absurd (flush_batch s.packer) hpush.1
    · exact h
  · rename_i hpc
    split
    · exact h.passes (by simp [pending, hpc]) (flush_frames _) (fun _ hkept => hkept.flush) rfl
        fun _ => flush_batch s.packer
    · exact h
  · rename_i hpc
    split
    · have hmoved : Conserved { s with pc := .fire s.waiters } :=
        h.passes (by simp [pending, hpc]) (List.prefix_refl _) (fun _ hkept => hkept) rfl
          fun _ => h.flushed (by rw [hpc]; rfl)
      exact hmoved.quiet rfl rfl rfl rfl rfl rfl rfl rfl
    · exact h
  · rename_i callback rest hpc
    have hmoved : Conserved { s with pc := .fire rest } :=
      h.passes (by simp [pending, hpc]) (List.prefix_refl _) (fun _ hkept => hkept) rfl
        fun _ => h.flushed (by rw [hpc]; rfl)
    exact hmoved.quiet rfl rfl rfl rfl rfl rfl rfl rfl
  · rename_i hpc
    exact h.passes (by simp [pending, hpc]) (List.prefix_refl _) (fun _ hkept => hkept) rfl
      fun _ => h.flushed (by rw [hpc]; rfl)

theorem Conserved.deliver {s : Outbound} (h : Conserved s) : Conserved s.deliver := by
  unfold Outbound.deliver
  split
  · rename_i frame hframe
    obtain ⟨hlt, hget⟩ := List.getElem?_eq_some_iff.mp hframe
    refine ⟨h.tagged, h.packed, h.flushed, ?_, hlt, ?_⟩
    · show s.dispatched ++ unpack frame = (s.packer.frames.take (s.received + 1)).flatMap unpack
      rw [List.take_succ_eq_append_getElem hlt, List.flatMap_append, ← h.delivered, hget]
      simp
    · rw [List.filterMap_append, ← h.handed]
  · exact h

theorem callStep_frame (s : Outbound) (n : ℕ) :
    (s.callStep n).sending = s.sending ∧ (s.callStep n).queue = s.queue ∧
      (s.callStep n).accepted = s.accepted ∧ (s.callStep n).pc = s.pc ∧
      (s.callStep n).packer = s.packer ∧ (s.callStep n).received = s.received ∧
      (s.callStep n).dispatched = s.dispatched ∧ (s.callStep n).handed = s.handed := by
  unfold Outbound.callStep
  split
  · rename_i pc _
    cases pc with
    | lock | check =>
      simp only [waiterStep]
      split <;> exact ⟨rfl, rfl, rfl, rfl, rfl, rfl, rfl, rfl⟩
    | _ => exact ⟨rfl, rfl, rfl, rfl, rfl, rfl, rfl, rfl⟩
  · exact ⟨rfl, rfl, rfl, rfl, rfl, rfl, rfl, rfl⟩

theorem Conserved.step {s : Outbound} (h : Conserved s) (m : SendMove) : Conserved (s.step m) := by
  cases m with
  | sendIp ip =>
    rcases step_sendIp s ip with heq | ⟨hne, heq⟩
    · rwa [heq]
    · rw [heq]
      exact h.sends hne
  | sendRawFrame buf =>
    rcases step_sendRawFrame s buf with heq | ⟨hne, heq⟩
    · rwa [heq]
    · rw [heq]
      exact h.sends hne
  | land i => exact h.land i
  | sender taken => exact h.senderStep taken
  | onSendDrained => exact h.quiet rfl rfl rfl rfl rfl rfl rfl rfl
  | call n =>
    obtain ⟨h₁, h₂, h₃, h₄, h₅, h₆, h₇, h₈⟩ := callStep_frame s n
    exact h.quiet h₁ h₂ h₃ h₄ h₅ h₆ h₇ h₈
  | deliver => exact h.deliver

theorem Conserved.start (connected : Bool) : Conserved { connected } :=
  ⟨by simp [pending], ⟨[], Holds.empty, rfl⟩, fun _ => rfl, rfl, Nat.zero_le _, rfl⟩

theorem Conserved.run {s : Outbound} (h : Conserved s) (ms : List SendMove) : Conserved (s.run ms) :=
  foldl_invariant (fun _ m h => h.step m) ms h

/-! ## Everything settles -/

/-- Who holds the lock of the waiters is about to give it back. -/
def Locked (s : Outbound) : Prop :=
  ∀ n, s.lock = some n → s.calls[n]? = some .check ∨ s.calls[n]? = some .park

theorem senderStep_lock (s : Outbound) (taken : Bool) :
    (s.senderStep taken).lock = s.lock ∧ (s.senderStep taken).calls = s.calls ∧
      (s.senderStep taken).accepted = s.accepted := by
  unfold Outbound.senderStep
  repeat' split
  all_goals exact ⟨rfl, rfl, rfl⟩

theorem deliver_lock (s : Outbound) :
    s.deliver.lock = s.lock ∧ s.deliver.calls = s.calls ∧ s.deliver.accepted = s.accepted := by
  unfold Outbound.deliver
  split <;> exact ⟨rfl, rfl, rfl⟩

theorem Locked.of_eq {s s' : Outbound} (h : Locked s) (hlock : s'.lock = s.lock)
    (hcalls : s'.calls = s.calls) : Locked s' := by
  intro n hn
  rw [hcalls]
  exact h n (hlock ▸ hn)

theorem Locked.callStep {s : Outbound} (h : Locked s) (n : ℕ) : Locked (s.callStep n) := by
  unfold Outbound.callStep
  split
  · rename_i pc hn
    obtain ⟨hlt, -⟩ := List.getElem?_eq_some_iff.mp hn
    -- Another call that holds the lock has not moved; `n` itself could not be at `lock`.
    have hother : ∀ {k : ℕ} {pc' : WaiterPc}, s.lock = some k → k ≠ n →
        (s.calls.set n pc')[k]? = some .check ∨ (s.calls.set n pc')[k]? = some .park := by
      intro k pc' hk hkn
      rw [List.getElem?_set_ne (Ne.symm hkn)]
      exact h k hk
    have hself : ∀ pc' : WaiterPc, (s.calls.set n pc')[n]? = some pc' := fun pc' => by
      rw [List.getElem?_set_self hlt]
    have hfree : ∀ {pc' : WaiterPc}, pc ≠ .check → pc ≠ .park → ∀ k, s.lock = some k →
        (s.calls.set n pc')[k]? = some .check ∨ (s.calls.set n pc')[k]? = some .park := by
      intro pc' hcheck hpark k hk
      refine hother hk fun hkn => ?_
      subst hkn
      rcases h k hk with heq | heq
      · rw [hn] at heq
        exact hcheck (Option.some.inj heq)
      · rw [hn] at heq
        exact hpark (Option.some.inj heq)
    cases pc with
    | lock =>
      simp only [waiterStep]
      split
      · intro k hk
        obtain rfl : n = k := Option.some.inj hk
        exact .inl (hself _)
      · exact hfree (by simp) (by simp)
    | check =>
      simp only [waiterStep]
      split
      · intro k hk
        cases hk
      · intro k hk
        by_cases hkn : k = n
        · subst hkn
          exact .inr (hself _)
        · exact hother hk hkn
    | park =>
      intro k hk
      cases hk
    | fire => exact hfree (by simp) (by simp)
    | returned => exact hfree (by simp) (by simp)
  · exact h

theorem Locked.step {s : Outbound} (h : Locked s) (m : SendMove) : Locked (s.step m) := by
  cases m with
  | sendIp ip =>
    rcases step_sendIp s ip with heq | ⟨-, heq⟩ <;> rw [heq] <;> exact h
  | sendRawFrame buf =>
    rcases step_sendRawFrame s buf with heq | ⟨-, heq⟩ <;> rw [heq] <;> exact h
  | land i =>
    simp only [Outbound.step, Outbound.land]
    split <;> exact h
  | sender taken => exact h.of_eq (senderStep_lock s taken).1 (senderStep_lock s taken).2.1
  | onSendDrained =>
    intro n hn
    have hlt : n < s.calls.length := by
      rcases h n hn with heq | heq <;> exact (List.getElem?_eq_some_iff.mp heq).1
    show (s.calls ++ [.lock])[n]? = _ ∨ (s.calls ++ [.lock])[n]? = _
    rw [List.getElem?_append_left hlt]
    exact h n hn
  | call n => exact h.callStep n
  | deliver => exact h.of_eq (deliver_lock s).1 (deliver_lock s).2.1

theorem Locked.run {s : Outbound} (h : Locked s) (ms : List SendMove) : Locked (s.run ms) :=
  foldl_invariant (fun _ m h => h.step m) ms h

theorem Locked.unlocks {s : Outbound} (h : Locked s) :
    ∃ work, (∀ m ∈ work, m.isWork = true) ∧ (s.run work).lock = none := by
  cases hlock : s.lock with
  | none => exact ⟨[], by simp, hlock⟩
  | some n =>
    have hpark : ∀ t : Outbound, t.calls[n]? = some .park → (t.run [.call n]).lock = none := by
      intro t ht
      simp [Outbound.run, Outbound.step, Outbound.callStep, ht, waiterStep]
    rcases h n hlock with hn | hn
    · by_cases hcap : s.capacity > 0
      · refine ⟨[.call n], by simp [SendMove.isWork], ?_⟩
        simp [Outbound.run, Outbound.step, Outbound.callStep, hn, waiterStep, hcap]
      · refine ⟨[.call n, .call n], by simp [SendMove.isWork], ?_⟩
        obtain ⟨hlt, -⟩ := List.getElem?_eq_some_iff.mp hn
        have hstep : s.step (.call n) = { s with calls := s.calls.set n .park } := by
          simp [Outbound.step, Outbound.callStep, hn, waiterStep, hcap]
        apply hpark (s.step (.call n))
        rw [hstep]
        exact List.getElem?_set_self hlt
    · exact ⟨[.call n], by simp [SendMove.isWork], hpark s hn⟩

/-- Where the sender is in its pass, counted to its end. -/
def SenderPc.stage : SenderPc → ℕ
  | .recv => 0
  | .fire callbacks => 1 + callbacks.length
  | .drain => 2
  | .flush => 3
  | .tryRecv => 4
  | .retry _ | .first _ => 5
  | .next _ => 6

/-- The steps the sender has before it at most, if the track takes its frames. -/
def toDo (s : Outbound) : ℕ := 8 * s.queue.length + SenderPc.stage s.pc + s.waiters.length

theorem senderStep_toDo {s : Outbound} (hlock : s.lock = none) (hwork : ¬ (s.pc = .recv ∧ s.queue = [])) :
    (s.senderStep true).toDo < s.toDo := by
  unfold Outbound.senderStep toDo
  split
  · rename_i hpc
    split
    · rename_i hqueue
      simp only [hqueue, hpc, List.length_cons, SenderPc.stage]
      omega
    · rename_i hqueue
      exact absurd ⟨hpc, hqueue⟩ hwork
  · rename_i hpc
    simp [hpc, SenderPc.stage]
  · rename_i hpc
    split
    · rename_i hqueue
      simp only [hqueue, hpc, List.length_cons, SenderPc.stage]
      omega
    · rename_i hqueue
      simp [hqueue, hpc, SenderPc.stage]
  · rename_i hpc
    split <;> simp [hpc, SenderPc.stage]
  · rename_i hpc
    simp [hpc, SenderPc.stage]
  · rename_i hpc
    simp [hpc, SenderPc.stage]
  · rename_i hpc
    simp only [hlock, hpc, if_true, SenderPc.stage, List.length_nil]
    omega
  · rename_i hpc
    simp [hpc, SenderPc.stage]
  · rename_i hpc
    simp [hpc, SenderPc.stage]

theorem run_append (s : Outbound) (ms ms' : List SendMove) :
    s.run (ms ++ ms') = (s.run ms).run ms' := List.foldl_append

/-- With the lock free the sender comes to the end of what is queued. -/
theorem sender_settles {s : Outbound} (hlock : s.lock = none) :
    ∃ work, (∀ m ∈ work, m.isWork = true) ∧ (s.run work).pc = .recv ∧ (s.run work).queue = [] := by
  induction hn : s.toDo using Nat.strongRecOn generalizing s with
  | ind n ih =>
    by_cases hdone : s.pc = .recv ∧ s.queue = []
    · exact ⟨[], by simp, hdone⟩
    · have hlt := senderStep_toDo hlock hdone
      have hlock' : (s.senderStep true).lock = none := by rw [(senderStep_lock s true).1, hlock]
      obtain ⟨work, hwork, hend⟩ := ih _ (hn ▸ hlt) hlock' rfl
      refine ⟨.sender true :: work, ?_, hend⟩
      simpa [SendMove.isWork] using hwork

theorem deliver_settles {s : Outbound} (hle : s.received ≤ s.packer.frames.length) :
    ∃ work, (∀ m ∈ work, m.isWork = true) ∧ (s.run work).pc = s.pc ∧ (s.run work).queue = s.queue ∧
      (s.run work).packer = s.packer ∧ (s.run work).received = s.packer.frames.length := by
  induction hn : s.packer.frames.length - s.received generalizing s with
  | zero => exact ⟨[], by simp, rfl, rfl, rfl, show s.received = _ by omega⟩
  | succ n ih =>
    have hlt : s.received < s.packer.frames.length := by omega
    have hstep : s.deliver =
        { s with
          received := s.received + 1
          dispatched := s.dispatched ++ unpack s.packer.frames[s.received]
          handed :=
            s.handed ++ (unpack s.packer.frames[s.received]).filterMap dispatchPayload } := by
      unfold Outbound.deliver
      rw [List.getElem?_eq_getElem hlt]
    obtain ⟨work, hwork, hend⟩ := @ih s.deliver (by rw [hstep]; exact hlt)
      (by rw [hstep]; show s.packer.frames.length - (s.received + 1) = n; omega)
    refine ⟨.deliver :: work, ?_, ?_⟩
    · simpa [SendMove.isWork] using hwork
    · rw [hstep] at hend
      rw [show s.run (.deliver :: work) = s.deliver.run work from rfl, hstep]
      exact hend

theorem settles {s : Outbound} (h : Conserved s) (hlocked : Locked s) :
    ∃ work, (∀ m ∈ work, m.isWork = true) ∧ (s.run work).Settled := by
  obtain ⟨work₁, hwork₁, hlock⟩ := hlocked.unlocks
  obtain ⟨work₂, hwork₂, hpc, hqueue⟩ := sender_settles hlock
  have hconserved := (h.run work₁).run work₂
  obtain ⟨work₃, hwork₃, hpc', hqueue', hpacker, hreceived⟩ := deliver_settles hconserved.received
  refine ⟨work₁ ++ work₂ ++ work₃, ?_, ?_⟩
  · intro m hm
    simp only [List.mem_append] at hm
    rcases hm with (hm | hm) | hm
    · exact hwork₁ m hm
    · exact hwork₂ m hm
    · exact hwork₃ m hm
  · rw [run_append, run_append]
    refine ⟨hpc'.trans hpc, hqueue'.trans hqueue, ?_, hreceived.trans ?_⟩
    · rw [hpacker]
      exact hconserved.flushed (by rw [hpc]; rfl)
    · rw [hpacker]

/-! ## What arrives -/

theorem accepted_work {work : List SendMove} : ∀ {s : Outbound}, (∀ m ∈ work, m.isWork = true) →
    (s.run work).accepted = s.accepted := by
  induction work with
  | nil => exact fun _ => rfl
  | cons m ms ih =>
    intro s hwork
    have hm := hwork m List.mem_cons_self
    have hstep : (s.step m).accepted = s.accepted := by
      cases m with
      | sender taken => exact (senderStep_lock s taken).2.2
      | call n => exact (callStep_frame s n).2.2.1
      | deliver => exact (deliver_lock s).2.2
      | _ => cases hm
    exact (ih fun m' hm' => hwork m' (List.mem_cons_of_mem m hm')).trans hstep

theorem Conserved.survives {s : Outbound} (h : Conserved s) (hlocked : Locked s)
    (hshort : ∀ f ∈ s.accepted, f.length ≤ 65535) : Survives s := by
  have hall : s.accepted.filter short = s.accepted :=
    List.filter_eq_self.mpr fun f hf => by simpa [short] using hshort f hf
  refine ⟨hall ▸ h.order, h.handed, fun work hwork hsettled => ?_, settles h hlocked⟩
  rw [(h.run work).settled hsettled, accepted_work hwork, hall]

theorem Conserved.short_of_survives {s : Outbound} (h : Conserved s) (hs : Survives s) :
    ∀ f ∈ s.accepted, f.length ≤ 65535 := by
  obtain ⟨work, hwork, hsettled⟩ := hs.settles
  have harrived := hs.arrives work hwork hsettled
  rw [(h.run work).settled hsettled, accepted_work hwork, List.filter_eq_self] at harrived
  intro f hf
  simpa [short] using harrived f hf

theorem Locked.start (connected : Bool) : Locked { connected } := fun _ hn => by cases hn

/-- What was accepted arrives unless a frame of it has 65536 bytes. -/
theorem survives_iff (connected : Bool) (ms : List SendMove) :
    Survives (Outbound.run { connected } ms) ↔
      ∀ f ∈ (Outbound.run { connected } ms).accepted, f.length ≤ 65535 := by
  have h := (Conserved.start connected).run ms
  exact ⟨h.short_of_survives, h.survives ((Locked.start connected).run ms)⟩

theorem sendIp_accepted {ip : Bytes} (hne : ip ≠ []) (hle : ip.length ≤ 65535) :
    (Outbound.run {} [.sendIp ip, .land 0]).accepted = [FRAME_TYPE_IP :: ip] := by
  have hip : ¬ 65535 < ip.length := by omega
  have htagged : ¬ 65536 < ip.length + 1 := by omega
  simp [Outbound.run, Outbound.step, Outbound.sendIp, Outbound.sendRawFrame, Outbound.land, hne, hip,
    htagged, Outbound.capacity, Outbound.held, SEND_QUEUE_CAP, Except.toOption]

/-- A packet of 65535 bytes is accepted and never arrives. -/
theorem lost_of_length {ip : Bytes} (hlen : ip.length = 65535) :
    ¬ Survives (Outbound.run {} [.sendIp ip, .land 0]) := by
  intro hs
  have hne : ip ≠ [] := by
    rintro rfl
    cases hlen
  have h := (Conserved.start true).run [.sendIp ip, .land 0]
  have hmem : FRAME_TYPE_IP :: ip ∈ (Outbound.run {} [.sendIp ip, .land 0]).accepted := by
    rw [sendIp_accepted hne (by omega)]
    exact List.mem_singleton.mpr rfl
  have hshort := h.short_of_survives hs _ hmem
  rw [List.length_cons] at hshort
  omega

theorem longest_packet_lost :
    ¬ Survives (Outbound.run {} [.sendIp (List.replicate 65535 0), .land 0]) :=
  lost_of_length List.length_replicate

end Outbound

end BaleVpn.Carrier
