import BaleVpn.Carrier.Wakeup
import BaleVpn.Net.Icmpv6
import BaleVpn.Server.TunQueue

/-!
# Reading the TUN of a client (`tun.rs`, `lib.rs`)

`TunBridge::on_readable` hands packets to `send_ip` until one is refused for want of a slot; the bridge
then pauses, and `tun_wake_on_drain` has the sender post a task that resumes it. The reactor reports
readiness once for each change, so an event that a paused bridge ignores does not come again; what
brings the rest of the packets in is the new registration.

One iteration of the read loop is a step, and so is one step of the sending side; nothing is assumed
about the order, which includes what the dispatcher thread never does. A registration and an arrival
report as `epoll` does. The kernel has no empty packet for the bridge. Reads that are interrupted
change nothing and are left out, and so are the counters and the drop of the bridge.
-/

namespace BaleVpn.Tunnel

open Net Carrier Server Tcp

/-! ## State -/

structure Reads where
  bridge : TunBridge
  paused : Bool := false
  /-- The registered interest. -/
  readable : Bool := true
  writable : Bool := false
  /-- What the device has for the bridge. -/
  rx : List Bytes := []
  /-- The reactor has readiness to report. -/
  event : Bool := false
  /-- It has reported it, and the handler has not run yet. -/
  polled : Bool := false
  /-- The loop of `on_readable` runs. -/
  reading : Bool := false
  out : Outbound := {}
  /-- The calls of `on_send_drained` that the bridge made. -/
  mine : List ℕ := []
  /-- How many of the tasks that callbacks posted have run. -/
  ran : ℕ := 0
  /-- A read failed. -/
  dead : Bool := false
  /-- The last drain ended at a packet the device rejects. -/
  rejected : Bool := false

namespace Reads

def reregister (s : Reads) (readable writable : Bool) : Reads :=
  { s with readable, writable, event := readable && !s.rx.isEmpty }

def refreshInterest (s : Reads) : Reads :=
  match !s.paused, !s.bridge.pending.isEmpty with
  | true, true => s.reregister true true
  | true, false => s.reregister true false
  | false, true => s.reregister false true
  -- `mio` takes no empty interest.
  | false, false => s.reregister true false

def refreshInterestWithPending (s : Reads) : Reads := s.reregister (!s.paused) true

def drain (s : Reads) (results : List WriteRes) : Reads :=
  let drained := { s with bridge := (s.bridge.drain results).1 }
  match drainEnd results s.bridge.pending with
  | .drained => { drained with rejected := false }.refreshInterest
  | .blocked => { drained with rejected := false }.refreshInterestWithPending
  | .rejected => { drained with rejected := true }

/-- `inject`: what it does before its drain, and the drain. -/
def inject (s : Reads) (ip : Bytes) (results : List WriteRes) : Reads :=
  if s.bridge.pending.length ≥ MAX_PENDING_TX_PKTS then s
  else
    let bridge := { s.bridge with
      pending := s.bridge.pending ++ [⟨ip, wrapForWire ip s.bridge.format⟩] }
    { s with bridge }.drain results

def resume (s : Reads) : Reads :=
  if !s.paused then s else { s with paused := false }.refreshInterest

/-- `wake_on_drain`: the call of `on_send_drained` begins. -/
def wakeOnDrain (s : Reads) : Reads :=
  { s with out := s.out.step .onSendDrained, mine := s.mine ++ [s.out.calls.length] }

/-- `tun_send`, and what the loop does about it. -/
def sendPacket (s : Reads) (pkt : Bytes) : Reads :=
  match s.out.sendIp pkt with
  | .ok out => { s with out }
  | .error .backpressure =>
    { s with paused := true, reading := false }.refreshInterest.wakeOnDrain
  | .error _ => s

/-- One iteration of the loop of `on_readable`; `results` are for the reply to an IPv6 packet. -/
def read (s : Reads) (results : List WriteRes) : Reads :=
  if !s.reading then s
  else
    match s.rx with
    | [] => { s with reading := false }
    | wire :: rx =>
      let s := { s with rx }
      match unwrapFromWire (wire.take 2048) s.bridge.format with
      | [] => s
      | b :: rest =>
        if b >>> 4 == 6 then
          match buildIcmpv6DestUnreach (b :: rest) with
          | some reply => s.inject reply results
          | none => s
        else s.sendPacket (b :: rest)

/-- The read fails. -/
def readError (s : Reads) : Reads :=
  if !s.reading then s
  else { s with paused := true, reading := false, dead := true }.refreshInterest

/-- The next task of the dispatcher's queue that a callback posted. -/
def runTask (s : Reads) : Reads :=
  match s.out.fired[s.ran]? with
  | some n =>
    let s := { s with ran := s.ran + 1 }
    if n ∈ s.mine then s.resume else s
  | none => s

end Reads

inductive ReadMove
  /-- The kernel has a packet. -/
  | arrive (wire : Bytes)
  /-- `poll` reports that the device is readable. -/
  | poll
  /-- The event reaches `on_readable`. -/
  | handle
  | read (results : List WriteRes)
  | readError
  /-- An event reaches `on_writable`. -/
  | writable (results : List WriteRes)
  | inject (ip : Bytes) (results : List WriteRes)
  | runTask
  | out (m : SendMove)

namespace Reads

def step (s : Reads) : ReadMove → Reads
  | .arrive wire =>
    if wire.isEmpty then s
    else { s with rx := s.rx ++ [wire], event := s.event || s.readable }
  | .poll => if s.event && s.readable then { s with event := false, polled := true } else s
  | .handle => if s.polled then { s with polled := false, reading := s.reading || !s.paused } else s
  | .read results => s.read results
  | .readError => s.readError
  | .writable results => s.drain results
  | .inject ip results => s.inject ip results
  | .runTask => s.runTask
  | .out m => { s with out := s.out.step m }

def run (s : Reads) (ms : List ReadMove) : Reads := ms.foldl step s

end Reads

/-! ## Callbacks of the sending side -/

/-- Callbacks only move on from the waiters, and what has fired stays fired. -/
structure Outgrown (s s' : Outbound) : Prop where
  calls : s.calls.length ≤ s'.calls.length
  fired : s.fired <+: s'.fired
  known : ∀ n, n ∈ s'.waiters ∨ n ∈ s'.firing ∨ n ∈ s'.fired →
    n ∈ s.waiters ∨ n ∈ s.firing ∨ n ∈ s.fired ∨ n < s.calls.length

theorem Outgrown.quiet {s s' : Outbound} (hcalls : s'.calls = s.calls) (hwaiters : s'.waiters = s.waiters)
    (hfiring : s'.firing = s.firing) (hfired : s'.fired = s.fired) : Outgrown s s' := by
  refine ⟨le_of_eq (by rw [hcalls]), hfired ▸ List.prefix_rfl, fun n hn => ?_⟩
  rw [hwaiters, hfiring, hfired] at hn
  rcases hn with hn | hn | hn
  · exact .inl hn
  · exact .inr (.inl hn)
  · exact .inr (.inr (.inl hn))

theorem Outgrown.refl (s : Outbound) : Outgrown s s := .quiet rfl rfl rfl rfl

theorem Outgrown.senderStep (s : Outbound) (taken : Bool) : Outgrown s (s.senderStep taken) := by
  unfold Outbound.senderStep
  split
  · rename_i hpc
    split
    · exact .quiet rfl rfl (by simp [Outbound.firing, hpc]) rfl
    · exact .refl s
  · rename_i hpc
    exact .quiet rfl rfl (by simp [Outbound.firing, hpc]) rfl
  · rename_i hpc
    split
    · exact .quiet rfl rfl (by simp [Outbound.firing, hpc]) rfl
    · exact .quiet rfl rfl (by simp [Outbound.firing, hpc]) rfl
  · rename_i hpc
    split
    · exact .quiet rfl rfl (by simp [Outbound.firing, hpc]) rfl
    · exact .quiet rfl rfl (by simp [Outbound.firing, hpc]) rfl
  · rename_i hpc
    split
    · exact .quiet rfl rfl (by simp [Outbound.firing, hpc]) rfl
    · exact .refl s
  · rename_i hpc
    split
    · exact .quiet rfl rfl (by simp [Outbound.firing, hpc]) rfl
    · exact .refl s
  · split
    · refine ⟨le_refl _, List.prefix_rfl, ?_⟩
      rintro n (hn | hn | hn)
      · cases hn
      · exact .inl hn
      · exact .inr (.inr (.inl hn))
    · exact .refl s
  · rename_i callback rest hpc
    refine ⟨le_refl _, List.prefix_append _ _, ?_⟩
    rintro n (hn | hn | hn)
    · exact .inl hn
    · exact .inr (.inl (by simp only [Outbound.firing, hpc]; exact List.mem_cons_of_mem _ hn))
    · rcases List.mem_append.mp hn with hn | hn
      · exact .inr (.inr (.inl hn))
      · exact .inr (.inl (by
          simp only [Outbound.firing, hpc]
          exact List.mem_cons.mpr (.inl (List.mem_singleton.mp hn))))
  · rename_i hpc
    exact .quiet rfl rfl (by simp [Outbound.firing, hpc]) rfl

theorem Outgrown.callStep (s : Outbound) (n : ℕ) : Outgrown s (s.callStep n) := by
  unfold Outbound.callStep
  split
  · rename_i pc hn
    have hlt : n < s.calls.length := (List.getElem?_eq_some_iff.mp hn).1
    cases pc with
    | lock =>
      simp only [Outbound.waiterStep]
      split <;> exact ⟨by simp, List.prefix_rfl, fun k hk => by tauto⟩
    | check =>
      simp only [Outbound.waiterStep]
      split <;> exact ⟨by simp, List.prefix_rfl, fun k hk => by tauto⟩
    | park =>
      refine ⟨by simp [Outbound.waiterStep], List.prefix_rfl, ?_⟩
      rintro k (hk | hk)
      · rcases List.mem_append.mp hk with hk | hk
        · exact .inl hk
        · obtain rfl := List.mem_singleton.mp hk
          exact .inr (.inr (.inr hlt))
      · tauto
    | fire =>
      refine ⟨by simp [Outbound.waiterStep], List.prefix_append _ _, ?_⟩
      rintro k (hk | hk | hk)
      · exact .inl hk
      · exact .inr (.inl hk)
      · rcases List.mem_append.mp hk with hk | hk
        · exact .inr (.inr (.inl hk))
        · obtain rfl := List.mem_singleton.mp hk
          exact .inr (.inr (.inr hlt))
    | returned => exact ⟨by simp [Outbound.waiterStep], List.prefix_rfl, fun k hk => by tauto⟩
  · exact .refl s

theorem Outgrown.step (s : Outbound) (m : SendMove) : Outgrown s (s.step m) := by
  cases m with
  | sendIp ip =>
    rcases s.step_sendIp ip with heq | ⟨-, heq⟩
    · rw [heq]
      exact .refl s
    · rw [heq]
      exact .quiet rfl rfl rfl rfl
  | sendRawFrame buf =>
    rcases s.step_sendRawFrame buf with heq | ⟨-, heq⟩
    · rw [heq]
      exact .refl s
    · rw [heq]
      exact .quiet rfl rfl rfl rfl
  | land i =>
    simp only [Outbound.step, Outbound.land]
    split
    · exact .quiet rfl rfl rfl rfl
    · exact .refl s
  | sender taken => exact .senderStep s taken
  | onSendDrained => exact ⟨by simp [Outbound.step], List.prefix_rfl, fun n hn => by tauto⟩
  | call n => exact .callStep s n
  | deliver =>
    simp only [Outbound.step, Outbound.deliver]
    split
    · exact .quiet rfl rfl rfl rfl
    · exact .refl s

/-! ## Events -/

namespace Reads

/-- A bridge that reads is told of what it has not read, and what waits to be written is waited for. -/
structure Listening (s : Reads) : Prop where
  armed : s.dead = false → s.rx ≠ [] →
    s.paused = true ∨ s.reading = true ∨ s.polled = true ∨ s.event = true
  opened : s.paused = false → s.readable = true
  writes : s.bridge.pending ≠ [] → s.rejected = false → s.writable = true

theorem listening_refreshInterest (s : Reads) : Listening s.refreshInterest := by
  unfold refreshInterest
  split
  · rename_i hpaused hpending
    refine ⟨fun _ hrx => .inr (.inr (.inr ?_)), fun _ => rfl, fun _ _ => rfl⟩
    simpa [reregister] using hrx
  · rename_i hpaused hpending
    refine ⟨fun _ hrx => .inr (.inr (.inr ?_)), fun _ => rfl, fun h _ => ?_⟩
    · simpa [reregister] using hrx
    · simp only [Bool.not_eq_false', List.isEmpty_iff] at hpending
      exact absurd hpending h
  · rename_i hpaused hpending
    simp only [Bool.not_eq_false'] at hpaused
    refine ⟨fun _ _ => .inl hpaused, fun h => ?_, fun _ _ => rfl⟩
    exact absurd (hpaused.symm.trans h) (by simp)
  · rename_i hpaused hpending
    simp only [Bool.not_eq_false', List.isEmpty_iff] at hpaused hpending
    exact ⟨fun _ _ => .inl hpaused, fun _ => rfl, fun h _ => absurd hpending h⟩

theorem listening_refreshInterestWithPending (s : Reads) : Listening s.refreshInterestWithPending := by
  refine ⟨fun _ hrx => ?_, fun h => ?_, fun _ _ => rfl⟩
  · rcases hpaused : s.paused with _ | _
    · refine .inr (.inr (.inr ?_))
      simpa [refreshInterestWithPending, reregister, hpaused] using hrx
    · exact .inl hpaused
  · have hopen : s.paused = false := h
    simp [refreshInterestWithPending, reregister, hopen]

/-- A drain that ends at a rejected packet registers nothing; any other one registers what is needed. -/
theorem Listening.drain {s : Reads} (h : Listening s) {bridge : TunBridge} (results : List WriteRes) :
    Listening ({ s with bridge }.drain results) := by
  unfold Reads.drain
  simp only
  split
  · exact listening_refreshInterest _
  · exact listening_refreshInterestWithPending _
  · exact ⟨h.armed, h.opened, fun _ hrej => by cases hrej⟩

theorem Listening.inject {s : Reads} (h : Listening s) (ip : Bytes) (results : List WriteRes) :
    Listening (s.inject ip results) := by
  unfold Reads.inject
  split
  · exact h
  · exact h.drain results

theorem Listening.resume {s : Reads} (h : Listening s) : Listening s.resume := by
  unfold Reads.resume
  split
  · exact h
  · exact listening_refreshInterest _

theorem Listening.takes {s : Reads} (h : Listening s) (hreading : s.reading = true) (rx : List Bytes) :
    Listening { s with rx } :=
  ⟨fun _ _ => .inr (.inl hreading), h.opened, h.writes⟩

theorem Listening.sendPacket {s : Reads} (h : Listening s) (pkt : Bytes) : Listening (s.sendPacket pkt) := by
  unfold Reads.sendPacket
  split
  · exact ⟨h.armed, h.opened, h.writes⟩
  · have hrefresh := listening_refreshInterest { s with paused := true, reading := false }
    exact ⟨hrefresh.armed, hrefresh.opened, hrefresh.writes⟩
  · exact h

theorem Listening.read {s : Reads} (h : Listening s) (results : List WriteRes) :
    Listening (s.read results) := by
  unfold Reads.read
  split
  · exact h
  rename_i hloop
  have hreading : s.reading = true := by simpa using hloop
  split
  · rename_i hrx
    exact ⟨fun _ hne => absurd hrx hne, h.opened, h.writes⟩
  rename_i wire rx hrx
  have htaken := h.takes hreading rx
  simp only
  split
  · exact htaken
  · split
    · split
      · exact htaken.inject _ results
      · exact htaken
    · exact htaken.sendPacket _

theorem Listening.step {s : Reads} (h : Listening s) (m : ReadMove) : Listening (s.step m) := by
  cases m with
  | arrive wire =>
    simp only [Reads.step]
    split
    · exact h
    · refine ⟨fun _ _ => ?_, h.opened, h.writes⟩
      rcases hpaused : s.paused with _ | _
      · exact .inr (.inr (.inr (by simp [h.opened hpaused])))
      · exact .inl rfl
  | poll =>
    simp only [Reads.step]
    split
    · exact ⟨fun _ _ => .inr (.inr (.inl rfl)), h.opened, h.writes⟩
    · exact h
  | handle =>
    simp only [Reads.step]
    split
    · refine ⟨fun _ _ => ?_, h.opened, h.writes⟩
      rcases hpaused : s.paused with _ | _
      · exact .inr (.inl (by simp))
      · exact .inl rfl
    · exact h
  | read results => exact h.read results
  | readError =>
    simp only [Reads.step, readError]
    split
    · exact h
    · exact listening_refreshInterest _
  | writable results => exact h.drain results
  | inject ip results => exact h.inject ip results
  | runTask =>
    simp only [Reads.step, runTask]
    split
    · have hran : Listening { s with ran := s.ran + 1 } := ⟨h.armed, h.opened, h.writes⟩
      split
      · exact hran.resume
      · exact hran
    · exact h
  | out m => exact ⟨h.armed, h.opened, h.writes⟩

theorem Listening.run {s : Reads} (h : Listening s) (ms : List ReadMove) : Listening (s.run ms) :=
  Lib.foldl_invariant (I := Listening) (fun _ m h => h.step m) ms h

/-! ## Pauses -/

/-- Call `n` is the bridge's, and what it has posted or is to post has not run. -/
def Awaited (s : Reads) (n : ℕ) : Prop :=
  n ∈ s.mine ∧ n < s.out.calls.length ∧ n ∉ s.out.fired.take s.ran

/-- Callbacks are known by their calls, and a task that has run was posted. -/
structure Counted (s : Reads) : Prop where
  awake : s.out.Awake
  known : ∀ n, n ∈ s.out.waiters ∨ n ∈ s.out.firing ∨ n ∈ s.out.fired → n < s.out.calls.length
  ran_le : s.ran ≤ s.out.fired.length

structure Tended (s : Reads) : Prop extends Counted s where
  asked : s.dead = false → s.paused = true → ∃ n, s.Awaited n

/-- What the pauses rest on is as it was. -/
structure SamePause (s s' : Reads) : Prop where
  out : s'.out = s.out
  mine : s'.mine = s.mine
  ran : s'.ran = s.ran
  dead : s'.dead = s.dead
  paused : s'.paused = s.paused

theorem Counted.of_eq {s s' : Reads} (h : Counted s) (hout : s'.out = s.out) (hran : s'.ran = s.ran) :
    Counted s' := by
  refine ⟨hout ▸ h.awake, hout ▸ h.known, ?_⟩
  rw [hran, hout]
  exact h.ran_le

theorem Tended.same {s s' : Reads} (h : Tended s) (hsame : SamePause s s') : Tended s' := by
  obtain ⟨hout, hmine, hran, hdead, hpaused⟩ := hsame
  refine ⟨h.toCounted.of_eq hout hran, fun hd hp => ?_⟩
  obtain ⟨n, hn⟩ := h.asked (hdead ▸ hd) (hpaused ▸ hp)
  refine ⟨n, ?_⟩
  unfold Awaited
  rw [hmine, hout, hran]
  exact hn

theorem Counted.tended {s : Reads} (h : Counted s) (hidle : s.dead = false → s.paused = false) :
    Tended s := by
  refine ⟨h, fun hd hp => ?_⟩
  rw [hidle hd] at hp
  cases hp

theorem samePause_refreshInterest (s : Reads) : SamePause s s.refreshInterest := by
  unfold refreshInterest
  split <;> exact ⟨rfl, rfl, rfl, rfl, rfl⟩

theorem samePause_drain (s : Reads) (bridge : TunBridge) (results : List WriteRes) :
    SamePause s ({ s with bridge }.drain results) := by
  unfold Reads.drain
  simp only
  split
  · obtain ⟨hout, hmine, hran, hdead, hpaused⟩ := samePause_refreshInterest
      { s with bridge := (bridge.drain results).1, rejected := false }
    exact ⟨hout, hmine, hran, hdead, hpaused⟩
  · exact ⟨rfl, rfl, rfl, rfl, rfl⟩
  · exact ⟨rfl, rfl, rfl, rfl, rfl⟩

theorem samePause_inject (s : Reads) (ip : Bytes) (results : List WriteRes) :
    SamePause s (s.inject ip results) := by
  unfold Reads.inject
  split
  · exact ⟨rfl, rfl, rfl, rfl, rfl⟩
  · exact samePause_drain s _ results

theorem Counted.sends {s : Reads} (h : Counted s) (m : SendMove) :
    Counted { s with out := s.out.step m } := by
  have hgrow := Outgrown.step s.out m
  refine ⟨h.awake.step m, fun n hn => lt_of_lt_of_le ?_ hgrow.calls,
    h.ran_le.trans hgrow.fired.length_le⟩
  rcases hgrow.known n hn with hn | hn | hn | hn
  · exact h.known n (.inl hn)
  · exact h.known n (.inr (.inl hn))
  · exact h.known n (.inr (.inr hn))
  · exact hn

theorem Tended.sends {s : Reads} (h : Tended s) (m : SendMove) :
    Tended { s with out := s.out.step m } := by
  have hgrow := Outgrown.step s.out m
  obtain ⟨tail, htail⟩ := hgrow.fired
  refine ⟨h.toCounted.sends m, fun hd hp => ?_⟩
  obtain ⟨n, hmine, hlt, hnot⟩ := h.asked hd hp
  refine ⟨n, hmine, lt_of_lt_of_le hlt hgrow.calls, ?_⟩
  change n ∉ (s.out.step m).fired.take s.ran
  rw [← htail, List.take_append_of_le_length h.ran_le]
  exact hnot

/-- The call that a pause makes is new, so no task of it has run. -/
theorem Counted.wakeOnDrain {s : Reads} (h : Counted s) : Tended s.wakeOnDrain := by
  refine ⟨(h.sends .onSendDrained).of_eq rfl rfl, fun _ _ => ⟨s.out.calls.length, ?_, ?_, ?_⟩⟩
  · exact List.mem_append_right _ (List.mem_singleton.mpr rfl)
  · simp [Reads.wakeOnDrain, Outbound.step]
  · intro hmem
    have hlt := h.known _ (.inr (.inr (List.mem_of_mem_take hmem)))
    omega

theorem Tended.sendPacket {s : Reads} (h : Tended s) (pkt : Bytes) : Tended (s.sendPacket pkt) := by
  unfold Reads.sendPacket
  split
  · rename_i out hok
    have hstep := h.sends (.sendIp pkt)
    simp only [Outbound.step, hok] at hstep
    exact hstep
  · have hsame := samePause_refreshInterest { s with paused := true, reading := false }
    exact (h.toCounted.of_eq hsame.out hsame.ran).wakeOnDrain
  · exact h

theorem Tended.read {s : Reads} (h : Tended s) (results : List WriteRes) : Tended (s.read results) := by
  unfold Reads.read
  split
  · exact h
  split
  · exact h.same ⟨rfl, rfl, rfl, rfl, rfl⟩
  rename_i wire rx hrx
  have htaken : Tended { s with rx } := h.same ⟨rfl, rfl, rfl, rfl, rfl⟩
  simp only
  split
  · exact htaken
  · split
    · split
      · exact htaken.same (samePause_inject _ _ results)
      · exact htaken
    · exact htaken.sendPacket _

theorem Tended.runTask {s : Reads} (h : Tended s) : Tended s.runTask := by
  unfold Reads.runTask
  split
  · rename_i n hn
    have hlt : s.ran < s.out.fired.length := (List.getElem?_eq_some_iff.mp hn).1
    have hran : Counted { s with ran := s.ran + 1 } := ⟨h.awake, h.known, hlt⟩
    simp only
    split
    · unfold Reads.resume
      split
      · rename_i hpaused
        exact hran.tended fun _ => by simpa using hpaused
      · have hsame := samePause_refreshInterest { s with ran := s.ran + 1, paused := false }
        exact (hran.of_eq hsame.out hsame.ran).tended fun _ => hsame.paused
    · rename_i hmine
      refine ⟨hran, fun hd hp => ?_⟩
      obtain ⟨k, hk, hklt, hnot⟩ := h.asked hd hp
      refine ⟨k, hk, hklt, ?_⟩
      change k ∉ s.out.fired.take (s.ran + 1)
      rw [List.take_add_one, hn, List.mem_append, not_or]
      refine ⟨hnot, fun hmem => hmine ?_⟩
      obtain rfl := List.mem_singleton.mp hmem
      exact hk
  · exact h

theorem Tended.step {s : Reads} (h : Tended s) (m : ReadMove) : Tended (s.step m) := by
  cases m with
  | arrive wire =>
    simp only [Reads.step]
    split
    · exact h
    · exact h.same ⟨rfl, rfl, rfl, rfl, rfl⟩
  | poll =>
    simp only [Reads.step]
    split
    · exact h.same ⟨rfl, rfl, rfl, rfl, rfl⟩
    · exact h
  | handle =>
    simp only [Reads.step]
    split
    · exact h.same ⟨rfl, rfl, rfl, rfl, rfl⟩
    · exact h
  | read results => exact h.read results
  | readError =>
    simp only [Reads.step, readError]
    split
    · exact h
    · have hsame := samePause_refreshInterest
        { s with paused := true, reading := false, dead := true }
      refine (h.toCounted.of_eq hsame.out hsame.ran).tended fun hdead => ?_
      rw [hsame.dead] at hdead
      cases hdead
  | writable results => exact h.same (samePause_drain s s.bridge results)
  | inject ip results => exact h.same (samePause_inject s ip results)
  | runTask => exact h.runTask
  | out m => exact h.sends m

theorem Tended.run {s : Reads} (h : Tended s) (ms : List ReadMove) : Tended (s.run ms) :=
  Lib.foldl_invariant (I := Tended) (fun _ m h => h.step m) ms h

/-! ## Resuming -/

/-- Where call `n` of the bridge is: under way, parked with a message before it that the sender has not
passed, drained, or posted with its task still to run. -/
inductive Due (s : Reads) (n : ℕ) : Prop
  | calling (pc : WaiterPc) (at_ : s.out.calls[n]? = some pc) (going : pc ≠ .returned)
  | parked (mem : n ∈ s.out.waiters) (busy : s.out.Busy)
  | firing (mem : n ∈ s.out.firing)
  | posted (mem : n ∈ s.out.fired.drop s.ran)

/-- The sender waits with nothing queued, the calls have returned, what was posted has run, and the
reactor has nothing to report. -/
structure AtRest (s : Reads) : Prop where
  idle : s.out.Idle
  calls : ∀ pc ∈ s.out.calls, pc = .returned
  tasks : s.ran = s.out.fired.length
  event : s.event = false
  polled : s.polled = false
  reading : s.reading = false

theorem Tended.due {s : Reads} (h : Tended s) {n : ℕ} (hn : s.Awaited n) : s.Due n := by
  obtain ⟨hmine, hlt, hnot⟩ := hn
  have hcall : s.out.calls[n]? = some (s.out.calls[n]) := List.getElem?_eq_getElem hlt
  by_cases hpc : s.out.calls[n] = .returned
  · rw [hpc] at hcall
    rcases h.awake.kept n hcall with hmem | hmem | hmem
    · exact .parked hmem (h.awake.parked (List.ne_nil_of_mem hmem))
    · exact .firing hmem
    · refine .posted ?_
      rw [← List.take_append_drop s.ran s.out.fired, List.mem_append] at hmem
      exact hmem.resolve_left hnot
  · exact .calling _ hcall hpc

theorem AtRest.not_due {s : Reads} (h : AtRest s) (hawake : s.out.Awake) (n : ℕ) : ¬ s.Due n := by
  rintro (⟨pc, hcall, hgoing⟩ | ⟨hmem, -⟩ | hmem | hmem)
  · exact hgoing (h.calls pc (List.mem_of_getElem? hcall))
  · rw [hawake.wakes.idle h.idle] at hmem
    cases hmem
  · simp only [Outbound.firing, h.idle.1] at hmem
    cases hmem
  · rw [h.tasks, List.drop_length] at hmem
    cases hmem

/-- In every order of arrivals, reads, sends, callbacks and tasks, as long as no read has failed: a paused
bridge has a call of `on_send_drained` that still comes to resume it; packets the device holds for a bridge
that is not paused are about to be read; so when everything is at rest the bridge reads again and nothing is
left unread. -/
theorem reads_resume (format : TunFormat) (connected : Bool) (ms : List ReadMove) :
    let s := run { bridge := { format }, out := { connected } } ms
    (s.dead = false → s.paused = true → ∃ n ∈ s.mine, s.Due n) ∧
    (s.dead = false → s.paused = false → s.rx ≠ [] →
      s.reading = true ∨ s.polled = true ∨ s.event = true ∧ s.readable = true) ∧
    (s.bridge.pending ≠ [] → s.rejected = false → s.writable = true) ∧
    (s.dead = false → s.AtRest → s.paused = false ∧ s.rx = []) := by
  intro s
  have hcounted : Counted { bridge := { format }, out := { connected } } :=
    ⟨⟨fun hparked => absurd rfl hparked, by simp, by simp, by simp⟩, by simp [Outbound.firing],
      le_refl _⟩
  have hfirst : Tended { bridge := { format }, out := { connected } } := hcounted.tended fun _ => rfl
  have htended : Tended s := hfirst.run ms
  have hstart : Listening { bridge := { format }, out := { connected } } :=
    ⟨fun _ hrx => absurd rfl hrx, fun _ => rfl, fun hpending _ => absurd rfl hpending⟩
  have hlisten : Listening s := hstart.run ms
  have hdue (hdead : s.dead = false) (hpaused : s.paused = true) : ∃ n ∈ s.mine, s.Due n := by
    obtain ⟨n, hn⟩ := htended.asked hdead hpaused
    exact ⟨n, hn.1, htended.due hn⟩
  have hread (hdead : s.dead = false) (hpaused : s.paused = false) (hrx : s.rx ≠ []) :
      s.reading = true ∨ s.polled = true ∨ s.event = true ∧ s.readable = true := by
    rcases hlisten.armed hdead hrx with h | h | h | h
    · rw [hpaused] at h
      cases h
    · exact .inl h
    · exact .inr (.inl h)
    · exact .inr (.inr ⟨h, hlisten.opened hpaused⟩)
  refine ⟨hdue, hread, hlisten.writes, fun hdead hrest => ?_⟩
  have hopen : s.paused = false := by
    rw [← Bool.not_eq_true]
    intro hpaused
    obtain ⟨n, -, hn⟩ := hdue hdead hpaused
    exact hrest.not_due htended.awake n hn
  refine ⟨hopen, ?_⟩
  by_contra hrx
  rcases hread hdead hopen hrx with h | h | ⟨h, -⟩
  · rw [hrest.reading] at h
    cases h
  · rw [hrest.polled] at h
    cases h
  · rw [hrest.event] at h
    cases h

end Reads

end BaleVpn.Tunnel
