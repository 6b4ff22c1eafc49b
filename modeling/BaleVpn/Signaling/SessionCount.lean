import BaleVpn.Signaling.Watchers

/-!
# The session count

In client mode the driver's count is the number of the epoch's tunnels that are up, at every point where
nothing is in progress, as long as watchers count in the epoch of their tunnel only, and no tunnel that
was counted is taken out of `current` without its watcher hearing of the end: `bump_session` comes before
`upgrade`, which may fail, and a tunnel that has closed without an event has none to give.
-/

namespace BaleVpn.Signaling

open Lib

namespace ActivationDriver

theorem bumped_range (cur delta : ℤ) : 0 ≤ bumped cur delta ∧ bumped cur delta < 2 ^ 63 := by
  have hlt := Int.bmod_lt (x := cur + delta) (m := 2 ^ 64) (by decide)
  simp only [bumped]
  omega

theorem bumped_add_one {cur : ℤ} (h : 0 ≤ cur) (hlt : cur + 1 < 2 ^ 63) : bumped cur 1 = cur + 1 := by
  have hmod : Int.bmod (cur + 1) (2 ^ 64) = cur + 1 := Int.bmod_eq_of_le (by omega) (by omega)
  rw [bumped, hmod]
  omega

theorem bumped_sub_one {cur : ℤ} (h : 0 < cur) (hlt : cur < 2 ^ 63) : bumped cur (-1) = cur - 1 := by
  have hmod : Int.bmod (cur + -1) (2 ^ 64) = cur + -1 := Int.bmod_eq_of_le (by omega) (by omega)
  rw [bumped, hmod]
  omega

end ActivationDriver

namespace ClientCall

/-- Its `Connected` was processed, its `Disconnected` was not, and it is not superseded. -/
def Live (epoch : ℕ) (c : ClientCall) : Bool := c.epoch = epoch && c.entered && !c.ended && !c.evicted

/-- It is part of the count. -/
def Counted (c : ClientCall) : Bool :=
  match c.watcher with
  | .upgrade _ | .announce => true
  | .recv | .clear | .unbump _ => c.entered
  | .unspawned | .stillCurrent | .bump | .unbumping _ _ | .ending _ | .finished => false

/-- It is, or will be, and the end of its tunnel is to come. -/
def Entering (c : ClientCall) : Bool :=
  match c.watcher with
  | .bump | .upgrade _ | .announce => true
  | .recv => c.entered
  | .unspawned | .stillCurrent | .clear | .unbump _ | .unbumping _ _ | .ending _ | .finished => false

/-- And will not come: the tunnel has closed and left no event. -/
def Stranded (c : ClientCall) : Prop :=
  c.Entering = true ∧ c.closed = true ∧ TunnelEvent.disconnected ∉ c.events

instance (c : ClientCall) : Decidable c.Stranded := inferInstanceAs (Decidable (_ ∧ _ ∧ _))

/-- It is in `current`. -/
def Seated (c : ClientCall) : Prop :=
  c.pc ≠ .replace ∧ c.evicted = false ∧
    match c.watcher with
    | .unspawned | .recv | .stillCurrent | .bump | .upgrade _ | .announce | .clear => True
    | .unbump _ | .unbumping _ _ | .ending _ | .finished => False

end ClientCall

namespace ClientManagers

/-! ## The condition -/

/-- The count matters: the mode is client, and no `set_mode` is about to reset it. -/
def Counting (s : ClientManagers) : Prop :=
  s.driver.serverMode = false ∧ DriverPc.storeActive ∉ s.driver.calls

instance (s : ClientManagers) : Decidable s.Counting := inferInstanceAs (Decidable (_ ∧ _))

/-- A watcher counts in the epoch of its tunnel, in an `i64`, and finds the tunnel there when it has. -/
def InEpoch (s : ClientManagers) (c : ClientCall) : WatcherPc → Prop
  | .bump => c.epoch = s.epoch ∧ s.driver.active + 1 < 2 ^ 63
  | .upgrade call => s.Bumped call → c.dropped = true → c.epoch ≠ s.epoch
  | .unbump _ => c.entered = true → c.epoch = s.epoch ∨ s.driver.active = 0
  | .unspawned | .recv | .stillCurrent | .announce | .clear | .unbumping _ _ | .ending _ | .finished => True

instance (s : ClientManagers) (c : ClientCall) : (pc : WatcherPc) → Decidable (InEpoch s c pc)
  | .bump => inferInstanceAs (Decidable (_ ∧ _))
  | .upgrade _ => inferInstanceAs (Decidable (_ → _))
  | .unbump _ => inferInstanceAs (Decidable (_ → _))
  | .unspawned | .recv | .stillCurrent | .announce | .clear | .unbumping _ _ | .ending _ | .finished =>
    isTrue trivial

/-- And no tunnel of the epoch that is disconnected to make room is stranded. -/
def Accounted (s : ClientManagers) : ManagersMove → Prop
  | .watch n => Counting s → ∀ c ∈ s.calls[n]?, InEpoch s c c.watcher
  | .place n => Counting s → ∀ c ∈ s.calls[n]?, ∀ old ∈ List.range s.calls.length,
    c.pc = .supersede (some old) → ∀ d ∈ s.calls[old]?, d.epoch = s.epoch → ¬ d.Stranded
  | .dropManager m => Counting s → ∀ old ∈ s.current m, ∀ d ∈ s.calls[old]?, d.epoch = s.epoch →
    ¬ d.Stranded
  | _ => True

instance (s : ClientManagers) : (m : ManagersMove) → Decidable (Accounted s m)
  | .watch _ => inferInstanceAs (Decidable (_ → _))
  | .place _ => inferInstanceAs (Decidable (_ → _))
  | .dropManager _ => inferInstanceAs (Decidable (_ → _))
  | .setMode _ | .setForeground _ | .driver _ | .task | .placeCall _ _ | .connected _ | .disconnect _
  | .close _ | .drop _ => isTrue trivial

/-- Nothing is in progress. -/
structure Quiescent (s : ClientManagers) : Prop where
  driver : s.driver.Quiescent
  placed : ∀ c ∈ s.calls, c.pc = .returned
  watched : ∀ c ∈ s.calls, c.watcher = .finished ∨
    c.watcher = .recv ∧ c.events = [] ∧ c.dropped = false

/-! ## The invariant -/

end ClientManagers

/-- What a call says of itself by where its watcher is. -/
def ClientCall.Phase (c : ClientCall) : Prop :=
  match c.watcher with
  | .unspawned =>
    c.pc ≠ .returned ∧ c.entered = false ∧ c.ended = false ∧ (c.pc = .replace → c.evicted = false)
  | .recv => c.pc = .returned ∧ c.ended = false
  | .stillCurrent | .bump | .upgrade _ | .announce => c.pc = .returned ∧ c.entered = true ∧ c.ended = false
  | .clear | .unbump _ | .unbumping _ _ | .ending _ => c.pc = .returned ∧ c.ended = true
  | .finished => c.pc = .returned ∧ (c.ended = true ∨ c.evicted = true)

theorem ClientCall.Phase.evicted {c : ClientCall} (h : c.Phase) (hpc : c.pc ≠ .replace) :
    ClientCall.Phase { c with evicted := true } := by
  unfold ClientCall.Phase at h ⊢
  cases hw : c.watcher with
  | unspawned =>
    rw [hw] at h
    exact ⟨h.1, h.2.1, h.2.2.1, fun hp => absurd hp hpc⟩
  | finished =>
    rw [hw] at h
    exact ⟨h.1, .inr rfl⟩
  | recv | stillCurrent | bump | upgrade | announce | clear | unbump | unbumping | ending => rwa [hw] at h

theorem ClientCall.Phase.unspawned {c : ClientCall} (h : c.Phase) (hpc : c.pc ≠ .returned) :
    c.watcher = .unspawned ∧ c.entered = false ∧ c.ended = false ∧ (c.pc = .replace → c.evicted = false) := by
  unfold ClientCall.Phase at h
  cases hw : c.watcher with
  | unspawned =>
    rw [hw] at h
    exact ⟨rfl, h.2⟩
  | recv | stillCurrent | bump | upgrade | announce | clear | unbump | unbumping | ending | finished =>
    rw [hw] at h
    exact absurd h.1 hpc

namespace ClientManagers

structure Booked (s : ClientManagers) (n : ℕ) (c : ClientCall) : Prop where
  epoch : c.epoch ≤ s.epoch
  phase : c.Phase
  seat : s.current c.manager = some n ↔ c.Seated
  shut : c.shut = true → c.evicted = true
  dropped : c.dropped = true → ¬ c.Seated ∧ c.pc = .returned ∧ (c.evicted = true → c.shut = true)
  told : Counting s → c.epoch = s.epoch → c.Entering = true → c.shut = true →
    TunnelEvent.disconnected ∈ c.events

/-- A call that was taken out of `current` is disconnected, or its successor is about to do so. -/
structure Handed (s : ClientManagers) : Prop where
  pending : ∀ (n : ℕ) (c : ClientCall), s.calls[n]? = some c → c.evicted = true →
    c.shut = true ∨ ∃ (k : ℕ) (d : ClientCall), s.calls[k]? = some d ∧ d.pc = .supersede (some n)
  heir : ∀ (k : ℕ) (d : ClientCall) (n : ℕ), s.calls[k]? = some d → d.pc = .supersede (some n) →
    ∃ c, s.calls[n]? = some c ∧ c.evicted = true

structure Ledger (s : ClientManagers) : Prop where
  booked : ∀ (n : ℕ) (c : ClientCall), s.calls[n]? = some c → Booked s n c
  seats : ∀ (m n : ℕ), s.current m = some n → ∃ c, s.calls[n]? = some c ∧ c.manager = m
  range : 0 ≤ s.driver.active ∧ s.driver.active < 2 ^ 63
  count : Counting s →
    s.driver.active = s.calls.countP fun c => c.epoch = s.epoch && c.Counted

structure Balance (s : ClientManagers) : Prop extends Ledger s, Handed s

variable {s s' : ClientManagers} {n : ℕ} {c : ClientCall}

theorem Booked.congr (h : Booked s n c) (hepoch : s'.epoch = s.epoch) (hcounting : Counting s' → Counting s)
    (hcurrent : ∀ m, s'.current m = some n ↔ s.current m = some n) : Booked s' n c where
  epoch := hepoch ▸ h.epoch
  phase := h.phase
  seat := (hcurrent _).trans h.seat
  shut := h.shut
  dropped := h.dropped
  told hc he := h.told (hcounting hc) (hepoch ▸ he)

theorem Booked.goTo (h : Booked s n c) {pc : WatcherPc} (hphase : (c.goTo pc).Phase)
    (hseated : (c.goTo pc).Seated ↔ c.Seated) (hin : (c.goTo pc).Entering = true → c.Entering = true) :
    Booked s n (c.goTo pc) where
  epoch := h.epoch
  phase := hphase
  seat := h.seat.trans hseated.symm
  shut := h.shut
  dropped hdr := by
    obtain ⟨hns, hrest⟩ := h.dropped hdr
    exact ⟨fun hs => hns (hseated.mp hs), hrest⟩
  told hc he hgo := h.told hc he (hin hgo)

theorem Booked.events (h : Booked s n c) {closed : Bool} {events : List TunnelEvent}
    (hsub : TunnelEvent.disconnected ∈ c.events → TunnelEvent.disconnected ∈ events) :
    Booked s n { c with closed, events } :=
  ⟨h.epoch, h.phase, h.seat, h.shut, h.dropped, fun hc he hin hsh => hsub (h.told hc he hin hsh)⟩

theorem Booked.teardown (h : Booked s n c) : Booked s n c.teardown := by
  obtain ⟨events, hdown, hsub, -⟩ := c.teardown_eq
  rw [hdown]
  exact h.events hsub

def papers (s : ClientManagers) : List (ClientCallPc × Bool × Bool) :=
  s.calls.map fun c => (c.pc, c.evicted, c.shut)

theorem papers_getElem? (h : s'.papers = s.papers) {k : ℕ} {d : ClientCall} (hd : s'.calls[k]? = some d) :
    ∃ a, s.calls[k]? = some a ∧ a.pc = d.pc ∧ a.evicted = d.evicted ∧ a.shut = d.shut := by
  have hk : s.papers[k]? = some (d.pc, d.evicted, d.shut) := by
    rw [← h, papers, List.getElem?_map, hd]
    rfl
  obtain ⟨a, ha, hpapers⟩ := Option.map_eq_some_iff.mp ((List.getElem?_map ..).symm.trans hk)
  simp only [Prod.mk.injEq] at hpapers
  exact ⟨a, ha, hpapers.1, hpapers.2.1, hpapers.2.2⟩

theorem Handed.settle (h : Handed s) {f : ClientCall → ClientCall}
    (hcalls : s'.calls = s.calls.modify n f)
    (hf : ∀ c, (f c).pc = c.pc ∧ (c.evicted = true → (f c).evicted = true) ∧ (f c).shut = true) :
    Handed s' where
  pending j e he hev := by
    rw [hcalls] at he
    obtain ⟨a, ha, rfl⟩ := getElem?_modify_eq_some he
    split at hev
    · next hj =>
      rw [if_pos hj]
      exact .inl (hf a).2.2
    · next hj =>
      rw [if_neg hj]
      obtain hdone | ⟨i, b, hb, hpc⟩ := h.pending j a ha hev
      · exact .inl hdone
      · refine .inr ⟨i, _, hcalls ▸ getElem?_modify_of_eq_some hb n f, ?_⟩
        split
        · rw [(hf b).1, hpc]
        · exact hpc
  heir j e m he hpc := by
    rw [hcalls] at he
    obtain ⟨a, ha, rfl⟩ := getElem?_modify_eq_some he
    have hapc : a.pc = .supersede (some m) := by
      split at hpc
      · rw [← (hf a).1, hpc]
      · exact hpc
    obtain ⟨c, hc, hcev⟩ := h.heir j a m ha hapc
    refine ⟨_, hcalls ▸ getElem?_modify_of_eq_some hc n f, ?_⟩
    split
    · exact (hf c).2.1 hcev
    · exact hcev

theorem Handed.advance (h : Handed s) (hc : s.calls[n]? = some c) {f : ClientCall → ClientCall}
    (hcalls : s'.calls = s.calls.modify n f)
    (hold : ∀ i, c.pc = .supersede (some i) → ∀ d ∈ s.calls[i]?, d.shut = true)
    (hf : ∀ c, (f c).evicted = c.evicted ∧ (f c).shut = c.shut ∧ ∀ i, (f c).pc ≠ .supersede (some i)) :
    Handed s' where
  pending j e he hev := by
    rw [hcalls] at he
    obtain ⟨a, ha, rfl⟩ := getElem?_modify_eq_some he
    have haev : a.evicted = true := by
      split at hev
      · rwa [(hf a).1] at hev
      · exact hev
    have hash : (if n = j then f a else a).shut = a.shut := by
      split
      · exact (hf a).2.1
      · rfl
    rw [hash]
    obtain hdone | ⟨i, b, hb, hpc⟩ := h.pending j a ha haev
    · exact .inl hdone
    · by_cases hi : n = i
      · subst hi
        obtain rfl : c = b := Option.some.inj (hc.symm.trans hb)
        exact .inl (hold j hpc a ha)
      · exact .inr ⟨i, b, by simp [hcalls, hi, hb], hpc⟩
  heir j e m he hpc := by
    rw [hcalls] at he
    obtain ⟨a, ha, rfl⟩ := getElem?_modify_eq_some he
    split at hpc
    · exact absurd hpc ((hf a).2.2 m)
    · obtain ⟨d, hd, hdev⟩ := h.heir j a m ha hpc
      refine ⟨_, hcalls ▸ getElem?_modify_of_eq_some hd n f, ?_⟩
      split
      · exact (hf d).1.trans hdev
      · exact hdev

theorem Handed.congr (h : Handed s) (hpapers : s'.papers = s.papers) : Handed s' where
  pending n c hc hev := by
    obtain ⟨a, ha, -, hevicted, hshut⟩ := papers_getElem? hpapers hc
    obtain hdone | ⟨k, d, hd, hpc⟩ := h.pending n a ha (hevicted.trans hev)
    · exact .inl (hshut ▸ hdone)
    · obtain ⟨b, hb, hbpc, -⟩ := papers_getElem? hpapers.symm hd
      exact .inr ⟨k, b, hb, hbpc.trans hpc⟩
  heir k d n hd hpc := by
    obtain ⟨a, ha, hapc, -⟩ := papers_getElem? hpapers hd
    obtain ⟨c, hc, hev⟩ := h.heir k a n ha (hapc.trans hpc)
    obtain ⟨b, hb, -, hevicted, -⟩ := papers_getElem? hpapers.symm hc
    exact ⟨b, hb, hevicted.trans hev⟩

theorem Counting.mono (h : Counting s') (hmode : s'.driver.serverMode = s.driver.serverMode)
    (hcalls : DriverPc.storeActive ∈ s.driver.calls → DriverPc.storeActive ∈ s'.driver.calls) : Counting s :=
  ⟨hmode ▸ h.1, fun hmem => h.2 (hcalls hmem)⟩

/-- One call changes, with the others in their seats and the count as it should be. -/
theorem Ledger.modify (h : Ledger s) {f : ClientCall → ClientCall} (hcalls : s'.calls = s.calls.modify n f)
    (hepoch : s'.epoch = s.epoch) (hcounting : Counting s' → Counting s)
    (hseats : ∀ m k, s'.current m = some k → s.current m = some k)
    (hcurrent : ∀ m k, k ≠ n → s.current m = some k → s'.current m = some k)
    (hmanager : ∀ c, (f c).manager = c.manager)
    (hf : ∀ c, s.calls[n]? = some c → Booked s n c → Booked s' n (f c))
    (hrange : 0 ≤ s'.driver.active ∧ s'.driver.active < 2 ^ 63)
    (hcount : ∀ c, s.calls[n]? = some c → Counting s' →
      s'.driver.active + ((if c.epoch = s.epoch && c.Counted then 1 else 0 : ℕ) : ℤ) =
        s.driver.active + ((if (f c).epoch = s.epoch && (f c).Counted then 1 else 0 : ℕ) : ℤ))
    (hnone : s.calls[n]? = none → Counting s' → s'.driver.active = s.driver.active) : Ledger s' where
  booked k d hd := by
    rw [hcalls] at hd
    obtain ⟨a, ha, rfl⟩ := getElem?_modify_eq_some hd
    split
    · next hk =>
      subst hk
      exact hf a ha (h.booked n a ha)
    · next hk =>
      exact (h.booked k a ha).congr hepoch hcounting fun m => ⟨hseats m k, hcurrent m k (Ne.symm hk)⟩
  seats m k hk := by
    obtain ⟨c, hc, hm⟩ := h.seats m k (hseats m k hk)
    refine ⟨_, hcalls ▸ getElem?_modify_of_eq_some hc n f, ?_⟩
    split
    · exact (hmanager c).trans hm
    · exact hm
  range := hrange
  count hc := by
    rw [hcalls, hepoch]
    have hold := h.count (hcounting hc)
    cases hn : s.calls[n]? with
    | none =>
      rw [List.modify_eq_set_getElem?, hn, hnone hn hc]
      exact hold
    | some c =>
      have hnew := hcount c hn hc
      have hmod := countP_modify hn f fun c => c.epoch = s.epoch && c.Counted
      omega

namespace Balance

theorem keep (h : Balance s) {f : ClientCall → ClientCall} (hcalls : s'.calls = s.calls.modify n f)
    (hepoch : s'.epoch = s.epoch) (hdriver : s'.driver = s.driver) (hcurrent : s'.current = s.current)
    (hpapers : ∀ c, (f c).manager = c.manager ∧
      ((f c).pc, (f c).evicted, (f c).shut) = (c.pc, c.evicted, c.shut))
    (hf : ∀ c, s.calls[n]? = some c → Booked s n c → Booked s n (f c))
    (hcount : ∀ c, s.calls[n]? = some c → (f c).epoch = c.epoch ∧ (f c).Counted = c.Counted) :
    Balance s' := by
  have hcounting : Counting s' → Counting s := fun hc => hc.mono (by rw [hdriver]) (by simp [hdriver])
  refine ⟨h.modify hcalls hepoch hcounting (fun m k => by rw [hcurrent]; exact id)
    (fun m k _ => by rw [hcurrent]; exact id) (fun c => (hpapers c).1) (fun c hc hb => ?_)
    (hdriver ▸ h.range) (fun c hc _ => ?_) (fun _ _ => by rw [hdriver]), h.toHanded.congr ?_⟩
  · exact (hf c hc hb).congr hepoch hcounting fun m => by rw [hcurrent]
  · obtain ⟨he, hsame⟩ := hcount c hc
    rw [hdriver, he, hsame]
  · rw [papers, hcalls]
    exact map_modify_of_eq s.calls n fun c => (hpapers c).2

theorem quiet (h : Balance s) (hcalls : s'.calls = s.calls) (hepoch : s'.epoch = s.epoch)
    (hcurrent : s'.current = s.current) (hactive : s'.driver.active = s.driver.active)
    (hcounting : Counting s' → Counting s) : Balance s' where
  booked k d hd := (h.booked k d (hcalls ▸ hd)).congr hepoch hcounting fun m => by rw [hcurrent]
  toHanded := h.toHanded.congr (by rw [papers, papers, hcalls])
  seats m k hk := by
    rw [hcalls]
    exact h.seats m k (hcurrent ▸ hk)
  range := hactive ▸ h.range
  count hc := by
    rw [hactive, hcalls, hepoch]
    exact h.count (hcounting hc)

end Balance

/-! ## Steps of the driver -/

theorem mem_set_of_ne {l : List DriverPc} {i : ℕ} {pc pc' : DriverPc} (hi : l[i]? = some pc) {d : DriverPc}
    (hne : d ≠ pc) (hd : d ∈ l) : d ∈ l.set i pc' := by
  obtain ⟨j, hj⟩ := List.mem_iff_getElem?.mp hd
  have hij : i ≠ j := by
    rintro rfl
    rw [hi] at hj
    exact hne (Option.some.inj hj).symm
  apply List.mem_of_getElem? (i := j)
  simpa [hij] using hj

theorem driver_step_cases (d : ActivationDriver) (i : ℕ) :
    (d.calls[i]? = some .storeActive ∧ (d.step i).active = 0) ∨
      (d.calls[i]? ≠ some .storeActive ∧ (d.step i).active = d.active ∧
        (d.step i).serverMode = d.serverMode ∧
        (DriverPc.storeActive ∈ d.calls → DriverPc.storeActive ∈ (d.step i).calls)) := by
  unfold ActivationDriver.step
  split
  · next hi => exact .inl ⟨hi, rfl⟩
  · next hi =>
    refine .inr ⟨by simp [hi], ?_⟩
    split
    · exact ⟨rfl, rfl, mem_set_of_ne hi (by simp)⟩
    · exact ⟨rfl, rfl, id⟩
  · next hi =>
    refine .inr ⟨by simp [hi], ?_⟩
    have released : DriverPc.storeActive ∈ d.calls → DriverPc.storeActive ∈ d.calls.set i .returned :=
      mem_set_of_ne hi (by simp)
    split
    · next k pc hr =>
      split
      · cases pc with
        | mode | foreground | active => exact ⟨rfl, rfl, id⟩
        | push w => exact ⟨rfl, rfl, released⟩
        | swap w =>
          simp only [ActivationDriver.reconcile]
          split
          · exact ⟨rfl, rfl, released⟩
          · exact ⟨rfl, rfl, id⟩
      · exact ⟨rfl, rfl, id⟩
    · exact ⟨rfl, rfl, id⟩
  · next hi => exact .inr ⟨by simp [hi], rfl, rfl, id⟩
  · next hi => exact .inr ⟨by simp [hi], rfl, rfl, id⟩

namespace Balance

theorem driverStep (h : Balance s) (i : ℕ) : Balance (s.driverStep i) := by
  obtain ⟨hi, hactive⟩ | ⟨hi, hactive, hmode, hmem⟩ := driver_step_cases s.driver i
  · -- A new epoch: no call belongs to it.
    have hepoch : (s.driverStep i).epoch = s.epoch + 1 := by simp [ClientManagers.driverStep, hi]
    refine ⟨⟨fun k d hd => ?_, h.seats, ?_, fun _ => ?_⟩, h.toHanded.congr rfl⟩
    · have hb := h.booked k d hd
      have hlt := hb.epoch
      exact ⟨by omega, hb.phase, hb.seat, hb.shut, hb.dropped, fun _ he => by omega⟩
    · rw [ClientManagers.driverStep, hactive]
      decide
    · have hnone : (s.calls.countP fun c => c.epoch = s.epoch + 1 && c.Counted) = 0 := by
        refine List.countP_eq_zero.mpr fun c hc => ?_
        obtain ⟨k, hk⟩ := List.mem_iff_getElem?.mp hc
        have hlt := (h.booked k c hk).epoch
        have hne : c.epoch ≠ s.epoch + 1 := by omega
        simp [hne]
      rw [hepoch]
      show (s.driver.step i).active = (s.calls.countP _ : ℕ)
      rw [hactive, hnone]
      rfl
  · refine h.quiet rfl ?_ rfl hactive fun hc => hc.mono hmode hmem
    simp [ClientManagers.driverStep, hi]

theorem setMode (h : Balance s) (mode : Mode) :
    Balance { s with driver := s.driver.setMode mode } := by
  have hnot : ¬ Counting { s with driver := s.driver.setMode mode } :=
    fun hc => hc.2 (by simp [ActivationDriver.setMode, ActivationDriver.enter])
  exact h.quiet rfl rfl rfl rfl fun hc => absurd hc hnot

theorem setForeground (h : Balance s) (fg : Bool) :
    Balance { s with driver := s.driver.setForeground fg } := by
  unfold ActivationDriver.setForeground
  split
  · exact h
  · exact h.quiet rfl rfl rfl rfl fun hc => hc

theorem task (h : Balance s) : Balance { s with driver := s.driver.taskStep } := by
  unfold ActivationDriver.taskStep
  split
  · split
    · exact h.quiet rfl rfl rfl rfl fun hc => hc
    · exact h
  · exact h.quiet rfl rfl rfl rfl fun hc => hc
  · exact h.quiet rfl rfl rfl rfl fun hc =>
      hc.mono rfl fun hmem => List.mem_append_left _ hmem
  · split
    · exact h.quiet rfl rfl rfl rfl fun hc => hc
    · exact h

end Balance

/-! ## Tunnels and `place_call` -/

namespace Balance

theorem connected (h : Balance s) (n : ℕ) :
    Balance (s.modify n fun c => { c with events := c.events ++ [.connected] }) :=
  h.keep rfl rfl rfl rfl (fun _ => ⟨rfl, rfl⟩) (fun _ _ hb => hb.events (List.mem_append_left _)) fun _ _ => ⟨rfl, rfl⟩

theorem disconnect (h : Balance s) (n : ℕ) : Balance (s.modify n fun c => c.teardown) := by
  refine h.keep rfl rfl rfl rfl (fun c => ?_) (fun _ _ hb => hb.teardown) fun c _ => ?_
  · obtain ⟨events, hdown, -⟩ := c.teardown_eq
    rw [hdown]
    exact ⟨rfl, rfl⟩
  · obtain ⟨events, hdown, -⟩ := c.teardown_eq
    rw [hdown]
    exact ⟨rfl, rfl⟩

theorem close (h : Balance s) (n : ℕ) : Balance (s.modify n fun c => { c with closed := true }) :=
  h.keep rfl rfl rfl rfl (fun _ => ⟨rfl, rfl⟩) (fun _ _ hb => hb.events id) fun _ _ => ⟨rfl, rfl⟩

theorem drop (h : Balance s) (n : ℕ) : Balance (s.drop n) := by
  refine h.keep rfl rfl rfl rfl (fun c => ?_) (fun c hc hb => ?_) fun c _ => ?_
  · obtain ⟨events, hdown, -⟩ := c.teardown_eq
    rw [hdown]
    split <;> exact ⟨rfl, rfl⟩
  · split
    · next hfree =>
      obtain ⟨hpc, hcurrent, hshut, -⟩ := hfree
      have hb' := hb.teardown
      obtain ⟨events, hdown, -⟩ := c.teardown_eq
      rw [hdown] at hb' ⊢
      exact ⟨hb'.epoch, hb'.phase, hb'.seat, hb'.shut,
        fun _ => ⟨fun hseated => hcurrent (hb.seat.mpr hseated), hpc, hshut⟩, hb'.told⟩
    · exact hb
  · obtain ⟨events, hdown, -⟩ := c.teardown_eq
    rw [hdown]
    split <;> exact ⟨rfl, rfl⟩

theorem placeCall (h : Balance s) (manager : ℕ) (peer : ℤ) : Balance (s.placeCall manager peer) where
  booked k d hd := by
    obtain hd | ⟨hk, rfl⟩ := getElem?_concat_eq_some hd
    · exact (h.booked k d hd).congr rfl (fun hc => hc) fun m => Iff.rfl
    · refine ⟨le_refl _, ⟨by simp, rfl, rfl, fun _ => rfl⟩, ?_, by simp, by simp, by simp [ClientCall.Entering]⟩
      have hfree : s.current manager ≠ some k := by
        intro hcur
        obtain ⟨c, hc, -⟩ := h.seats manager k hcur
        have hlt := (List.getElem?_eq_some_iff.mp hc).1
        omega
      simpa [ClientCall.Seated, ClientManagers.placeCall] using hfree
  pending k d hd hev := by
    obtain hd | ⟨-, rfl⟩ := getElem?_concat_eq_some hd
    · obtain hshut | ⟨j, e, he, hpc⟩ := h.pending k d hd hev
      · exact .inl hshut
      · exact .inr ⟨j, e, getElem?_concat_of_eq_some he _, hpc⟩
    · cases hev
  heir k d n hd hpc := by
    obtain hd | ⟨-, rfl⟩ := getElem?_concat_eq_some hd
    · obtain ⟨c, hc, hev⟩ := h.heir k d n hd hpc
      exact ⟨c, getElem?_concat_of_eq_some hc _, hev⟩
    · cases hpc
  seats m k hk := by
    obtain ⟨c, hc, hm⟩ := h.seats m k hk
    exact ⟨c, getElem?_concat_of_eq_some hc _, hm⟩
  range := h.range
  count hc := by
    have hnew : ({ manager, peer, epoch := s.epoch : ClientCall }).Counted = false := rfl
    rw [ClientManagers.placeCall, List.countP_append, List.countP_singleton, hnew]
    simpa using h.count hc

end Balance

theorem Ledger.shut (h : Ledger s) {k : ℕ} {d : ClientCall} (hd : s.calls[k]? = some d)
    (hev : d.evicted = true) (hfine : Counting s → d.epoch = s.epoch → ¬ d.Stranded) : Ledger (s.shut k) := by
  obtain ⟨events, hdown, hsub, hopen⟩ := d.teardown_eq
  have hshut : (s.shut k).calls = s.calls.modify k fun c => { c.teardown with shut := true } := rfl
  refine h.modify hshut rfl (fun hc => hc) (fun _ _ => id) (fun _ _ _ => id) (fun c => by simp)
    (fun c hc hb => ?_) h.range (fun c hc _ => ?_) fun _ _ => rfl
  · obtain rfl : d = c := Option.some.inj (hd.symm.trans hc)
    have hb' := hb.teardown
    rw [hdown] at hb' ⊢
    refine ⟨hb'.epoch, hb'.phase, hb'.seat, fun _ => hev, fun hdr => ?_, fun hcount he hin _ => ?_⟩
    · obtain ⟨hseat, hpc, -⟩ := hb'.dropped hdr
      exact ⟨hseat, hpc, fun _ => rfl⟩
    · -- It has left an event, or leaves one now.
      by_cases hmem : TunnelEvent.disconnected ∈ d.events
      · exact hsub hmem
      · refine hopen ?_
        rw [← Bool.not_eq_true]
        exact fun hclosed => hfine hcount he ⟨hin, hclosed, hmem⟩
  · obtain rfl : d = c := Option.some.inj (hd.symm.trans hc)
    rw [hdown]
    rfl

theorem Ledger.evict (h : Ledger s) {m k : ℕ} (hk : s.current m = some k) : Ledger (s.evict m none) := by
  have hcalls : (s.evict m none).calls = s.calls.modify k fun c => { c with evicted := true } := by
    simp [ClientManagers.evict, hk, ClientManagers.modify]
  have hcurrent : (s.evict m none).current = Function.update s.current m none := by
    simp [ClientManagers.evict, hk, ClientManagers.modify]
  have hdriver : (s.evict m none).driver = s.driver := by
    simp [ClientManagers.evict, hk, ClientManagers.modify]
  have hepoch : (s.evict m none).epoch = s.epoch := by
    simp [ClientManagers.evict, hk, ClientManagers.modify]
  obtain ⟨d, hd, hm⟩ := h.seats m k hk
  refine h.modify hcalls hepoch (fun hc => ?_) (fun j i hj => ?_) (fun j i hi hj => ?_) (fun c => rfl)
    (fun c hc hb => ?_) (hdriver ▸ h.range) (fun c hc _ => ?_) fun _ _ => by rw [hdriver]
  · exact hc.mono (by rw [hdriver]) (by simp [hdriver])
  · rw [hcurrent] at hj
    by_cases hjm : j = m
    · simp [hjm] at hj
    · rwa [Function.update_of_ne hjm] at hj
  · have hjm : j ≠ m := by
      rintro rfl
      exact hi (Option.some.inj (hj.symm.trans hk))
    rwa [hcurrent, Function.update_of_ne hjm]
  · obtain rfl : d = c := Option.some.inj (hd.symm.trans hc)
    have hseated : d.Seated := hb.seat.mp (hm.symm ▸ hk)
    have hphase : ClientCall.Phase { d with evicted := true } := hb.phase.evicted hseated.1
    have hdropped : d.dropped = false := by
      rw [← Bool.not_eq_true]
      exact fun hdr => (hb.dropped hdr).1 hseated
    refine ⟨hepoch ▸ hb.epoch, hphase, ?_, fun _ => rfl, fun hdr => ?_, fun hcount he hin hsh => ?_⟩
    · simp [ClientCall.Seated, hcurrent, hm]
    · rw [hdropped] at hdr
      cases hdr
    · have hev := hb.shut hsh
      rw [hseated.2.1] at hev
      cases hev
  · rw [hdriver]
    rfl

namespace Balance

theorem dropManager (h : Balance s) (m : ℕ) (hacc : Accounted s (.dropManager m)) :
    Balance (s.dropManager m) := by
  unfold ClientManagers.dropManager
  split
  · split
    · next k hk =>
      obtain ⟨d, hd, hm⟩ := h.seats m k hk
      have hcalls : (s.evict m none).calls = s.calls.modify k fun c => { c with evicted := true } := by
        simp [evict, hk, ClientManagers.modify]
      have hd' : (s.evict m none).calls[k]? = some { d with evicted := true } := by
        simp [hcalls, hd]
      have hcounting : Counting (s.evict m none) → Counting s := by
        simp [Counting, evict, hk, ClientManagers.modify]
      have hepoch : (s.evict m none).epoch = s.epoch := by simp [evict, hk, ClientManagers.modify]
      refine ⟨(h.toLedger.evict hk).shut hd' rfl fun hc he => ?_, ?_⟩
      · exact hacc (hcounting hc) k hk d hd (he.trans hepoch)
      · have hshut : ((s.evict m none).shut k).calls = s.calls.modify k fun c =>
            { ({ c with evicted := true } : ClientCall).teardown with shut := true } := by
          show (s.evict m none).calls.modify k _ = _
          rw [hcalls, List.modify_modify_eq]
          rfl
        refine h.toHanded.settle hshut fun c => ?_
        obtain ⟨events, hdown, -⟩ := ({ c with evicted := true } : ClientCall).teardown_eq
        rw [hdown]
        exact ⟨rfl, fun _ => rfl, rfl⟩
    · exact h
  · exact h

end Balance

/-! ### A new call in `current` -/

/-- What becomes of a call when the `n`-th takes its place in `current` of `m`. -/
def displaced (s : ClientManagers) (m n k : ℕ) (c : ClientCall) : ClientCall :=
  { c with
    superseded := c.superseded || (c.manager = m && c.pc ≠ .replace)
    evicted := c.evicted || s.current m = some k
    pc := if k = n then .supersede (s.current m) else c.pc }

theorem getElem?_replace (hc : s.calls[n]? = some c) (hpc : c.pc = .replace) (k : ℕ) :
    (s.place n).calls[k]? = (s.calls[k]?).map (displaced s c.manager n k) := by
  have hsup : ∀ a : ClientCall,
      (if a.manager = c.manager ∧ a.pc ≠ .replace then { a with superseded := true } else a) =
        { a with superseded := a.superseded || (a.manager = c.manager && a.pc ≠ .replace) } := by
    intro a
    split
    · next hold => simp [hold]
    · next hold =>
      have hfalse : (decide (a.manager = c.manager) && decide (a.pc ≠ .replace)) = false := by
        simpa using hold
      rw [hfalse, Bool.or_false]
  simp only [ClientManagers.place, hc, hpc, evict, supersede, hsup]
  cases hcur : s.current c.manager with
  | none =>
    simp only [ClientManagers.modify, List.getElem?_modify, List.getElem?_map]
    cases s.calls[k]? with
    | none => simp
    | some a =>
      by_cases hk : n = k
      · simp [displaced, hcur, hk]
      · simp [displaced, hcur, hk, Ne.symm hk]
  | some old =>
    simp only [ClientManagers.modify, List.getElem?_modify, List.getElem?_map]
    cases s.calls[k]? with
    | none => simp
    | some a =>
      by_cases hk : n = k
      · by_cases ho : old = k <;> simp [displaced, hcur, hk, ho]
      · by_cases ho : old = k <;> simp [displaced, hcur, hk, Ne.symm hk, ho]

section Replace

variable (hc : s.calls[n]? = some c) (hpc : c.pc = .replace)
include hc hpc

theorem current_replace : (s.place n).current = Function.update s.current c.manager (some n) := by
  simp only [ClientManagers.place, hc, hpc, evict]
  split <;> rfl

theorem driver_replace : (s.place n).driver = s.driver := by
  simp only [ClientManagers.place, hc, hpc, evict]
  split <;> rfl

theorem epoch_replace : (s.place n).epoch = s.epoch := by
  simp only [ClientManagers.place, hc, hpc, evict]
  split <;> rfl

theorem counting_of_replace (hcount : Counting (s.place n)) : Counting s :=
  hcount.mono (by rw [driver_replace hc hpc]) (by simp [driver_replace hc hpc])

theorem exists_of_replace {k : ℕ} {b : ClientCall} (hb : (s.place n).calls[k]? = some b) :
    ∃ a, s.calls[k]? = some a ∧ b = displaced s c.manager n k a := by
  rw [getElem?_replace hc hpc] at hb
  obtain ⟨a, ha, rfl⟩ := Option.map_eq_some_iff.mp hb
  exact ⟨a, ha, rfl⟩

/-- The call that takes the seat. -/
theorem Booked.newcomer (h : Booked s n c) : Booked (s.place n) n (displaced s c.manager n n c) := by
  have hfree : s.current c.manager ≠ some n := fun hcur => (h.seat.mp hcur).1 hpc
  obtain ⟨hw, hent, hend, hev⟩ := h.phase.unspawned (by simp [hpc])
  have hnot : (displaced s c.manager n n c).shut = true → False := by
    intro hsh
    have hcev := h.shut hsh
    rw [hev hpc] at hcev
    cases hcev
  refine ⟨epoch_replace hc hpc ▸ h.epoch, ?_, ?_, fun hsh => (hnot hsh).elim, fun hdr => ?_,
    fun _ _ _ hsh => (hnot hsh).elim⟩
  · simp [ClientCall.Phase, displaced, hw, hent, hend]
  · simp [ClientCall.Seated, displaced, current_replace hc hpc, hw, hfree, hev hpc]
  · have hreturned := (h.dropped hdr).2.1
    rw [hpc] at hreturned
    cases hreturned

/-- The call that was in the seat. -/
theorem Booked.unseated {k : ℕ} {a : ClientCall} (h : Booked s k a) (hkn : k ≠ n)
    (hm : a.manager = c.manager) (hk : s.current c.manager = some k) :
    Booked (s.place n) k (displaced s c.manager n k a) := by
  have hseated : a.Seated := h.seat.mp (hm.symm ▸ hk)
  have hphase := h.phase.evicted hseated.1
  refine ⟨epoch_replace hc hpc ▸ h.epoch, ?_, ?_, fun _ => by simp [displaced, hk],
    fun hdr => absurd hseated (h.dropped hdr).1,
    fun hco he => h.told (counting_of_replace hc hpc hco) (epoch_replace hc hpc ▸ he)⟩
  · simpa [displaced, hk, hkn, ClientCall.Phase] using hphase
  · simp [ClientCall.Seated, displaced, hk, current_replace hc hpc, hm, Ne.symm hkn]

theorem Booked.bystander {k : ℕ} {a : ClientCall} (h : Booked s k a) (hkn : k ≠ n)
    (hk : s.current c.manager ≠ some k) : Booked (s.place n) k (displaced s c.manager n k a) := by
  have hpck : (displaced s c.manager n k a).pc = a.pc := if_neg hkn
  have hsame : (displaced s c.manager n k a).evicted = a.evicted := by simp [displaced, hk]
  have hseated : (displaced s c.manager n k a).Seated ↔ a.Seated := by
    simp [ClientCall.Seated, displaced, hk, hkn]
  refine ⟨epoch_replace hc hpc ▸ h.epoch, ?_, ?_, fun hsh => hsame.trans (h.shut hsh), fun hdr => ?_,
    fun hco he => h.told (counting_of_replace hc hpc hco) (epoch_replace hc hpc ▸ he)⟩
  · simpa [displaced, hk, hkn, ClientCall.Phase] using h.phase
  · rw [hseated, ← h.seat, current_replace hc hpc]
    show Function.update s.current c.manager (some n) a.manager = some k ↔ _
    by_cases hm : a.manager = c.manager
    · simp [hm, hk, Ne.symm hkn]
    · rw [Function.update_of_ne hm]
  · obtain ⟨hns, hreturned, hsh⟩ := h.dropped hdr
    exact ⟨fun hse => hns (hseated.mp hse), hpck.trans hreturned, fun hev => hsh (hsame ▸ hev)⟩

theorem Ledger.replace (h : Ledger s) : Ledger (s.place n) where
  booked k b hb := by
    obtain ⟨a, ha, rfl⟩ := exists_of_replace hc hpc hb
    have hab := h.booked k a ha
    by_cases hkn : k = n
    · subst hkn
      obtain rfl : c = a := Option.some.inj (hc.symm.trans ha)
      exact hab.newcomer hc hpc
    · by_cases hk : s.current c.manager = some k
      · obtain ⟨d, hd, hm⟩ := h.seats c.manager k hk
        obtain rfl : a = d := Option.some.inj (ha.symm.trans hd)
        exact hab.unseated hc hpc hkn hm hk
      · exact hab.bystander hc hpc hkn hk
  seats m k hk := by
    rw [current_replace hc hpc] at hk
    by_cases hm : m = c.manager
    · subst hm
      rw [Function.update_self] at hk
      obtain rfl := Option.some.inj hk
      exact ⟨displaced s c.manager n n c, by rw [getElem?_replace hc hpc, hc]; rfl, rfl⟩
    · rw [Function.update_of_ne hm] at hk
      obtain ⟨d, hd, hdm⟩ := h.seats m k hk
      exact ⟨displaced s c.manager n k d, by rw [getElem?_replace hc hpc, hd]; rfl, hdm⟩
  range := by
    rw [driver_replace hc hpc]
    exact h.range
  count hcount := by
    rw [driver_replace hc hpc, epoch_replace hc hpc,
      countP_of_getElem?_map (getElem?_replace hc hpc) fun k a => rfl]
    exact h.count (counting_of_replace hc hpc hcount)

theorem Handed.replace (h : Handed s) (hseats : ∀ i, s.current c.manager = some i → ∃ d, s.calls[i]? = some d) :
    Handed (s.place n) where
  pending k b hb hev := by
    obtain ⟨a, ha, rfl⟩ := exists_of_replace hc hpc hb
    by_cases hk : s.current c.manager = some k
    · exact .inr ⟨n, displaced s c.manager n n c, by rw [getElem?_replace hc hpc, hc]; rfl, by simp [displaced, hk]⟩
    · have haev : a.evicted = true := by simpa [displaced, hk] using hev
      obtain hsh | ⟨j, d, hd, hdpc⟩ := h.pending k a ha haev
      · exact .inl hsh
      · refine .inr ⟨j, displaced s c.manager n j d, by rw [getElem?_replace hc hpc, hd]; rfl, ?_⟩
        have hjn : j ≠ n := by
          rintro rfl
          obtain rfl : c = d := Option.some.inj (hc.symm.trans hd)
          rw [hpc] at hdpc
          cases hdpc
        exact (if_neg hjn).trans hdpc
  heir k b i hb hbpc := by
    obtain ⟨a, ha, rfl⟩ := exists_of_replace hc hpc hb
    by_cases hkn : k = n
    · have hold : s.current c.manager = some i := by
        simpa [displaced, hkn] using hbpc
      obtain ⟨d, hd⟩ := hseats i hold
      exact ⟨displaced s c.manager n i d, by rw [getElem?_replace hc hpc, hd]; rfl, by simp [displaced, hold]⟩
    · have hapc : a.pc = .supersede (some i) := by simpa [displaced, hkn] using hbpc
      obtain ⟨d, hd, hdev⟩ := h.heir k a i ha hapc
      exact ⟨displaced s c.manager n i d, by rw [getElem?_replace hc hpc, hd]; rfl, by simp [displaced, hdev]⟩

end Replace

namespace Balance

theorem replace (h : Balance s) (hc : s.calls[n]? = some c) (hpc : c.pc = .replace) : Balance (s.place n) := by
  refine ⟨h.toLedger.replace hc hpc, h.toHanded.replace hc hpc fun i hi => ?_⟩
  obtain ⟨d, hd, -⟩ := h.seats c.manager i hi
  exact ⟨d, hd⟩

theorem disconnected (h : Balance s) (hc : s.calls[n]? = some c) {old : Option ℕ}
    (hpc : c.pc = .supersede old) (hold : ∀ i ∈ old, ∀ d ∈ s.calls[i]?, d.shut = true) :
    Balance (s.modify n fun d => { d with pc := .watch }) := by
  have hb := h.booked n c hc
  obtain ⟨hw, hent, hend, -⟩ := hb.phase.unspawned (by simp [hpc])
  refine ⟨h.modify rfl rfl (fun hc => hc) (fun _ _ => id) (fun _ _ _ => id) (fun _ => rfl) (fun d hd _ => ?_)
    h.range (fun d hd _ => rfl) fun _ _ => rfl, h.toHanded.advance hc rfl (fun i hi => ?_) fun d => ?_⟩
  · obtain rfl : c = d := Option.some.inj (hc.symm.trans hd)
    refine ⟨hb.epoch, ?_, ?_, hb.shut, fun hdr => ?_, hb.told⟩
    · simp [ClientCall.Phase, hw, hent, hend]
    · have hseat := hb.seat
      simpa [ClientCall.Seated, hpc, hw] using hseat
    · have hreturned := (hb.dropped hdr).2.1
      rw [hpc] at hreturned
      cases hreturned
  · rw [hpc] at hi
    exact hold i (ClientCallPc.supersede.inj hi)
  · exact ⟨rfl, rfl, by simp⟩

theorem place (h : Balance s) (hacc : Accounted s (.place n)) : Balance (s.place n) := by
  unfold ClientManagers.place
  split
  · next c hc =>
    split
    · next hpc =>
      have hreplace := h.replace hc hpc
      simpa only [ClientManagers.place, hc, hpc] using hreplace
    · next old hpc =>
      cases old with
      | none => exact h.disconnected hc hpc (by simp)
      | some k =>
        obtain ⟨d, hd, hev⟩ := h.heir n c k hc hpc
        have hk : k ∈ List.range s.calls.length := List.mem_range.mpr (List.getElem?_eq_some_iff.mp hd).1
        have hshut : Balance (s.shut k) := by
          refine ⟨h.toLedger.shut hd hev fun hcount he => hacc hcount c hc k hk hpc d hd he,
            h.toHanded.settle rfl fun a => ?_⟩
          obtain ⟨events, hdown, -⟩ := a.teardown_eq
          rw [hdown]
          exact ⟨rfl, id, rfl⟩
        have hget := getElem?_modify_of_eq_some hc k fun c => { c.teardown with shut := true }
        have hpck : (if k = n then { c.teardown with shut := true } else c).pc = .supersede (some k) := by
          split
          · simpa using hpc
          · exact hpc
        refine hshut.disconnected hget hpck fun i hi e he => ?_
        obtain rfl := Option.some.inj hi
        obtain ⟨a, -, rfl⟩ := getElem?_modify_eq_some he
        simp
    · next hpc =>
      have hb := h.booked n c hc
      obtain ⟨hw, hent, hend, -⟩ := hb.phase.unspawned (by simp [hpc])
      refine ⟨h.modify rfl rfl (fun hc => hc) (fun _ _ => id) (fun _ _ _ => id) (fun _ => rfl)
        (fun d hd _ => ?_) h.range (fun d hd _ => ?_) fun _ _ => rfl,
        h.toHanded.advance hc rfl (by simp [hpc]) fun d => ⟨rfl, rfl, by simp⟩⟩
      · obtain rfl : c = d := Option.some.inj (hc.symm.trans hd)
        refine ⟨hb.epoch, ?_, ?_, hb.shut, fun hdr => ?_, fun _ _ hin => ?_⟩
        · simp [ClientCall.Phase, hend]
        · have hseat := hb.seat
          simpa [ClientCall.Seated, hpc, hw] using hseat
        · have hreturned := (hb.dropped hdr).2.1
          rw [hpc] at hreturned
          cases hreturned
        · simp [ClientCall.Entering, hent] at hin
      · obtain rfl : c = d := Option.some.inj (hc.symm.trans hd)
        simp [ClientCall.Counted, hw, hent]
    · exact h
  · exact h

/-! ## The watcher -/

theorem goOn (h : Balance s) (hc : s.calls[n]? = some c) {f : ClientCall → ClientCall}
    (hcalls : s'.calls = s.calls.modify n f) (hepoch : s'.epoch = s.epoch) (hdriver : s'.driver = s.driver)
    (hcurrent : s'.current = s.current)
    (hpapers : ∀ c, (f c).manager = c.manager ∧
      ((f c).pc, (f c).evicted, (f c).shut) = (c.pc, c.evicted, c.shut))
    (hf : Booked s n (f c)) (hcount : (f c).epoch = c.epoch ∧ (f c).Counted = c.Counted) : Balance s' := by
  refine h.keep hcalls hepoch hdriver hcurrent hpapers (fun d hd _ => ?_) fun d hd => ?_
  · obtain rfl : c = d := Option.some.inj (hc.symm.trans hd)
    exact hf
  · obtain rfl : c = d := Option.some.inj (hc.symm.trans hd)
    exact hcount

theorem finish (h : Balance s) (hc : s.calls[n]? = some c) (hb : Booked s n (c.goTo .finished))
    (hout : Counting s → c.epoch = s.epoch → c.Counted = true → False) : Balance (s.go n .finished) := by
  refine ⟨h.modify rfl rfl (fun hc => hc) (fun _ _ => id) (fun _ _ _ => id) (fun _ => rfl)
    (fun d hd _ => ?_) h.range (fun d hd hcount => ?_) fun _ _ => rfl, h.toHanded.congr ?_⟩
  · obtain rfl : c = d := Option.some.inj (hc.symm.trans hd)
    exact hb.congr rfl (fun hc => hc) fun _ => Iff.rfl
  · obtain rfl : c = d := Option.some.inj (hc.symm.trans hd)
    have hbefore : (decide (c.epoch = s.epoch) && c.Counted) = false := by
      rw [← Bool.not_eq_true]
      intro hin
      simp only [Bool.and_eq_true, decide_eq_true_eq] at hin
      exact hout hcount hin.1 hin.2
    have hafter : (decide ((c.goTo .finished).epoch = s.epoch) && (c.goTo .finished).Counted) = false :=
      Bool.and_false _
    rw [hbefore, hafter]
    rfl
  · exact map_modify_of_eq s.calls n fun _ => rfl

theorem recv (h : Balance s) (hc : s.calls[n]? = some c) (hw : c.watcher = .recv) : Balance (s.recv n c) := by
  have hb := h.booked n c hc
  obtain ⟨hpc, hend⟩ : c.pc = .returned ∧ c.ended = false := by
    have hphase := hb.phase
    simpa [ClientCall.Phase, hw] using hphase
  have hseat := hb.seat
  simp only [ClientCall.Seated, hw, and_true] at hseat
  have hdropped := hb.dropped
  simp only [ClientCall.Seated, hw, and_true] at hdropped
  have htold := hb.told
  simp only [ClientCall.Entering, hw] at htold
  unfold ClientManagers.recv
  split
  · next events hev =>
    have hrest : TunnelEvent.disconnected ∈ c.events → TunnelEvent.disconnected ∈ events := by
      rw [hev]
      simp
    split
    · exact h.goOn hc rfl rfl rfl rfl (fun _ => ⟨rfl, rfl⟩) (hb.events hrest) ⟨rfl, rfl⟩
    · next hent =>
      refine h.goOn hc rfl rfl rfl rfl (fun _ => ⟨rfl, rfl⟩) ⟨hb.epoch, ?_, ?_, hb.shut, ?_, ?_⟩ ⟨rfl, ?_⟩
      · simp [ClientCall.Phase, hpc, hend]
      · simpa [ClientCall.Seated] using hseat
      · simpa [ClientCall.Seated] using hdropped
      · simp [ClientCall.Entering]
      · simpa [ClientCall.Counted, hw] using Eq.symm (Bool.eq_false_iff.mpr hent)
  · next events hev =>
    refine h.goOn hc rfl rfl rfl rfl (fun _ => ⟨rfl, rfl⟩) ⟨hb.epoch, ?_, ?_, hb.shut, ?_, ?_⟩ ⟨rfl, ?_⟩
    · simp [ClientCall.Phase, hpc]
    · simpa [ClientCall.Seated] using hseat
    · simpa [ClientCall.Seated] using hdropped
    · simp [ClientCall.Entering]
    · simp [ClientCall.Counted, hw]
  · next hev =>
    split
    · next hdr =>
      -- The tunnel was taken out of `current`, and if it counts it has left its event.
      obtain ⟨hns, -, hsh⟩ := hdropped hdr
      have hevicted : c.evicted = true := by simpa [hpc] using hns
      refine h.finish hc (hb.goTo ?_ ?_ (by simp [ClientCall.Entering, ClientCall.goTo])) fun hcount he hin => ?_
      · simp [ClientCall.Phase, ClientCall.goTo, hpc, hevicted]
      · simp [ClientCall.Seated, ClientCall.goTo, hevicted]
      · simp only [ClientCall.Counted, hw] at hin
        have hmem := htold hcount he hin (hsh hevicted)
        simp [hev] at hmem
    · exact h

theorem bump (h : Balance s) (hc : s.calls[n]? = some c) (delta : ℤ) {pc : WatcherPc}
    (hb : Booked s n (c.goTo pc))
    (hcount : Counting s → ActivationDriver.bumped s.driver.active delta +
        ((if c.epoch = s.epoch && c.Counted then 1 else 0 : ℕ) : ℤ) =
      s.driver.active + ((if c.epoch = s.epoch && (c.goTo pc).Counted then 1 else 0 : ℕ) : ℤ)) :
    Balance ({ s with driver := s.driver.bumpSession delta }.go n pc) := by
  have hcounting : Counting ({ s with driver := s.driver.bumpSession delta }.go n pc) → Counting s :=
    fun hc => hc.mono rfl fun hmem => List.mem_append_left _ hmem
  refine ⟨h.modify rfl rfl hcounting (fun _ _ => id) (fun _ _ _ => id) (fun _ => rfl) (fun d hd _ => ?_)
    (ActivationDriver.bumped_range _ _) (fun d hd hco => ?_) (fun hn => ?_), h.toHanded.congr ?_⟩
  · obtain rfl : c = d := Option.some.inj (hc.symm.trans hd)
    exact hb.congr rfl hcounting fun _ => Iff.rfl
  · obtain rfl : c = d := Option.some.inj (hc.symm.trans hd)
    exact hcount (hcounting hco)
  · rw [hc] at hn
    cases hn
  · exact map_modify_of_eq s.calls n fun _ => rfl

/-- The watcher goes to its next point, and nothing else changes that the count depends on. -/
theorem proceed (h : Balance s) (hc : s.calls[n]? = some c) {pc : WatcherPc} (hcalls : s'.calls = s.calls)
    (hepoch : s'.epoch = s.epoch) (hdriver : s'.driver = s.driver) (hcurrent : s'.current = s.current)
    (hphase : (c.goTo pc).Phase) (hseated : (c.goTo pc).Seated ↔ c.Seated)
    (hin : (c.goTo pc).Entering = true → c.Entering = true) (hcount : (c.goTo pc).Counted = c.Counted) :
    Balance (s'.go n pc) := by
  have hmod : (s'.go n pc).calls = s.calls.modify n fun c => c.goTo pc := by
    rw [← hcalls]
    rfl
  exact h.goOn hc hmod hepoch hdriver hcurrent (fun _ => ⟨rfl, rfl⟩)
    ((h.booked n c hc).goTo hphase hseated hin) ⟨rfl, hcount⟩

theorem watch_stillCurrent (h : Balance s) (hc : s.calls[n]? = some c) (hw : c.watcher = .stillCurrent) :
    Balance (s.watch n) := by
  have hb := h.booked n c hc
  have hphase := hb.phase
  simp only [ClientCall.Phase, hw] at hphase
  obtain ⟨hpc, hent, hend⟩ := hphase
  simp only [ClientManagers.watch, hc, hw]
  split
  · next hcur =>
    have hev := (hb.seat.mp hcur).2.1
    refine h.goOn hc rfl rfl rfl rfl (fun _ => ⟨rfl, rfl⟩) ⟨hb.epoch, ?_, ?_, hb.shut, fun hdr => ?_, ?_⟩
      ⟨rfl, ?_⟩
    · simp [ClientCall.Phase, ClientCall.goTo, hpc, hent, hend]
    · simpa [ClientCall.Seated, ClientCall.goTo, hw] using hb.seat
    · exact absurd (hb.seat.mp hcur) (hb.dropped hdr).1
    · intro _ _ _ hsh
      have hev' := hb.shut hsh
      rw [hev] at hev'
      cases hev'
    · simp [ClientCall.Counted, ClientCall.goTo, hw]
  · next hcur =>
    have hevicted : c.evicted = true := by
      have hns := mt hb.seat.mpr hcur
      simpa [ClientCall.Seated, hw, hpc] using hns
    obtain ⟨events, hdown, -⟩ := c.teardown_eq
    have hbooked : Booked s n (c.teardown.goTo .finished) := by
      refine hb.teardown.goTo ?_ ?_ (by simp [ClientCall.Entering, ClientCall.goTo])
      · rw [hdown]
        simp [ClientCall.Phase, ClientCall.goTo, hpc, hevicted]
      · rw [hdown]
        simp [ClientCall.Seated, ClientCall.goTo, hevicted]
    refine h.goOn hc rfl rfl rfl rfl (fun d => ?_) hbooked ?_
    · obtain ⟨_, hd, -⟩ := d.teardown_eq
      rw [hd]
      exact ⟨rfl, rfl⟩
    · rw [hdown]
      exact ⟨rfl, by simp [ClientCall.Counted, ClientCall.goTo, hw]⟩

theorem watch_bump (h : Balance s) (hc : s.calls[n]? = some c) (hacc : Accounted s (.watch n))
    (hw : c.watcher = .bump) : Balance (s.watch n) := by
  have hb := h.booked n c hc
  have hphase := hb.phase
  simp only [ClientCall.Phase, hw] at hphase
  simp only [ClientManagers.watch, hc, hw]
  refine h.bump hc 1 (hb.goTo ?_ ?_ ?_) fun hcount => ?_
  · simpa [ClientCall.Phase, ClientCall.goTo] using hphase
  · simp [ClientCall.Seated, ClientCall.goTo, hw]
  · simp [ClientCall.Entering, hw]
  · obtain ⟨he, hlt⟩ : c.epoch = s.epoch ∧ s.driver.active + 1 < 2 ^ 63 := by
      have hin := hacc hcount c hc
      rwa [hw] at hin
    rw [ActivationDriver.bumped_add_one h.range.1 hlt]
    simp [ClientCall.Counted, ClientCall.goTo, hw, he]

theorem watch_upgrade (h : Balance s) (hc : s.calls[n]? = some c) (hacc : Accounted s (.watch n)) {call : ℕ}
    (hw : c.watcher = .upgrade call) : Balance (s.watch n) := by
  have hb := h.booked n c hc
  have hphase := hb.phase
  simp only [ClientCall.Phase, hw] at hphase
  simp only [ClientManagers.watch, hc, hw]
  split
  · next hdone =>
    split
    · next hdr =>
      obtain ⟨hns, -⟩ := hb.dropped hdr
      have hevicted : c.evicted = true := by simpa [ClientCall.Seated, hw, hphase.1] using hns
      refine h.finish hc (hb.goTo ?_ ?_ (by simp [ClientCall.Entering, ClientCall.goTo]))
        fun hcount he _ => ?_
      · simp [ClientCall.Phase, ClientCall.goTo, hphase.1, hevicted]
      · simp [ClientCall.Seated, ClientCall.goTo, hevicted]
      · -- The condition: this is a tunnel of another epoch.
        have hin := hacc hcount c hc
        rw [hw] at hin
        exact hin hdone hdr he
    · refine h.proceed hc rfl rfl rfl rfl ?_ ?_ ?_ ?_
      · simpa [ClientCall.Phase, ClientCall.goTo] using hphase
      · simp [ClientCall.Seated, ClientCall.goTo, hw]
      · simp [ClientCall.Entering, hw]
      · simp [ClientCall.Counted, ClientCall.goTo, hw]
  · exact h

theorem watch_announce (h : Balance s) (hc : s.calls[n]? = some c) (hw : c.watcher = .announce) :
    Balance (s.watch n) := by
  have hphase := (h.booked n c hc).phase
  simp only [ClientCall.Phase, hw] at hphase
  simp only [ClientManagers.watch, hc, hw]
  refine h.proceed hc rfl rfl rfl rfl ?_ ?_ ?_ ?_
  · simp [ClientCall.Phase, ClientCall.goTo, hphase.1, hphase.2.2]
  · simp [ClientCall.Seated, ClientCall.goTo, hw]
  · simp [ClientCall.Entering, hw]
  · simp [ClientCall.Counted, ClientCall.goTo, hw, hphase.2.1]

theorem unseat (h : Balance s) (hc : s.calls[n]? = some c) (hw : c.watcher = .clear)
    (hcur : s.current c.manager = some n) :
    Balance ({ s with current := Function.update s.current c.manager none }.go n (.unbump true)) := by
  have hb := h.booked n c hc
  have hphase := hb.phase
  simp only [ClientCall.Phase, hw] at hphase
  refine ⟨h.modify rfl rfl (fun hc => hc) (fun m k hk => ?_) (fun m k hk hm => ?_) (fun _ => rfl)
    (fun d hd _ => ?_) h.range (fun d hd _ => ?_) fun _ _ => rfl, h.toHanded.congr ?_⟩
  · by_cases hm : m = c.manager
    · simp [go, hm] at hk
    · simpa [go, hm] using hk
  · have hne : m ≠ c.manager := by
      rintro rfl
      exact hk (Option.some.inj (hm.symm.trans hcur))
    simpa [go, hne] using hm
  · obtain rfl : c = d := Option.some.inj (hc.symm.trans hd)
    refine ⟨hb.epoch, ?_, ?_, hb.shut, fun hdr => ?_, ?_⟩
    · simpa [ClientCall.Phase, ClientCall.goTo] using hphase
    · simp [ClientCall.Seated, ClientCall.goTo, go]
    · exact absurd (hb.seat.mp hcur) (hb.dropped hdr).1
    · simp [ClientCall.Entering, ClientCall.goTo]
  · obtain rfl : c = d := Option.some.inj (hc.symm.trans hd)
    have hsame : (c.goTo (.unbump true)).Counted = c.Counted := by
      simp [ClientCall.Counted, ClientCall.goTo, hw]
    rw [hsame]
    rfl
  · exact map_modify_of_eq s.calls n fun _ => rfl

theorem watch_clear (h : Balance s) (hc : s.calls[n]? = some c) (hw : c.watcher = .clear) :
    Balance (s.watch n) := by
  have hb := h.booked n c hc
  have hphase := hb.phase
  simp only [ClientCall.Phase, hw] at hphase
  simp only [ClientManagers.watch, hc, hw]
  split
  · next hcur => exact h.unseat hc hw hcur
  · next hcur =>
    have hns := mt hb.seat.mpr hcur
    refine h.proceed hc rfl rfl rfl rfl ?_ ?_ ?_ ?_
    · simpa [ClientCall.Phase, ClientCall.goTo] using hphase
    · exact ⟨fun hs => hs.2.2.elim, fun hs => absurd hs hns⟩
    · simp [ClientCall.Entering, ClientCall.goTo]
    · simp [ClientCall.Counted, ClientCall.goTo, hw]

theorem watch_unbump (h : Balance s) (hc : s.calls[n]? = some c) (hacc : Accounted s (.watch n))
    {wasCurrent : Bool} (hw : c.watcher = .unbump wasCurrent) : Balance (s.watch n) := by
  have hb := h.booked n c hc
  have hphase := hb.phase
  simp only [ClientCall.Phase, hw] at hphase
  simp only [ClientManagers.watch, hc, hw]
  split
  · next hent =>
    refine h.bump hc (-1) (hb.goTo ?_ ?_ ?_) fun hcount => ?_
    · simpa [ClientCall.Phase, ClientCall.goTo] using hphase
    · simp [ClientCall.Seated, ClientCall.goTo, hw]
    · simp [ClientCall.Entering, ClientCall.goTo]
    · have hin := hacc hcount c hc
      rw [hw] at hin
      have hafter : (c.goTo (.unbumping wasCurrent s.driver.calls.length)).Counted = false := rfl
      have hbefore : c.Counted = true := by simp [ClientCall.Counted, hw, hent]
      rw [hafter, hbefore, Bool.and_true, Bool.and_false]
      by_cases he : c.epoch = s.epoch
      · have hpos : 0 < s.driver.active := by
          rw [h.count hcount]
          refine Int.natCast_pos.mpr (List.countP_pos_iff.mpr ⟨c, List.mem_of_getElem? hc, ?_⟩)
          simp [he, hbefore]
        rw [ActivationDriver.bumped_sub_one hpos h.range.2]
        simp [he]
      · -- The condition: a bump from another epoch finds 0, and is clamped.
        rw [(hin hent).resolve_left he]
        simp [he, ActivationDriver.bumped]
  · next hent =>
    refine h.proceed hc rfl rfl rfl rfl ?_ ?_ ?_ ?_
    · simpa [ClientCall.Phase, ClientCall.goTo] using hphase
    · simp [ClientCall.Seated, ClientCall.goTo, hw]
    · simp [ClientCall.Entering, ClientCall.goTo]
    · simp [ClientCall.Counted, ClientCall.goTo, hw, hent]

theorem watch_unbumping (h : Balance s) (hc : s.calls[n]? = some c) {wasCurrent : Bool} {call : ℕ}
    (hw : c.watcher = .unbumping wasCurrent call) : Balance (s.watch n) := by
  have hphase := (h.booked n c hc).phase
  simp only [ClientCall.Phase, hw] at hphase
  simp only [ClientManagers.watch, hc, hw]
  split
  · refine h.proceed hc rfl rfl rfl rfl ?_ ?_ ?_ ?_
    · simpa [ClientCall.Phase, ClientCall.goTo] using hphase
    · simp [ClientCall.Seated, ClientCall.goTo, hw]
    · simp [ClientCall.Entering, ClientCall.goTo]
    · simp [ClientCall.Counted, ClientCall.goTo, hw]
  · exact h

theorem watch_ending (h : Balance s) (hc : s.calls[n]? = some c) {wasCurrent : Bool}
    (hw : c.watcher = .ending wasCurrent) : Balance (s.watch n) := by
  have hphase := (h.booked n c hc).phase
  simp only [ClientCall.Phase, hw] at hphase
  simp only [ClientManagers.watch, hc, hw]
  refine h.proceed hc ?_ ?_ ?_ ?_ ?_ ?_ ?_ ?_
  · split <;> rfl
  · split <;> rfl
  · split <;> rfl
  · split <;> rfl
  · simp [ClientCall.Phase, ClientCall.goTo, hphase.1, hphase.2]
  · simp [ClientCall.Seated, ClientCall.goTo, hw]
  · simp [ClientCall.Entering, ClientCall.goTo]
  · simp [ClientCall.Counted, ClientCall.goTo, hw]

theorem watch (h : Balance s) (hacc : Accounted s (.watch n)) : Balance (s.watch n) := by
  cases hc : s.calls[n]? with
  | none => simpa only [ClientManagers.watch, hc] using h
  | some c =>
    cases hw : c.watcher with
    | unspawned => simpa only [ClientManagers.watch, hc, hw] using h
    | recv => simpa only [ClientManagers.watch, hc, hw] using h.recv hc hw
    | stillCurrent => exact h.watch_stillCurrent hc hw
    | bump => exact h.watch_bump hc hacc hw
    | upgrade call => exact h.watch_upgrade hc hacc hw
    | announce => exact h.watch_announce hc hw
    | clear => exact h.watch_clear hc hw
    | unbump wasCurrent => exact h.watch_unbump hc hacc hw
    | unbumping wasCurrent call => exact h.watch_unbumping hc hw
    | ending wasCurrent => exact h.watch_ending hc hw
    | finished => simpa only [ClientManagers.watch, hc, hw] using h

theorem move (h : Balance s) {m : ManagersMove} (hacc : Accounted s m) : Balance (s.move m) := by
  cases m with
  | setMode mode => exact h.setMode mode
  | setForeground fg => exact h.setForeground fg
  | driver i => exact h.driverStep i
  | task => exact h.task
  | placeCall manager peer => exact h.placeCall manager peer
  | place n => exact h.place hacc
  | dropManager m => exact h.dropManager m hacc
  | watch n => exact h.watch hacc
  | connected n => exact h.connected n
  | disconnect n => exact h.disconnect n
  | close n => exact h.close n
  | drop n => exact h.drop n

theorem run (fg : Bool) {ms : List ManagersMove} (hacc : Along ClientManagers.move Accounted (new fg) ms) :
    Balance ((new fg).run ms) := by
  refine hacc.invariant (fun _ _ hm h => h.move hm) ⟨⟨?_, ?_, ⟨le_refl 0, ?_⟩, fun _ => rfl⟩, ?_, ?_⟩
  · exact fun _ _ hc => by cases hc
  · exact fun _ _ hk => by cases hk
  · show (0 : ℤ) < 2 ^ 63
    decide
  · exact fun _ _ hc => by cases hc
  · exact fun _ _ _ hc => by cases hc

/-- When nothing is in progress, the calls that are counted are the live ones. -/
theorem counted_iff_live (h : Balance s) (hq : Quiescent s) (hcount : Counting s) (hc : c ∈ s.calls) :
    (c.epoch = s.epoch && c.Counted) = c.Live s.epoch := by
  obtain ⟨n, hn⟩ := List.mem_iff_getElem?.mp hc
  have hb := h.booked n c hn
  have hphase := hb.phase
  by_cases he : c.epoch = s.epoch
  · obtain hw | ⟨hw, hev, -⟩ := hq.watched c hc
    · simp only [ClientCall.Phase, hw] at hphase
      obtain hend | hevicted := hphase.2
      · simp [ClientCall.Counted, ClientCall.Live, hw, hend]
      · simp [ClientCall.Counted, ClientCall.Live, hw, hevicted]
    · simp only [ClientCall.Phase, hw] at hphase
      cases hent : c.entered with
      | false => simp [ClientCall.Counted, ClientCall.Live, hw, hent]
      | true =>
        -- It was not taken out: it would have been disconnected, and have left an event.
        have hnot : c.evicted = false := by
          rw [← Bool.not_eq_true]
          intro hevicted
          obtain hshut | ⟨k, d, hd, hpc⟩ := h.pending n c hn hevicted
          · have hmem := hb.told hcount he (by simp [ClientCall.Entering, hw, hent]) hshut
            simp [hev] at hmem
          · rw [hq.placed d (List.mem_of_getElem? hd)] at hpc
            cases hpc
        simp [ClientCall.Counted, ClientCall.Live, hw, hent, hphase.2, hnot, he]
  · simp [ClientCall.Live, he]

end Balance

theorem active_counts_live (fg : Bool) (ms : List ManagersMove) (hacc : Along move Accounted (new fg) ms)
    (hq : Quiescent ((new fg).run ms)) (hmode : ((new fg).run ms).driver.serverMode = false) :
    ((new fg).run ms).driver.active =
      ((new fg).run ms).calls.countP (ClientCall.Live ((new fg).run ms).epoch) := by
  have h := Balance.run fg hacc
  have hcount : Counting ((new fg).run ms) := by
    refine ⟨hmode, fun hmem => ?_⟩
    cases hq.driver.calls _ hmem
  rw [h.count hcount]
  exact congrArg Nat.cast (List.countP_congr fun c hc => by rw [h.counted_iff_live hq hcount hc])

/-- Call `n` is placed and comes up; its bump is call `k` of the driver. -/
def callUp (n k : ℕ) : List ManagersMove :=
  [ManagersMove.placeCall 0 7, .place n, .place n, .place n, .connected n, .watch n, .watch n, .watch n] ++
    List.replicate 6 (ManagersMove.driver k) ++ [ManagersMove.watch n, .watch n]

/-- A tunnel comes up, a redial takes its place, and its watcher hears of its end. -/
def redialed : List ManagersMove :=
  List.replicate 6 (ManagersMove.driver 0) ++ callUp 0 1 ++ callUp 1 2 ++
    [ManagersMove.watch 0, .watch 0, .watch 0] ++ List.replicate 6 (ManagersMove.driver 3) ++
    [ManagersMove.watch 0, .watch 0]

theorem active_counts_live_one :
    ((new true).run redialed).driver.active =
      ((new true).run redialed).calls.countP (ClientCall.Live ((new true).run redialed).epoch) :=
  active_counts_live true redialed (by decide +kernel)
    ⟨⟨by decide +kernel, by decide +kernel, by decide +kernel⟩, by decide +kernel, by decide +kernel⟩
    (by decide +kernel)

/-- A tunnel comes up, the mode is switched to and fro, another tunnel comes up, and the first one ends. -/
def staleDisconnected : List ManagersMove :=
  List.replicate 6 (ManagersMove.driver 0) ++ callUp 0 1 ++ [ManagersMove.setMode .server] ++
    List.replicate 7 (ManagersMove.driver 2) ++ [ManagersMove.setMode .client] ++
    List.replicate 7 (ManagersMove.driver 3) ++ [ManagersMove.dropManager 0] ++ callUp 1 4 ++
    [ManagersMove.watch 0, .watch 0, .watch 0] ++ List.replicate 6 (ManagersMove.driver 5) ++
    [ManagersMove.watch 0, .watch 0]

theorem active_not_counts_live :
    ¬ ∀ (fg : Bool) (ms : List ManagersMove), Quiescent ((new fg).run ms) →
      ((new fg).run ms).driver.serverMode = false →
      ((new fg).run ms).driver.active =
        ((new fg).run ms).calls.countP (ClientCall.Live ((new fg).run ms).epoch) := by
  intro h
  have hcount := h true staleDisconnected
    ⟨⟨by decide +kernel, by decide +kernel, by decide +kernel⟩, by decide +kernel, by decide +kernel⟩
    (by decide +kernel)
  exact absurd hcount (by decide +kernel)

end ClientManagers

end BaleVpn.Signaling
