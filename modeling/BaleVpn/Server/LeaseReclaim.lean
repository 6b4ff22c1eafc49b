import Mathlib.Data.List.Perm.Subperm
import BaleVpn.Server.Leases

/-!
# Leases that are not reclaimed (`server/tun_gateway.rs`)

The pool holds tunnels by `Weak`, so that a lease drains when its tunnel is dropped. `unregister` and the
read loop ask whether the tunnel of a slot is still there. `register` asks whether the slot is empty.
-/

namespace BaleVpn.Server.TunGateway

open Lib

/-- A call of `register` that is made, and returns `Err`: no slot is empty. -/
structure Exhausted (s : TunGateway) (t : ℕ) : Prop where
  unlocked : s.locked = none
  held : s.dropped t = false
  full : s.pool.findIdx? Option.isNone = none

/-- As many tunnels as there are leases hold one, and all of them are still there. -/
def HeldByLive (s : TunGateway) : Prop :=
  ∃ tunnels : List ℕ, tunnels.Nodup ∧ tunnels.length = POOL_SIZE ∧
    ∀ t ∈ tunnels, some t ∈ s.pool ∧ s.dropped t = false

/-- The move is no refused `register`, or the leases are held by live tunnels. -/
def RefusesRightly (s : TunGateway) : GatewayMove → Prop
  | .register t => Exhausted s t → HeldByLive s
  | _ => True

/-- A slot is lost to a tunnel that is not there any more, or that has another slot. -/
def Leaked (s : TunGateway) : Prop := (∃ t, some t ∈ s.pool ∧ s.dropped t = true) ∨ ¬ s.pool.Nodup

/-- The move is no `register` that is made while the pool is full and a slot of it is lost. -/
def LeaksUnfelt (s : TunGateway) : GatewayMove → Prop
  | .register t => Exhausted s t → ¬ Leaked s
  | _ => True

/-! ## The pool -/

theorem pool_of_full {s : TunGateway} (h : s.pool.findIdx? Option.isNone = none) :
    ∃ tunnels : List ℕ, s.pool = tunnels.map some := by
  have hall : ∀ slot ∈ s.pool, slot.isNone = false := List.findIdx?_eq_none_iff.mp h
  generalize s.pool = pool at hall
  induction pool with
  | nil => exact ⟨[], rfl⟩
  | cons slot pool ih =>
    obtain ⟨tunnels, rfl⟩ := ih fun x hx => hall x (List.mem_cons_of_mem _ hx)
    have hslot := hall slot (List.mem_cons_self ..)
    rcases slot with _ | t
    · cases hslot
    · exact ⟨t :: tunnels, rfl⟩

theorem pool_length (s : TunGateway) (m : GatewayMove) : (s.move m).pool.length = s.pool.length := by
  have hreg : ∀ t, (s.register t).pool.length = s.pool.length := by
    intro t
    unfold register
    split
    · exact List.length_set
    · rfl
  have hunreg : ∀ t, (s.unregister t).pool.length = s.pool.length := by
    intro t
    unfold unregister
    split
    · exact List.length_set
    · rfl
  cases m with
  | register t =>
    simp only [move]
    split
    · exact hreg t
    · rfl
  | unregister t =>
    simp only [move]
    split
    · exact hunreg t
    · rfl
  | setOnIp =>
    show s.setOnIp.pool.length = _
    unfold setOnIp
    split <;> rfl
  | drop t =>
    simp only [move]
    split <;> rfl

/-- There are as many tunnels as slots only where each slot has its own, live. -/
theorem heldByLive_iff {s : TunGateway} (hlen : s.pool.length = POOL_SIZE)
    (hfull : s.pool.findIdx? Option.isNone = none) : HeldByLive s ↔ ¬ Leaked s := by
  constructor
  · rintro ⟨tunnels, hnodup, hsize, hall⟩
    have hslots : (tunnels.map some).Nodup := hnodup.map (Option.some_injective ℕ)
    have hsub : tunnels.map some ⊆ s.pool := by
      intro slot hslot
      obtain ⟨t, ht, rfl⟩ := List.mem_map.mp hslot
      exact (hall t ht).1
    have hperm : (tunnels.map some).Perm s.pool := by
      apply (List.subperm_of_subset hslots hsub).perm_of_length_le
      rw [List.length_map]
      omega
    rintro (⟨t, ht, hdropped⟩ | htwice)
    · obtain ⟨t', ht', heq⟩ := List.mem_map.mp (hperm.mem_iff.mpr ht)
      obtain rfl := Option.some.inj heq
      rw [(hall t' ht').2] at hdropped
      cases hdropped
    · exact htwice (hperm.nodup_iff.mp hslots)
  · intro hno
    obtain ⟨hlive, honce⟩ := not_or.mp hno
    obtain ⟨tunnels, hpool⟩ := pool_of_full hfull
    refine ⟨tunnels, ?_, ?_, fun t ht => ?_⟩
    · rw [hpool, not_not] at honce
      exact honce.of_map _
    · rw [hpool, List.length_map] at hlen
      exact hlen
    · have hmem : some t ∈ s.pool := by
        rw [hpool]
        exact List.mem_map_of_mem ht
      refine ⟨hmem, ?_⟩
      by_contra hdropped
      exact hlive ⟨t, hmem, by simpa using hdropped⟩

theorem refusesRightly_iff {s : TunGateway} (hlen : s.pool.length = POOL_SIZE) (m : GatewayMove) :
    RefusesRightly s m ↔ LeaksUnfelt s m := by
  cases m with
  | register t =>
    apply forall_congr'
    intro hexhausted
    exact heldByLive_iff hlen hexhausted.full
  | unregister | setOnIp | drop => exact Iff.rfl

/-- In every run, `register` is refused only with every lease held by another live tunnel, if and only if
it is not called while the pool is full and a slot of it is lost. -/
theorem leases_reclaimed (ms : List GatewayMove) :
    Along move RefusesRightly {} ms ↔ Along move LeaksUnfelt {} ms := by
  have hnew : ({} : TunGateway).pool.length = POOL_SIZE := List.length_replicate
  have hstep : ∀ (s : TunGateway) (m : GatewayMove), s.pool.length = POOL_SIZE →
      (s.move m).pool.length = POOL_SIZE := fun s m h => (pool_length s m).trans h
  constructor
  · intro h
    exact h.imp (fun s m hP hlen => ⟨hstep s m hlen, (refusesRightly_iff hlen m).mp hP⟩) hnew
  · intro h
    exact h.imp (fun s m hP hlen => ⟨hstep s m hlen, (refusesRightly_iff hlen m).mpr hP⟩) hnew

/-! ## A pool of tunnels that are gone -/

/-- The first `n` tunnels register, and nobody else. -/
def registers (n : ℕ) : List GatewayMove := (List.range n).flatMap fun t => [.register t, .setOnIp]

/-- Every lease is taken once, and every tunnel that took one is dropped. -/
def leakRun : List GatewayMove := registers POOL_SIZE ++ (List.range POOL_SIZE).map .drop

/-- The first `n` slots are taken in order, with everybody there and the pool unlocked. -/
structure Taken (s : TunGateway) (n : ℕ) : Prop where
  pool : s.pool = (List.range n).map some ++ List.replicate (POOL_SIZE - n) none
  unlocked : s.locked = none
  live : ∀ t, s.dropped t = false

theorem Taken.register {s : TunGateway} {n : ℕ} (h : Taken s n) (hn : n < POOL_SIZE) :
    Taken ((s.move (.register n)).move .setOnIp) (n + 1) := by
  have hslots : s.pool = (List.range n).map some ++ none :: List.replicate (POOL_SIZE - (n + 1)) none := by
    rw [h.pool, ← List.replicate_succ]
    congr 2
    omega
  have hfirst : s.pool.findIdx? Option.isNone = some n := by
    rw [hslots, List.findIdx?_append, List.findIdx?_eq_none_iff.mpr]
    · simp [List.findIdx?_cons]
    · intro slot hslot
      obtain ⟨t, -, rfl⟩ := List.mem_map.mp hslot
      rfl
  have hmove : s.move (.register n) = s.register n := if_pos ⟨h.unlocked, h.live n⟩
  have htaken : s.register n =
      { s with pool := s.pool.set n (some n), locked := some (.registering n (leaseOf n)) } := by
    unfold TunGateway.register
    rw [hfirst]
  rw [hmove, htaken]
  refine ⟨?_, rfl, h.live⟩
  show s.pool.set n (some n) = _
  rw [hslots, List.set_append_right _ _ (by simp), List.range_succ]
  simp

theorem taken_registers {n : ℕ} (hn : n ≤ POOL_SIZE) : Taken (run {} (registers n)) n := by
  induction n with
  | zero => exact ⟨rfl, rfl, fun _ => rfl⟩
  | succ n ih =>
    have hrun : run {} (registers (n + 1)) =
        ((run {} (registers n)).move (.register n)).move .setOnIp := by
      unfold registers run
      rw [List.range_succ, List.flatMap_append, List.foldl_append]
      rfl
    rw [hrun]
    exact (ih (by omega)).register (by omega)

theorem run_drops (ts : List ℕ) : ∀ {s : TunGateway}, s.locked = none →
    (s.run (ts.map .drop)).pool = s.pool ∧ (s.run (ts.map .drop)).locked = none ∧
      ∀ t, (s.run (ts.map .drop)).dropped t = (decide (t ∈ ts) || s.dropped t) := by
  induction ts with
  | nil => exact fun hfree => ⟨rfl, hfree, fun t => by simp [run]⟩
  | cons t ts ih =>
    intro s hfree
    have hmove : s.move (.drop t) = { s with dropped := Function.update s.dropped t true } := by
      simp only [move]
      rw [if_neg (by simp [hfree])]
    obtain ⟨hpool, hlocked, hdropped⟩ := @ih (s.move (.drop t)) (by rw [hmove]; exact hfree)
    have hrun : s.run ((t :: ts).map .drop) = (s.move (.drop t)).run (ts.map .drop) := rfl
    rw [hrun]
    rw [show (s.move (.drop t)).pool = s.pool by rw [hmove]] at hpool
    refine ⟨hpool, hlocked, fun t' => (hdropped t').trans ?_⟩
    rw [hmove]
    by_cases ht : t' = t
    · simp [ht]
    · simp [ht]

theorem leakRun_gone : Exhausted (run {} leakRun) POOL_SIZE ∧
    ∀ t, some t ∈ (run {} leakRun).pool → (run {} leakRun).dropped t = true := by
  obtain ⟨hpool, hunlocked, hlive⟩ := taken_registers (le_refl POOL_SIZE)
  rw [Nat.sub_self, List.replicate_zero, List.append_nil] at hpool
  have hrun : run {} leakRun = (run {} (registers POOL_SIZE)).run ((List.range POOL_SIZE).map .drop) :=
    List.foldl_append
  obtain ⟨hkept, hlocked, hdropped⟩ := run_drops (List.range POOL_SIZE) hunlocked
  rw [← hrun] at hkept hlocked hdropped
  rw [hpool] at hkept
  refine ⟨⟨hlocked, ?_, ?_⟩, fun t ht => ?_⟩
  · rw [hdropped, hlive]
    simp
  · rw [hkept]
    apply List.findIdx?_eq_none_iff.mpr
    intro slot hslot
    obtain ⟨t, -, rfl⟩ := List.mem_map.mp hslot
    rfl
  · rw [hkept] at ht
    have hrange : t ∈ List.range POOL_SIZE := by simpa using ht
    rw [hdropped, decide_eq_true hrange]
    rfl

/-- No tunnel of the pool is left, and the next one is refused. -/
theorem leases_not_reclaimed :
    Exhausted (run {} leakRun) POOL_SIZE ∧
    (∀ t, some t ∈ (run {} leakRun).pool → (run {} leakRun).dropped t = true) ∧
    ¬ ∀ ms : List GatewayMove, Along move RefusesRightly {} ms := by
  obtain ⟨hexhausted, hgone⟩ := leakRun_gone
  refine ⟨hexhausted, hgone, fun hall => ?_⟩
  have hheld : HeldByLive (run {} leakRun) := (hall (leakRun ++ [.register POOL_SIZE])).last hexhausted
  obtain ⟨tunnels, -, hsize, hlive⟩ := hheld
  have hpos : 0 < tunnels.length := by
    rw [hsize]
    decide
  obtain ⟨t, ht⟩ := List.exists_mem_of_length_pos hpos
  obtain ⟨hmem, hthere⟩ := hlive t ht
  rw [hgone t hmem] at hthere
  cases hthere

end BaleVpn.Server.TunGateway
