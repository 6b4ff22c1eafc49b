import BaleVpn.Lib.Machine
import BaleVpn.Lib.Update
import BaleVpn.Server.Policy

/-!
# The leases of the gateway (`server/tun_gateway.rs`)

`register` takes the first free slot of the pool and installs a handler that has captured the lease;
`unregister` frees the slot and takes the handler away. Both do so with the pool's lock held. A tunnel
that is dropped leaves its slot taken. A tunnel calls its handler with the lock of `on_ip_override` held,
so that the handler is not exchanged meanwhile.
-/

namespace BaleVpn.Server

open Lib Net

/-! ## State -/

def LEASE_FIRST : UInt8 := 2
def LEASE_LAST : UInt8 := 254
def POOL_SIZE : ℕ := (LEASE_LAST - LEASE_FIRST + 1).toNat

/-- The holder of the pool's lock, before it exchanges the tunnel's handler. -/
inductive PoolCall
  | registering (tunnel : ℕ) (lease : UInt8)
  | unregistering (tunnel : ℕ) (lease : UInt8)
  deriving DecidableEq, Repr

def PoolCall.tunnel : PoolCall → ℕ
  | .registering t _ | .unregistering t _ => t

/-- `TunGateway`, and what it has to do with the tunnels, which are numbered. -/
structure TunGateway where
  pool : List (Option ℕ) := List.replicate POOL_SIZE none
  locked : Option PoolCall := none
  /-- The lease that the tunnel's handler has captured. -/
  onIp : ℕ → Option UInt8 := fun _ => none
  /-- Nobody holds the tunnel any more. -/
  dropped : ℕ → Bool := fun _ => false

namespace TunGateway

def leaseOf (idx : ℕ) : UInt8 := UInt8.ofNat idx + LEASE_FIRST

/-- `register`; the lease, if the pool is not exhausted. -/
def register (s : TunGateway) (t : ℕ) : TunGateway :=
  match s.pool.findIdx? Option.isNone with
  | some idx =>
    { s with pool := s.pool.set idx (some t), locked := some (.registering t (leaseOf idx)) }
  | none => s

/-- `unregister`; only a tunnel that is still there is found. -/
def unregister (s : TunGateway) (t : ℕ) : TunGateway :=
  match s.pool.findIdx? (· == some t) with
  | some idx => { s with pool := s.pool.set idx none, locked := some (.unregistering t (leaseOf idx)) }
  | none => s

/-- `set_on_ip`, after which the pool is unlocked. -/
def setOnIp (s : TunGateway) : TunGateway :=
  match s.locked with
  | some (.registering t lease) =>
    { s with onIp := Function.update s.onIp t (some lease), locked := none }
  | some (.unregistering t _) => { s with onIp := Function.update s.onIp t none, locked := none }
  | none => s

/-! ## Packets -/

/-- What the tunnel writes to the TUN for a packet from its peer. -/
def written (s : TunGateway) (t : ℕ) (pkt : Bytes) : List TunWrite :=
  match s.onIp t with
  | some lease => if s.dropped t then [] else gatewayHandler lease pkt
  | none => []

/-- `tun_read_loop`: the tunnel that gets the packet, and the packet as it gets it. -/
def routed (s : TunGateway) (pkt : Bytes) : Option (ℕ × Bytes) :=
  if pkt.length < 20 || pkt.getD 0 0 >>> 4 != 4 then none
  else if (pkt.drop 16).take 3 != [10, 8, 0] then none
  else
    let lease := pkt.getD 19 0
    if LEASE_FIRST ≤ lease ∧ lease ≤ LEASE_LAST then
      match s.pool[(lease - LEASE_FIRST).toNat]? with
      | some (some t) =>
        if s.dropped t then none
        else
          let (ok, out) := rewriteV4Dst pkt ⟨10, 8, 0, 2⟩
          if ok then some (t, out) else none
      | _ => none
    else none

end TunGateway

/-! ## Runs -/

inductive GatewayMove
  | register (t : ℕ)
  | unregister (t : ℕ)
  | setOnIp
  | drop (t : ℕ)
  deriving DecidableEq, Repr

namespace TunGateway

/-- A call waits for the lock; the caller holds the tunnel. -/
def move (s : TunGateway) : GatewayMove → TunGateway
  | .register t => if s.locked = none ∧ s.dropped t = false then s.register t else s
  | .unregister t => if s.locked = none ∧ s.dropped t = false then s.unregister t else s
  | .setOnIp => s.setOnIp
  | .drop t =>
    if s.locked.map PoolCall.tunnel = some t then s
    else { s with dropped := Function.update s.dropped t true }

def run (s : TunGateway) (ms : List GatewayMove) : TunGateway := ms.foldl move s

/-! ## Leases -/

/-- The tunnel has the lease: its slot says so, or `unregister` has just freed that. -/
def Holds (s : TunGateway) (t : ℕ) (lease : UInt8) : Prop :=
  (∃ idx, s.pool[idx]? = some (some t) ∧ leaseOf idx = lease) ∨ s.locked = some (.unregistering t lease)

/-- A tunnel is registered while it is not. -/
def Once (s : TunGateway) : GatewayMove → Prop
  | .register t => some t ∉ s.pool
  | _ => True

instance (s : TunGateway) : (m : GatewayMove) → Decidable (Once s m)
  | .register t => inferInstanceAs (Decidable (some t ∉ s.pool))
  | .unregister _ | .setOnIp | .drop _ => isTrue trivial

structure Consistent (s : TunGateway) : Prop where
  length : s.pool.length = POOL_SIZE
  single : ∀ (i j t : ℕ), s.pool[i]? = some (some t) → s.pool[j]? = some (some t) → i = j
  registering : ∀ (t : ℕ) (lease : UInt8), s.locked = some (.registering t lease) →
    ∃ idx, s.pool[idx]? = some (some t) ∧ leaseOf idx = lease
  unregistering : ∀ (t : ℕ) (lease : UInt8), s.locked = some (.unregistering t lease) →
    some t ∉ s.pool ∧ ∃ idx < POOL_SIZE, s.pool[idx]? = some none ∧ leaseOf idx = lease
  handler : ∀ (t : ℕ) (lease : UInt8), s.onIp t = some lease → Holds s t lease

theorem leaseOf_toNat {idx : ℕ} (h : idx < POOL_SIZE) : (leaseOf idx).toNat = idx + 2 := by
  have hsize : POOL_SIZE = 253 := rfl
  rw [leaseOf, UInt8.toNat_add, UInt8.toNat_ofNat']
  show (idx % 2 ^ 8 + 2) % 2 ^ 8 = idx + 2
  omega

theorem leaseOf_injective {i j : ℕ} (hi : i < POOL_SIZE) (hj : j < POOL_SIZE) (h : leaseOf i = leaseOf j) :
    i = j := by
  have hnat := congrArg UInt8.toNat h
  rw [leaseOf_toNat hi, leaseOf_toNat hj] at hnat
  omega

namespace Consistent

variable {s : TunGateway}

theorem lt_size (h : Consistent s) {idx : ℕ} {o : Option ℕ} (hidx : s.pool[idx]? = some o) : idx < POOL_SIZE := by
  rw [← h.length]
  exact (List.getElem?_eq_some_iff.mp hidx).1

theorem holds_unique (h : Consistent s) {t t' : ℕ} {lease : UInt8} (ht : Holds s t lease)
    (ht' : Holds s t' lease) : t = t' := by
  have mixed : ∀ {t t' idx : ℕ}, s.pool[idx]? = some (some t) → leaseOf idx = lease →
      s.locked = some (.unregistering t' lease) → t = t' := by
    intro t t' idx hidx hlease hlock
    obtain ⟨-, k, hk, hfree, hkl⟩ := h.unregistering t' lease hlock
    obtain rfl := leaseOf_injective (h.lt_size hidx) hk (hlease.trans hkl.symm)
    rw [hidx] at hfree
    cases hfree
  obtain ⟨i, hi, hil⟩ | hlock := ht
  · obtain ⟨j, hj, hjl⟩ | hlock' := ht'
    · obtain rfl := leaseOf_injective (h.lt_size hi) (h.lt_size hj) (hil.trans hjl.symm)
      rw [hi] at hj
      exact Option.some.inj (Option.some.inj hj)
    · exact mixed hi hil hlock'
  · obtain ⟨j, hj, hjl⟩ | hlock' := ht'
    · exact (mixed hj hjl hlock).symm
    · rw [hlock] at hlock'
      exact (PoolCall.unregistering.inj (Option.some.inj hlock')).1

theorem lease_unique (h : Consistent s) {t : ℕ} {lease lease' : UInt8} (hl : Holds s t lease)
    (hl' : Holds s t lease') : lease = lease' := by
  have mixed : ∀ {lease : UInt8} {idx : ℕ}, s.pool[idx]? = some (some t) →
      s.locked ≠ some (.unregistering t lease) :=
    fun hidx hlock => (h.unregistering t _ hlock).1 (List.mem_of_getElem? hidx)
  obtain ⟨i, hi, rfl⟩ | hlock := hl
  · obtain ⟨j, hj, rfl⟩ | hlock' := hl'
    · rw [h.single i j t hi hj]
    · exact absurd hlock' (mixed hi)
  · obtain ⟨j, hj, rfl⟩ | hlock' := hl'
    · exact absurd hlock (mixed hj)
    · rw [hlock] at hlock'
      exact (PoolCall.unregistering.inj (Option.some.inj hlock')).2

theorem lease_range (h : Consistent s) {t : ℕ} {lease : UInt8} (hl : Holds s t lease) :
    LEASE_FIRST ≤ lease ∧ lease ≤ LEASE_LAST := by
  have hrange : ∀ idx < POOL_SIZE, LEASE_FIRST ≤ leaseOf idx ∧ leaseOf idx ≤ LEASE_LAST := by
    intro idx hidx
    have hsize : POOL_SIZE = 253 := rfl
    rw [UInt8.le_iff_toNat_le, UInt8.le_iff_toNat_le, leaseOf_toNat hidx]
    exact ⟨show 2 ≤ idx + 2 by omega, show idx + 2 ≤ 254 by omega⟩
  obtain ⟨idx, hidx, rfl⟩ | hlock := hl
  · exact hrange idx (h.lt_size hidx)
  · obtain ⟨-, idx, hidx, -, rfl⟩ := h.unregistering t lease hlock
    exact hrange idx hidx

theorem register (h : Consistent s) {t : ℕ} (hfree : s.locked = none) (honce : some t ∉ s.pool) :
    Consistent (s.register t) := by
  unfold TunGateway.register
  split
  · next idx hidx =>
    obtain ⟨hlt, hnone, -⟩ := List.findIdx?_eq_some_iff_getElem.mp hidx
    have hslot : s.pool[idx]? = some none :=
      List.getElem?_eq_some_iff.mpr ⟨hlt, Option.isNone_iff_eq_none.mp hnone⟩
    have hnew : (s.pool.set idx (some t))[idx]? = some (some t) := List.getElem?_set_self hlt
    -- The slots that were taken are so still.
    have hkeep : ∀ {t' k : ℕ}, s.pool[k]? = some (some t') → (s.pool.set idx (some t))[k]? = some (some t') := by
      intro t' k hk
      have hne : idx ≠ k := by
        rintro rfl
        rw [hslot] at hk
        cases hk
      rwa [List.getElem?_set_ne hne]
    refine ⟨List.length_set.trans h.length, fun i j t' hi hj => ?_, fun t' lease hlock => ?_,
      fun t' lease hlock => ?_, fun t' lease hon => ?_⟩
    · obtain ⟨hi', ht⟩ | ⟨-, hi'⟩ := getElem?_set_eq_some hi
      · obtain ⟨hj', -⟩ | ⟨-, hj'⟩ := getElem?_set_eq_some hj
        · rw [hi', hj']
        · rw [ht] at hj'
          exact absurd (List.mem_of_getElem? hj') honce
      · obtain ⟨-, ht⟩ | ⟨-, hj'⟩ := getElem?_set_eq_some hj
        · rw [ht] at hi'
          exact absurd (List.mem_of_getElem? hi') honce
        · exact h.single i j t' hi' hj'
    · obtain ⟨rfl, rfl⟩ := PoolCall.registering.inj (Option.some.inj hlock)
      exact ⟨idx, hnew, rfl⟩
    · cases hlock
    · obtain ⟨k, hk, hkl⟩ | hlock := h.handler t' lease hon
      · exact .inl ⟨k, hkeep hk, hkl⟩
      · rw [hfree] at hlock
        cases hlock
  · exact h

theorem unregister (h : Consistent s) {t : ℕ} (hfree : s.locked = none) : Consistent (s.unregister t) := by
  unfold TunGateway.unregister
  split
  · next idx hidx =>
    obtain ⟨hlt, ht, -⟩ := List.findIdx?_eq_some_iff_getElem.mp hidx
    have hslot : s.pool[idx]? = some (some t) := List.getElem?_eq_some_iff.mpr ⟨hlt, eq_of_beq ht⟩
    have hback : ∀ {t' k : ℕ}, (s.pool.set idx none)[k]? = some (some t') →
        k ≠ idx ∧ s.pool[k]? = some (some t') := by
      intro t' k hk
      obtain ⟨-, hcases⟩ | hold := getElem?_set_eq_some hk
      · cases hcases
      · exact hold
    refine ⟨List.length_set.trans h.length, fun i j t' hi hj => h.single i j t' (hback hi).2 (hback hj).2,
      fun t' lease hlock => ?_, fun t' lease hlock => ?_, fun t' lease hon => ?_⟩
    · cases hlock
    · obtain ⟨rfl, rfl⟩ := PoolCall.unregistering.inj (Option.some.inj hlock)
      refine ⟨fun hmem => ?_, idx, h.lt_size hslot, List.getElem?_set_self hlt, rfl⟩
      obtain ⟨k, hk⟩ := List.mem_iff_getElem?.mp hmem
      obtain ⟨hne, hold⟩ := hback hk
      exact hne (h.single k idx t hold hslot)
    · obtain ⟨k, hk, rfl⟩ | hlock := h.handler t' lease hon
      · by_cases hki : idx = k
        · subst hki
          rw [hslot] at hk
          obtain rfl := Option.some.inj (Option.some.inj hk)
          exact .inr rfl
        · exact .inl ⟨k, by simpa [hki] using hk, rfl⟩
      · rw [hfree] at hlock
        cases hlock
  · exact h

theorem setOnIp (h : Consistent s) : Consistent s.setOnIp := by
  unfold TunGateway.setOnIp
  split
  · next t lease hlock =>
    obtain ⟨idx, hidx, hlease⟩ := h.registering t lease hlock
    refine ⟨h.length, h.single, nofun, nofun, fun t' lease' hon => .inl ?_⟩
    change Function.update s.onIp t (some lease) t' = some lease' at hon
    by_cases ht : t' = t
    · subst ht
      rw [Function.update_self] at hon
      exact ⟨idx, hidx, hlease.trans (Option.some.inj hon)⟩
    · rw [Function.update_of_ne ht] at hon
      obtain hslot | hother := h.handler t' lease' hon
      · exact hslot
      · rw [hlock] at hother
        cases hother
  · next t lease hlock =>
    refine ⟨h.length, h.single, nofun, nofun, fun t' lease' hon => .inl ?_⟩
    change Function.update s.onIp t none t' = some lease' at hon
    by_cases ht : t' = t
    · subst ht
      rw [Function.update_self] at hon
      cases hon
    · rw [Function.update_of_ne ht] at hon
      obtain hslot | hother := h.handler t' lease' hon
      · exact hslot
      · rw [hlock] at hother
        exact absurd (PoolCall.unregistering.inj (Option.some.inj hother)).1.symm ht
  · exact h

theorem move (h : Consistent s) {m : GatewayMove} (honce : Once s m) : Consistent (s.move m) := by
  cases m with
  | register t =>
    simp only [TunGateway.move]
    split
    · next hfree => exact h.register hfree.1 honce
    · exact h
  | unregister t =>
    simp only [TunGateway.move]
    split
    · next hfree => exact h.unregister hfree.1
    · exact h
  | setOnIp => exact h.setOnIp
  | drop t =>
    simp only [TunGateway.move]
    split
    · exact h
    · exact ⟨h.length, h.single, h.registering, h.unregistering, h.handler⟩

theorem run {ms : List GatewayMove} (honce : Along TunGateway.move Once {} ms) :
    Consistent (TunGateway.run {} ms) := by
  have hnew : Consistent {} := by
    refine ⟨List.length_replicate, fun i j t hi => ?_, nofun, nofun, nofun⟩
    have hmem : some t ∈ List.replicate POOL_SIZE none := List.mem_of_getElem? hi
    cases List.eq_of_mem_replicate hmem
  exact honce.invariant (fun _ _ hm h => h.move hm) hnew

end Consistent

/-! ## What is written and what is routed -/

/-- The header length field. -/
def ihl (pkt : Bytes) : UInt8 := pkt.getD 0 0 &&& 0x0f

theorem gatewayHandler_source {lease : UInt8} {pkt : Bytes} {w : TunWrite}
    (hw : w ∈ gatewayHandler lease pkt) (hihl : 5 ≤ ihl pkt) : octetsAt w.wire 12 = ⟨10, 8, 0, lease⟩ := by
  unfold gatewayHandler at hw
  split at hw
  · cases hw
  · generalize hr : rewriteV4Src pkt ⟨10, 8, 0, lease⟩ = r at hw
    obtain ⟨ok, out⟩ := r
    simp only at hw
    split at hw
    · cases hw
    · next hok =>
      obtain rfl := List.mem_singleton.mp hw
      obtain rfl : ok = true := by simpa using hok
      have hr' : rewriteV4Addr pkt ⟨10, 8, 0, lease⟩ true = (true, out) := hr
      refine octetsAt_rewriteV4Addr hr' fun n hn => .inr ?_
      have hlen : 5 ≤ (ihl pkt).toNat := UInt8.le_iff_toNat_le.mp hihl
      rw [ihl] at hlen
      unfold l4CsumOff headerLen at hn
      show 12 + 4 ≤ n
      split at hn
      · obtain rfl := Option.some.inj hn
        omega
      · split at hn
        · obtain rfl := Option.some.inj hn
          omega
        · cases hn

/-- A TCP header at byte 0 and a UDP header at byte 12 would have their checksums in the destination. -/
def Overlapping (pkt : Bytes) : Prop := ihl pkt = 0 ∧ pkt.getD 9 0 = 6 ∨ ihl pkt = 3 ∧ pkt.getD 9 0 = 17

instance (pkt : Bytes) : Decidable (Overlapping pkt) := inferInstanceAs (Decidable (_ ∨ _))

theorem routed_dst {s : TunGateway} {pkt out : Bytes} {t : ℕ} (h : s.routed pkt = some (t, out)) :
    s.dropped t = false ∧ (∃ lease, octetsAt pkt 16 = ⟨10, 8, 0, lease⟩ ∧ Holds s t lease) ∧
      (¬ Overlapping pkt → octetsAt out 16 = ⟨10, 8, 0, 2⟩) := by
  unfold routed at h
  split at h
  · cases h
  · next hv4 =>
    split at h
    · cases h
    · next hprefix =>
      simp only at h
      split at h
      · next hrange =>
        split at h
        · next t' hslot =>
          split at h
          · cases h
          · next hlive =>
            generalize hr : rewriteV4Dst pkt ⟨10, 8, 0, 2⟩ = r at h
            obtain ⟨ok, bytes⟩ := r
            simp only at h
            split at h
            · next hok =>
              obtain ⟨rfl, rfl⟩ := Prod.mk.inj (Option.some.inj h)
              subst hok
              refine ⟨by simpa using hlive, ⟨pkt.getD 19 0, ?_, .inl ⟨_, hslot, ?_⟩⟩, fun hno => ?_⟩
              · have hthree : (pkt.drop 16).take 3 = [10, 8, 0] := by simpa using hprefix
                have hget : ∀ i < 3, pkt.getD (16 + i) 0 = ((pkt.drop 16).take 3).getD i 0 := by
                  intro i hi
                  simp only [List.getD_eq_getElem?_getD]
                  rw [List.getElem?_take_of_lt hi, List.getElem?_drop]
                have h0 := hget 0 (by omega)
                rw [hthree] at hget h0
                rw [octetsAt, hget 1 (by omega), hget 2 (by omega)]
                exact congrArg (fun o => (⟨o, 8, 0, pkt.getD 19 0⟩ : Ipv4Addr)) h0
              · rw [leaseOf, UInt8.ofNat_toNat, UInt8.sub_add_cancel]
              · have hr' : rewriteV4Addr pkt ⟨10, 8, 0, 2⟩ false = (true, bytes) := hr
                refine octetsAt_rewriteV4Addr hr' fun n hn => ?_
                show n + 2 ≤ 16 ∨ 16 + 4 ≤ n
                by_contra hover
                refine hno ?_
                unfold l4CsumOff headerLen at hn
                split at hn
                · next htcp =>
                  obtain rfl := Option.some.inj hn
                  have hzero : (pkt.getD 0 0 &&& 0x0f).toNat = 0 := by omega
                  exact .inl ⟨UInt8.toNat_inj.mp hzero, eq_of_beq htcp⟩
                · split at hn
                  · next hudp =>
                    obtain rfl := Option.some.inj hn
                    have hthree : (pkt.getD 0 0 &&& 0x0f).toNat = 3 := by omega
                    exact .inr ⟨UInt8.toNat_inj.mp hthree, eq_of_beq hudp⟩
                  · cases hn
            · cases h
        · cases h
      · cases h

theorem leases_injective (ms : List GatewayMove) (honce : Along move Once {} ms) :
    (∀ (t t' : ℕ) (lease : UInt8), Holds (run {} ms) t lease → Holds (run {} ms) t' lease → t = t') ∧
    (∀ (t : ℕ) (lease : UInt8), Holds (run {} ms) t lease → LEASE_FIRST ≤ lease ∧ lease ≤ LEASE_LAST) ∧
    (∀ (t : ℕ) (pkt : Bytes) (w : TunWrite), w ∈ (run {} ms).written t pkt → 5 ≤ ihl pkt →
      ∃ lease, Holds (run {} ms) t lease ∧ octetsAt w.wire 12 = ⟨10, 8, 0, lease⟩) ∧
    ∀ (t : ℕ) (pkt out : Bytes), (run {} ms).routed pkt = some (t, out) →
      (run {} ms).dropped t = false ∧
      (∃ lease, octetsAt pkt 16 = ⟨10, 8, 0, lease⟩ ∧ Holds (run {} ms) t lease) ∧
      (¬ Overlapping pkt → octetsAt out 16 = ⟨10, 8, 0, 2⟩) := by
  have h := Consistent.run honce
  refine ⟨fun t t' lease => h.holds_unique, fun t lease => h.lease_range, fun t pkt w hw hihl => ?_,
    fun t pkt out => routed_dst⟩
  unfold written at hw
  split at hw
  · next lease hon =>
    split at hw
    · cases hw
    · exact ⟨lease, h.handler t lease hon, gatewayHandler_source hw hihl⟩
  · cases hw

/-- Two tunnels register, the first unregisters, and a third gets its lease. -/
def leaseRun : List GatewayMove :=
  [.register 0, .setOnIp, .register 1, .setOnIp, .unregister 0, .setOnIp, .drop 0, .register 2, .setOnIp]

theorem leases_injective_reused :
    (∀ (t t' : ℕ) (lease : UInt8), Holds (run {} leaseRun) t lease → Holds (run {} leaseRun) t' lease → t = t') ∧
    (∀ (t : ℕ) (lease : UInt8), Holds (run {} leaseRun) t lease → LEASE_FIRST ≤ lease ∧ lease ≤ LEASE_LAST) ∧
    (∀ (t : ℕ) (pkt : Bytes) (w : TunWrite), w ∈ (run {} leaseRun).written t pkt → 5 ≤ ihl pkt →
      ∃ lease, Holds (run {} leaseRun) t lease ∧ octetsAt w.wire 12 = ⟨10, 8, 0, lease⟩) ∧
    ∀ (t : ℕ) (pkt out : Bytes), (run {} leaseRun).routed pkt = some (t, out) →
      (run {} leaseRun).dropped t = false ∧
      (∃ lease, octetsAt pkt 16 = ⟨10, 8, 0, lease⟩ ∧ Holds (run {} leaseRun) t lease) ∧
      (¬ Overlapping pkt → octetsAt out 16 = ⟨10, 8, 0, 2⟩) :=
  leases_injective leaseRun (by decide +kernel)

/-- TCP to `10.8.0.3`, with a header length of 0. -/
def headless : Bytes := [0x40, 0, 0, 20, 0, 0, 0, 0, 64, 6, 0, 0, 1, 1, 1, 1, 10, 8, 0, 3]

theorem routed_elsewhere :
    ¬ ∀ (ms : List GatewayMove), Along move Once {} ms → ∀ (t : ℕ) (pkt out : Bytes),
      (run {} ms).routed pkt = some (t, out) → octetsAt out 16 = ⟨10, 8, 0, 2⟩ := by
  intro h
  have honce : Along move Once {} (leaseRun.take 4) := by decide +kernel
  have hrouted : ∃ out, (run {} (leaseRun.take 4)).routed headless = some (1, out) ∧
      octetsAt out 16 ≠ ⟨10, 8, 0, 2⟩ :=
    ⟨_, rfl, by decide +kernel⟩
  obtain ⟨out, hout, hne⟩ := hrouted
  exact hne (h _ honce 1 headless out hout)

end TunGateway

end BaleVpn.Server
