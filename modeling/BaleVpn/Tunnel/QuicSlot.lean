import BaleVpn.Lib.Update
import BaleVpn.Lib.Machine
import BaleVpn.Tunnel.Lifecycle

/-!
# Who owns the QUIC receive slot (`lib.rs`, `quic_tunnel.rs`)

`quic_rx_tx` holds the sender that feeds the endpoint of one connect attempt, `quic_client` the
client that came out of one. Here an attempt has a number, and the slots hold numbers. Attempts are
made by calls of `ensure_quic_client`, one at a time under `connect_lock`, and by keepers, which do
not take it. A keeper clears the receive slot after every failed attempt, whoever's sender is in it,
and a call that gets through starts a keeper of its own.
-/

namespace BaleVpn.Tunnel

open Lib

/-! ## State -/

/-- `ensure_quic_client`, with the number of the attempt it makes. -/
inductive EnsurePc
  | check | lock | recheck | connected | claim
  | handshake (attempt : ℕ)
  | install (attempt : ℕ)
  | returned
  deriving DecidableEq, Repr

/-- `keeper_task`, with the client it watches or the attempt it makes. -/
inductive WatchPc
  | read
  | closed (client : ℕ)
  | checkConnected (client : ℕ)
  | dropClient (client : ℕ)
  | dropRx (client : ℕ)
  | recheck | claim
  | handshake (attempt : ℕ)
  | install (attempt : ℕ)
  | clear
  | returned
  deriving DecidableEq, Repr

structure QuicSlots where
  connected : Bool := true
  quicClient : Option ℕ := none
  quicRxTx : Option ℕ := none
  /-- The call that holds `connect_lock`. -/
  connectLock : Option ℕ := none
  /-- How many attempts got the receive slot. -/
  attempts : ℕ := 0
  calls : List EnsurePc := []
  keepers : List WatchPc := []
  deriving DecidableEq, Repr

namespace QuicSlots

/-! ## Steps -/

/-- One step of call `n`; `ok` is the outcome of the handshake. -/
def ensureStep (s : QuicSlots) (n : ℕ) (ok : Bool) : EnsurePc → QuicSlots × EnsurePc
  | .check => (s, if s.quicClient.isSome then .returned else .lock)
  | .lock =>
    if s.connectLock.isSome then (s, .lock) else ({ s with connectLock := some n }, .recheck)
  | .recheck =>
    if s.quicClient.isSome then ({ s with connectLock := none }, .returned) else (s, .connected)
  | .connected =>
    if !s.connected then ({ s with connectLock := none }, .returned) else (s, .claim)
  | .claim =>
    if s.quicRxTx.isSome then (s, .connected)
    else
      ({ s with quicRxTx := some s.attempts, attempts := s.attempts + 1 }, .handshake s.attempts)
  | .handshake attempt =>
    if ok then (s, .install attempt) else ({ s with quicRxTx := none }, .connected)
  | .install attempt =>
    ({ s with
        quicClient := some attempt, connectLock := none, keepers := s.keepers ++ [.read] },
      .returned)
  | .returned => (s, .returned)

def watchStep (s : QuicSlots) (ok : Bool) : WatchPc → QuicSlots × WatchPc
  | .read => (s, s.quicClient.elim .returned .closed)
  | .closed client => (s, .checkConnected client)
  | .checkConnected client => (s, if s.connected then .dropClient client else .returned)
  | .dropClient client => ({ s with quicClient := none }, .dropRx client)
  | .dropRx _ => ({ s with quicRxTx := none }, .recheck)
  | .recheck => (s, if s.connected then .claim else .returned)
  | .claim =>
    if s.quicRxTx.isSome then (s, .clear)
    else
      ({ s with quicRxTx := some s.attempts, attempts := s.attempts + 1 }, .handshake s.attempts)
  | .handshake attempt =>
    if ok then (s, .install attempt) else ({ s with quicRxTx := none }, .clear)
  | .install attempt => ({ s with quicClient := some attempt }, .read)
  | .clear => ({ s with quicRxTx := none }, .recheck)
  | .returned => (s, .returned)

end QuicSlots

/-- The flag `connected` is set and cleared by the connect task and by `teardown`. -/
inductive QuicMove
  | ensure
  | call (n : ℕ) (ok : Bool)
  | keeper (n : ℕ) (ok : Bool)
  | connected (b : Bool)
  deriving DecidableEq, Repr

namespace QuicSlots

def callStep (s : QuicSlots) (n : ℕ) (ok : Bool) : QuicSlots :=
  match s.calls[n]? with
  | some pc =>
    let (s, pc) := s.ensureStep n ok pc
    { s with calls := s.calls.set n pc }
  | none => s

def keeperStep (s : QuicSlots) (n : ℕ) (ok : Bool) : QuicSlots :=
  match s.keepers[n]? with
  | some pc =>
    let (s, pc) := s.watchStep ok pc
    { s with keepers := s.keepers.set n pc }
  | none => s

def step (s : QuicSlots) : QuicMove → QuicSlots
  | .ensure => { s with calls := s.calls ++ [.check] }
  | .call n ok => s.callStep n ok
  | .keeper n ok => s.keeperStep n ok
  | .connected b => { s with connected := b }

def run (s : QuicSlots) (ms : List QuicMove) : QuicSlots := ms.foldl step s

/-- The endpoint a `'Q'` frame from the peer reaches. -/
def onQuic (s : QuicSlots) : Option ℕ := s.quicRxTx

end QuicSlots

/-! ## As part of the tunnel -/

def EnsurePc.erase : EnsurePc → Call
  | .check => .ensureQuic
  | .lock => .ensureQuicLock
  | .recheck => .ensureQuicRecheck
  | .connected => .ensureQuicConnected
  | .claim => .ensureQuicClaim
  | .handshake _ => .ensureQuicHandshake
  | .install _ => .ensureQuicInstall
  | .returned => .ensureQuicReturned

def WatchPc.erase : WatchPc → KeeperPc
  | .read => .read
  | .closed _ => .closed
  | .checkConnected _ => .checkConnected
  | .dropClient _ => .dropClient
  | .dropRx _ => .dropRx
  | .recheck => .recheck
  | .claim => .claim
  | .handshake _ => .handshake
  | .install _ => .install
  | .clear => .clear
  | .returned => .returned

/-- The slots of a tunnel, with the numbers forgotten. -/
structure Agrees (t : LkTunnel) (s : QuicSlots) : Prop where
  alive : t.alive = true
  connected : t.connected = s.connected
  quicClient : t.quicClient = s.quicClient.isSome
  quicRxTx : t.quicRxTx = s.quicRxTx.isSome
  connectLock : t.connectLock = s.connectLock.isSome
  keepers : t.keepers = s.keepers.map WatchPc.erase

theorem Agrees.ensureStep {t : LkTunnel} {s : QuicSlots} (h : Agrees t s) (k n : ℕ) (ok : Bool)
    (c : EnsurePc) : Agrees (t.stepOf k ok c.erase).1 (s.ensureStep n ok c).1 ∧
      (t.stepOf k ok c.erase).2 = (s.ensureStep n ok c).2.erase := by
  obtain ⟨halive, hconn, hclient, hrx, hlock, hkeepers⟩ := h
  cases c with
  | check | lock | recheck | connected | claim | handshake attempt =>
    simp only [EnsurePc.erase, LkTunnel.stepOf, QuicSlots.ensureStep, hconn, hclient, hrx, hlock]
    split <;> exact ⟨⟨by simp [halive], by simp [hconn], by simp [hclient], by simp [hrx],
      by simp [hlock], by simp [hkeepers]⟩, rfl⟩
  | install attempt =>
    simp only [EnsurePc.erase, LkTunnel.stepOf, QuicSlots.ensureStep]
    exact ⟨⟨halive, hconn, rfl, hrx, rfl, by simp [hkeepers, WatchPc.erase]⟩, trivial⟩
  | returned => exact ⟨⟨halive, hconn, hclient, hrx, hlock, hkeepers⟩, rfl⟩

theorem Agrees.watchStep {t : LkTunnel} {s : QuicSlots} (h : Agrees t s) (ok : Bool) (k : WatchPc) :
    Agrees (t.keeperStep ok k.erase).1 (s.watchStep ok k).1 ∧
      (t.keeperStep ok k.erase).2 = (s.watchStep ok k).2.erase := by
  obtain ⟨halive, hconn, hclient, hrx, hlock, hkeepers⟩ := h
  cases k with
  | read =>
    simp only [WatchPc.erase, LkTunnel.keeperStep, QuicSlots.watchStep, halive, hclient]
    refine ⟨⟨halive, hconn, hclient, hrx, hlock, hkeepers⟩, ?_⟩
    cases s.quicClient <;> rfl
  | checkConnected client | recheck | claim | handshake attempt =>
    simp only [WatchPc.erase, LkTunnel.keeperStep, QuicSlots.watchStep, halive, hconn, hrx,
      Bool.true_and]
    split <;> exact ⟨⟨by simp [halive], by simp [hconn], by simp [hclient], by simp [hrx],
      by simp [hlock], by simp [hkeepers]⟩, rfl⟩
  | dropClient client | install attempt | clear | dropRx client =>
    simp only [WatchPc.erase, LkTunnel.keeperStep, QuicSlots.watchStep, halive, if_true]
    exact ⟨⟨by simp, by simp [hconn], by simp [hclient], by simp [hrx], by simp [hlock],
      by simp [hkeepers]⟩, trivial⟩
  | closed client | returned => exact ⟨⟨halive, hconn, hclient, hrx, hlock, hkeepers⟩, rfl⟩

/-! ## The property -/

/-- Who makes a move. -/
inductive Party
  | call (n : ℕ)
  | keeper (n : ℕ)
  deriving DecidableEq, Repr

def QuicMove.party : QuicMove → Option Party
  | .call n _ => some (.call n)
  | .keeper n _ => some (.keeper n)
  | _ => none

/-- The attempt whose sender the call may clear. -/
def EnsurePc.attempt : EnsurePc → Option ℕ
  | .handshake attempt | .install attempt => some attempt
  | _ => none

/-- The attempt whose sender the keeper may clear: its own, or that of the client it watches. -/
def WatchPc.attempt : WatchPc → Option ℕ
  | .closed a | .checkConnected a | .dropClient a | .dropRx a | .handshake a | .install a => some a
  | _ => none

namespace QuicSlots

def Owns (s : QuicSlots) (a : ℕ) : Party → Prop
  | .call n => ∃ c, s.calls[n]? = some c ∧ c.attempt = some a
  | .keeper n => ∃ k, s.keepers[n]? = some k ∧ k.attempt = some a

/-- The sender in the slot is replaced or cleared only by its owner. -/
def OwnerWrites (s : QuicSlots) (m : QuicMove) : Prop :=
  ∀ a, s.quicRxTx = some a → (s.step m).quicRxTx ≠ some a → ∃ p ∈ m.party, s.Owns a p

structure SingleOwner (s : QuicSlots) : Prop where
  keepers : ∀ (i j : ℕ) (k k' : WatchPc), s.keepers[i]? = some k → s.keepers[j]? = some k' →
    k ≠ .returned → k' ≠ .returned → i = j
  reaches : ∀ a, s.quicClient = some a → s.onQuic = some a

/-- A call that finds no client, under the lock, finds no keeper at work either. -/
def Orderly (s : QuicSlots) : QuicMove → Prop
  | .call n _ => s.calls[n]? = some .recheck → s.quicClient = none → ∀ k ∈ s.keepers, k = .returned
  | _ => True

instance (s : QuicSlots) : (m : QuicMove) → Decidable (Orderly s m)
  | .call n _ => inferInstanceAs (Decidable
      (s.calls[n]? = some .recheck → s.quicClient = none → ∀ k ∈ s.keepers, k = .returned))
  | .ensure | .keeper .. | .connected _ => isTrue trivial

end QuicSlots

/-! ## The invariant -/

/-- The call holds `connect_lock`. -/
def EnsurePc.holds : EnsurePc → Bool
  | .recheck | .connected | .claim | .handshake _ | .install _ => true
  | _ => false

/-- The call is in its connect loop. -/
def EnsurePc.connecting : EnsurePc → Bool
  | .connected | .claim | .handshake _ | .install _ => true
  | _ => false

/-- The slots as a keeper leaves them, by where it is. -/
def WatchPc.Slots (client rx : Option ℕ) : WatchPc → Prop
  | .read => client ≠ none ∧ rx = client
  | .closed a | .checkConnected a | .dropClient a => client = some a ∧ rx = some a
  | .dropRx a | .handshake a | .install a => client = none ∧ rx = some a
  | .recheck | .claim | .clear => client = none ∧ rx = none
  | .returned => rx = client

namespace QuicSlots

/-- At any time the slots are with one call in its connect loop, with one keeper, or with nobody. -/
structure Shared (s : QuicSlots) : Prop where
  locked : ∀ (n : ℕ) (c : EnsurePc), s.calls[n]? = some c → c.holds = true →
    s.connectLock = some n
  call : ∀ (n : ℕ) (c : EnsurePc), s.calls[n]? = some c → c.connecting = true →
    (∀ k ∈ s.keepers, k = .returned) ∧ s.quicClient = none ∧ s.quicRxTx = c.attempt
  keeper : ∀ (n : ℕ) (k : WatchPc), s.keepers[n]? = some k → k ≠ .returned →
    (∀ (m : ℕ) (k' : WatchPc), m ≠ n → s.keepers[m]? = some k' → k' = .returned) ∧
      (∀ c ∈ s.calls, c.connecting = false) ∧ k.Slots s.quicClient s.quicRxTx
  free : (∀ k ∈ s.keepers, k = .returned) → (∀ c ∈ s.calls, c.connecting = false) →
    s.quicRxTx = s.quicClient

theorem holds_of_connecting {c : EnsurePc} (h : c.connecting = true) : c.holds = true := by
  cases c <;> first | rfl | cases h

theorem Shared.singleOwner {s : QuicSlots} (h : Shared s) : SingleOwner s := by
  constructor
  · intro i j k k' hi hj hk hk'
    by_contra hij
    exact hk' ((h.keeper i k hi hk).1 j k' (Ne.symm hij) hj)
  · intro a ha
    show s.quicRxTx = some a
    by_cases hkeep : ∀ k ∈ s.keepers, k = .returned
    · by_cases hcall : ∀ c ∈ s.calls, c.connecting = false
      · rw [h.free hkeep hcall, ha]
      · push Not at hcall
        obtain ⟨c, hc, hconn⟩ := hcall
        obtain ⟨n, hn⟩ := List.mem_iff_getElem?.mp hc
        have hnone := (h.call n c hn (by simpa using hconn)).2.1
        rw [ha] at hnone
        cases hnone
    · push Not at hkeep
      obtain ⟨k, hk, hrun⟩ := hkeep
      obtain ⟨n, hn⟩ := List.mem_iff_getElem?.mp hk
      have hslots := (h.keeper n k hn hrun).2.2
      cases k with
      | read => rw [hslots.2, ha]
      | closed b | checkConnected b | dropClient b =>
        rw [hslots.2, ← hslots.1, ha]
      | dropRx b | handshake b | install b | recheck | claim | clear =>
        rw [ha] at hslots
        cases hslots.1
      | returned => exact absurd rfl hrun

theorem Shared.alone {s : QuicSlots} (h : Shared s) {n : ℕ} (hlock : s.connectLock = some n) {m : ℕ}
    {c : EnsurePc} (hm : s.calls[m]? = some c) (hc : c.connecting = true) : m = n := by
  have hheld := h.locked m c hm (holds_of_connecting hc)
  rw [hlock] at hheld
  exact (Option.some.inj hheld).symm

/-! ## Steps of calls -/

theorem Shared.moves {s : QuicSlots} (h : Shared s) {n : ℕ} {c c' : EnsurePc}
    (hn : s.calls[n]? = some c) (hc : c.connecting = false) (hc' : c'.connecting = false)
    {lock : Option ℕ} (hlock : ∀ m, m ≠ n → s.connectLock = some m → lock = some m)
    (hheld : c'.holds = true → lock = some n) :
    Shared { s with connectLock := lock, calls := s.calls.set n c' } := by
  have hback : (∀ x ∈ s.calls.set n c', x.connecting = false) →
      ∀ x ∈ s.calls, x.connecting = false := by
    intro hall x hx
    obtain ⟨m, hm⟩ := List.mem_iff_getElem?.mp hx
    by_cases hmn : m = n
    · subst hmn
      rw [hn] at hm
      cases hm
      exact hc
    · exact hall x (List.mem_iff_getElem?.mpr ⟨m, by rw [List.getElem?_set_ne (Ne.symm hmn)]; exact hm⟩)
  refine ⟨fun m x hm hx => ?_, fun m x hm hx => ?_, fun m k hm hk => ?_, fun hkeep hcalls => ?_⟩
  · rcases getElem?_set_eq_some hm with ⟨rfl, rfl⟩ | ⟨hmn, hm⟩
    · exact hheld hx
    · exact hlock m hmn (h.locked m x hm hx)
  · rcases getElem?_set_eq_some hm with ⟨rfl, rfl⟩ | ⟨hmn, hm⟩
    · rw [hc'] at hx
      cases hx
    · exact h.call m x hm hx
  · obtain ⟨hother, hcalls, hslots⟩ := h.keeper m k hm hk
    refine ⟨hother, fun x hx => ?_, hslots⟩
    rcases List.mem_or_eq_of_mem_set hx with hx | rfl
    · exact hcalls x hx
    · exact hc'
  · exact h.free hkeep (hback hcalls)

theorem Shared.connects {s : QuicSlots} (h : Shared s) {n : ℕ} {c : EnsurePc} (c' : EnsurePc)
    (hn : s.calls[n]? = some c) (hlock : s.connectLock = some n)
    (hkeepers : ∀ k ∈ s.keepers, k = .returned) (hclient : s.quicClient = none)
    (hc' : c'.connecting = true) {rx : Option ℕ} (hrx : rx = c'.attempt) (attempts : ℕ) :
    Shared { s with quicRxTx := rx, attempts, calls := s.calls.set n c' } := by
  refine ⟨fun m x hm hx => ?_, fun m x hm hx => ?_, fun m k hm hk => ?_, fun _ hcalls => ?_⟩
  · rcases getElem?_set_eq_some hm with ⟨rfl, rfl⟩ | ⟨hmn, hm⟩
    · exact hlock
    · exact h.locked m x hm hx
  · rcases getElem?_set_eq_some hm with ⟨rfl, rfl⟩ | ⟨hmn, hm⟩
    · exact ⟨hkeepers, hclient, hrx⟩
    · exact absurd (h.alone hlock hm hx) hmn
  · exact absurd (hkeepers k (List.mem_iff_getElem?.mpr ⟨m, hm⟩)) hk
  · obtain ⟨hlt, -⟩ := List.getElem?_eq_some_iff.mp hn
    have hmem : c' ∈ s.calls.set n c' := List.mem_set hlt c'
    rw [hcalls c' hmem] at hc'
    cases hc'

theorem Shared.returned_alone {s : QuicSlots} (h : Shared s) {n : ℕ} (hlock : s.connectLock = some n) :
    ∀ c ∈ s.calls.set n .returned, c.connecting = false := by
  intro c hc
  obtain ⟨m, hm⟩ := List.mem_iff_getElem?.mp hc
  rcases getElem?_set_eq_some hm with ⟨rfl, rfl⟩ | ⟨hmn, hm⟩
  · rfl
  · by_contra hconn
    exact hmn (h.alone hlock hm (by simpa using hconn))

theorem Shared.unlocks {s : QuicSlots} (h : Shared s) {n : ℕ} (hlock : s.connectLock = some n) {m : ℕ}
    {c : EnsurePc} (hm : (s.calls.set n .returned)[m]? = some c) : c.holds = false := by
  rcases getElem?_set_eq_some hm with ⟨rfl, rfl⟩ | ⟨hmn, hm⟩
  · rfl
  · by_contra hholds
    have hheld := h.locked m c hm (by simpa using hholds)
    rw [hlock] at hheld
    exact hmn (Option.some.inj hheld).symm

theorem Shared.givesUp {s : QuicSlots} (h : Shared s) {n : ℕ} (hlock : s.connectLock = some n)
    (hkeepers : ∀ k ∈ s.keepers, k = .returned) (hclient : s.quicClient = none)
    (hrx : s.quicRxTx = none) :
    Shared { s with connectLock := none, calls := s.calls.set n .returned } := by
  refine ⟨fun m x hm hx => ?_, fun m x hm hx => ?_, fun m k hm hk => ?_, fun _ _ => ?_⟩
  · rw [h.unlocks hlock hm] at hx
    cases hx
  · rw [h.returned_alone hlock x (List.mem_iff_getElem?.mpr ⟨m, hm⟩)] at hx
    cases hx
  · exact absurd (hkeepers k (List.mem_iff_getElem?.mpr ⟨m, hm⟩)) hk
  · rw [hrx, hclient]

theorem Shared.installs {s : QuicSlots} (h : Shared s) {n a : ℕ} (hlock : s.connectLock = some n)
    (hkeepers : ∀ k ∈ s.keepers, k = .returned) (hrx : s.quicRxTx = some a) :
    Shared
      { s with
        quicClient := some a, connectLock := none, keepers := s.keepers ++ [.read]
        calls := s.calls.set n .returned } := by
  have hnew : ∀ {m : ℕ} {k : WatchPc}, (s.keepers ++ [.read])[m]? = some k → k ≠ .returned →
      m = s.keepers.length ∧ k = .read := by
    intro m k hm hk
    by_cases hlt : m < s.keepers.length
    · rw [List.getElem?_append_left hlt] at hm
      exact absurd (hkeepers k (List.mem_iff_getElem?.mpr ⟨m, hm⟩)) hk
    · rw [List.getElem?_append_right (by omega)] at hm
      obtain ⟨hidx, hread⟩ := List.getElem?_eq_some_iff.mp hm
      have hzero : m - s.keepers.length = 0 := by simpa using hidx
      have hk' : k ∈ [WatchPc.read] := List.mem_iff_getElem?.mpr ⟨_, hm⟩
      exact ⟨by omega, List.mem_singleton.mp hk'⟩
  refine ⟨fun m x hm hx => ?_, fun m x hm hx => ?_, fun m k hm hk => ?_, fun hkeep _ => ?_⟩
  · rw [h.unlocks hlock hm] at hx
    cases hx
  · rw [h.returned_alone hlock x (List.mem_iff_getElem?.mpr ⟨m, hm⟩)] at hx
    cases hx
  · obtain ⟨hlast, rfl⟩ := hnew hm hk
    refine ⟨fun m' k' hm' hk' => ?_, h.returned_alone hlock, by simp, hrx⟩
    by_contra hrun
    exact hm' ((hnew hk' hrun).1.trans hlast.symm)
  · have hread := hkeep .read (by simp)
    cases hread

theorem Shared.callStep {s : QuicSlots} (h : Shared s) {n : ℕ} {ok : Bool}
    (hord : Orderly s (.call n ok)) : Shared (s.callStep n ok) := by
  unfold QuicSlots.callStep
  split
  · rename_i c hn
    cases c with
    | check =>
      simp only [ensureStep]
      split <;> exact h.moves hn rfl rfl (fun _ _ hm => hm) (by simp [EnsurePc.holds])
    | lock =>
      simp only [ensureStep]
      split
      · exact h.moves hn rfl rfl (fun _ _ hm => hm) (by simp [EnsurePc.holds])
      · rename_i hfree
        refine h.moves hn rfl rfl (fun m _ hm => ?_) fun _ => rfl
        rw [hm] at hfree
        exact absurd rfl hfree
    | recheck =>
      have hlock := h.locked n _ hn rfl
      have halone : ∀ m, m ≠ n → s.connectLock = some m → none = some m := by
        intro m hmn hm
        rw [hlock] at hm
        exact absurd (Option.some.inj hm).symm hmn
      simp only [ensureStep]
      split
      · exact h.moves hn rfl rfl halone (by simp [EnsurePc.holds])
      · rename_i hclient
        -- Nobody else is connecting and no keeper runs, so the slots are free, and both empty.
        have hclient' : s.quicClient = none := by simpa using hclient
        have hkeepers := hord hn hclient'
        have hcalls : ∀ c ∈ s.calls, c.connecting = false := by
          intro c hc
          obtain ⟨m, hm⟩ := List.mem_iff_getElem?.mp hc
          by_contra hconn
          have hmn := h.alone hlock hm (by simpa using hconn)
          subst hmn
          rw [hn] at hm
          cases hm
          exact hconn rfl
        have hrx : s.quicRxTx = none := by rw [h.free hkeepers hcalls, hclient']
        exact h.connects .connected hn hlock hkeepers hclient' rfl hrx s.attempts
    | connected =>
      have hlock := h.locked n _ hn rfl
      obtain ⟨hkeepers, hclient, hrx⟩ := h.call n _ hn rfl
      simp only [ensureStep]
      split
      · exact h.givesUp hlock hkeepers hclient hrx
      · exact h.connects .claim hn hlock hkeepers hclient rfl hrx s.attempts
    | claim =>
      have hlock := h.locked n _ hn rfl
      obtain ⟨hkeepers, hclient, hrx⟩ := h.call n _ hn rfl
      simp only [ensureStep]
      split
      · exact h.connects .connected hn hlock hkeepers hclient rfl hrx s.attempts
      · exact h.connects (.handshake s.attempts) hn hlock hkeepers hclient rfl rfl _
    | handshake attempt =>
      have hlock := h.locked n _ hn rfl
      obtain ⟨hkeepers, hclient, hrx⟩ := h.call n _ hn rfl
      simp only [ensureStep]
      split
      · exact h.connects (.install attempt) hn hlock hkeepers hclient rfl hrx s.attempts
      · exact h.connects .connected hn hlock hkeepers hclient rfl rfl s.attempts
    | install attempt =>
      have hlock := h.locked n _ hn rfl
      obtain ⟨hkeepers, -, hrx⟩ := h.call n _ hn rfl
      exact h.installs hlock hkeepers hrx
    | returned => exact h.moves hn rfl rfl (fun _ _ hm => hm) (by simp [EnsurePc.holds])
  · exact h

/-! ## Steps of keepers -/

theorem Shared.keeps {s : QuicSlots} (h : Shared s) {n : ℕ} {k k' : WatchPc}
    (hn : s.keepers[n]? = some k) (hk : k ≠ .returned) {client rx : Option ℕ}
    (hslots : k'.Slots client rx) (attempts : ℕ) :
    Shared
      { s with
        quicClient := client, quicRxTx := rx, attempts, keepers := s.keepers.set n k' } := by
  obtain ⟨hother, hcalls, -⟩ := h.keeper n k hn hk
  refine ⟨h.locked, fun m x hm hx => ?_, fun m x hm hx => ?_, fun hkeep _ => ?_⟩
  · rw [hcalls x (List.mem_iff_getElem?.mpr ⟨m, hm⟩)] at hx
    cases hx
  · rcases getElem?_set_eq_some hm with ⟨rfl, rfl⟩ | ⟨hmn, hm⟩
    · refine ⟨fun m' k'' hm' hk'' => ?_, hcalls, hslots⟩
      rcases getElem?_set_eq_some hk'' with ⟨heq, -⟩ | ⟨-, hk''⟩
      · exact absurd heq hm'
      · exact hother m' k'' hm' hk''
    · exact absurd (hother m x hmn hm) hx
  · obtain ⟨hlt, -⟩ := List.getElem?_eq_some_iff.mp hn
    have hret := hkeep k' (List.mem_set hlt k')
    subst hret
    exact hslots

theorem Shared.keeperStep {s : QuicSlots} (h : Shared s) (n : ℕ) (ok : Bool) :
    Shared (s.keeperStep n ok) := by
  unfold QuicSlots.keeperStep
  split
  · rename_i k hn
    by_cases hk : k = .returned
    · subst hk
      have hsame : s.keepers.set n .returned = s.keepers := by
        obtain ⟨hlt, hget⟩ := List.getElem?_eq_some_iff.mp hn
        rw [← hget, List.set_getElem_self]
      simp only [watchStep, hsame]
      exact h
    have hslots := (h.keeper n k hn hk).2.2
    have hkeeps : ∀ {k' : WatchPc} {client rx : Option ℕ}, k'.Slots client rx → ∀ attempts,
        Shared { s with quicClient := client, quicRxTx := rx, attempts, keepers := s.keepers.set n k' } :=
      fun hs attempts => h.keeps hn hk hs attempts
    cases k with
    | read =>
      simp only [watchStep]
      cases hc : s.quicClient with
      | none => exact absurd hc hslots.1
      | some a =>
        have hrx : s.quicRxTx = some a := hslots.2.trans hc
        have hnext := @hkeeps (.closed a) s.quicClient s.quicRxTx ⟨hc, hrx⟩ s.attempts
        rw [hc] at hnext
        simpa [hc] using hnext
    | closed a => exact @hkeeps (.checkConnected a) s.quicClient s.quicRxTx hslots s.attempts
    | checkConnected a =>
      simp only [watchStep]
      split
      · exact @hkeeps (.dropClient a) s.quicClient s.quicRxTx hslots s.attempts
      · exact @hkeeps .returned s.quicClient s.quicRxTx (hslots.2.trans hslots.1.symm) s.attempts
    | dropClient a => exact @hkeeps (.dropRx a) none s.quicRxTx ⟨rfl, hslots.2⟩ s.attempts
    | dropRx a => exact @hkeeps .recheck s.quicClient none ⟨hslots.1, rfl⟩ s.attempts
    | recheck =>
      simp only [watchStep]
      split
      · exact @hkeeps .claim s.quicClient s.quicRxTx hslots s.attempts
      · exact @hkeeps .returned s.quicClient s.quicRxTx (hslots.2.trans hslots.1.symm) s.attempts
    | claim =>
      simp only [watchStep]
      split
      · exact @hkeeps .clear s.quicClient s.quicRxTx hslots s.attempts
      · exact @hkeeps (.handshake s.attempts) s.quicClient _ ⟨hslots.1, rfl⟩ _
    | handshake a =>
      simp only [watchStep]
      split
      · exact @hkeeps (.install a) s.quicClient s.quicRxTx hslots s.attempts
      · exact @hkeeps .clear s.quicClient none ⟨hslots.1, rfl⟩ s.attempts
    | install a => exact @hkeeps .read (some a) s.quicRxTx ⟨by simp, hslots.2⟩ s.attempts
    | clear => exact @hkeeps .recheck s.quicClient none ⟨hslots.1, rfl⟩ s.attempts
    | returned => exact absurd rfl hk
  · exact h

/-! ## Who writes the slot -/

/-- A step of a call changes a sender in the slot only if it is that of its own attempt. -/
theorem Shared.call_writes {s : QuicSlots} (h : Shared s) (n : ℕ) (ok : Bool) :
    OwnerWrites s (.call n ok) := by
  intro a ha hne
  simp only [step, QuicSlots.callStep] at hne
  split at hne
  · rename_i c hn
    refine ⟨.call n, rfl, c, hn, ?_⟩
    cases c with
    | claim =>
      simp only [ensureStep] at hne
      split at hne
      · exact absurd ha hne
      · rename_i hfree
        rw [ha] at hfree
        exact absurd rfl hfree
    | handshake attempt =>
      have hrx := (h.call n _ hn rfl).2.2
      rw [← hrx, ha]
    | lock | recheck | connected =>
      simp only [ensureStep] at hne
      split at hne <;> exact absurd ha hne
    | check | install attempt | returned => exact absurd ha hne
  · exact absurd ha hne

theorem Shared.keeper_writes {s : QuicSlots} (h : Shared s) (n : ℕ) (ok : Bool) :
    OwnerWrites s (.keeper n ok) := by
  intro a ha hne
  simp only [step, QuicSlots.keeperStep] at hne
  split at hne
  · rename_i k hn
    refine ⟨.keeper n, rfl, k, hn, ?_⟩
    have hslots : k ≠ .returned → k.Slots s.quicClient s.quicRxTx := fun hk => (h.keeper n k hn hk).2.2
    cases k with
    | dropRx client => rw [← ha, (hslots (by simp)).2, WatchPc.attempt]
    | handshake attempt => rw [← ha, (hslots (by simp)).2, WatchPc.attempt]
    | clear =>
      rw [(hslots (by simp)).2] at ha
      cases ha
    | claim =>
      rw [(hslots (by simp)).2] at ha
      cases ha
    | _ => exact absurd ha hne
  · exact absurd ha hne

theorem Shared.enter {s : QuicSlots} (h : Shared s) : Shared { s with calls := s.calls ++ [.check] } := by
  have hold : ∀ {n : ℕ} {c : EnsurePc}, (s.calls ++ [.check])[n]? = some c → c.holds = true →
      s.calls[n]? = some c := by
    intro n c hn hc
    rw [List.getElem?_append] at hn
    split at hn
    · exact hn
    · rw [List.mem_singleton.mp (List.mem_of_getElem? hn)] at hc
      cases hc
  refine ⟨fun n c hn hc => h.locked n c (hold hn hc) hc,
    fun n c hn hc => h.call n c (hold hn (holds_of_connecting hc)) hc, fun n k hn hk => ?_,
    fun hkeep hcalls => h.free hkeep fun c hc => hcalls c (List.mem_append_left _ hc)⟩
  obtain ⟨hother, hcalls, hslots⟩ := h.keeper n k hn hk
  refine ⟨hother, fun c hc => ?_, hslots⟩
  rcases List.mem_append.mp hc with hc | hc
  · exact hcalls c hc
  · rw [List.mem_singleton.mp hc]
    rfl

theorem Shared.step {s : QuicSlots} {m : QuicMove} (hord : Orderly s m) (h : Shared s) :
    Shared (s.step m) ∧ OwnerWrites s m := by
  cases m with
  | ensure => exact ⟨h.enter, fun a ha hne => absurd ha hne⟩
  | call n ok => exact ⟨h.callStep hord, h.call_writes n ok⟩
  | keeper n ok => exact ⟨h.keeperStep n ok, h.keeper_writes n ok⟩
  | connected b => exact ⟨⟨h.locked, h.call, h.keeper, h.free⟩, fun a ha hne => absurd ha hne⟩

theorem Shared.start (connected : Bool) : Shared { connected } :=
  ⟨by simp, by simp, by simp, fun _ _ => rfl⟩

/-- In a run in which no call connects past a keeper at work, the slot has one owner throughout. -/
theorem quic_slot_owned (connected : Bool) (ms : List QuicMove)
    (h : Along step Orderly { connected } ms) :
    Along step OwnerWrites { connected } ms ∧ SingleOwner (QuicSlots.run { connected } ms) := by
  constructor
  · exact h.imp (fun _ _ hord hs => hs.step hord) (Shared.start connected)
  · have hall : Shared (ms.foldl step { connected }) :=
      h.invariant (fun _ _ hord hs => (hs.step hord).1) (Shared.start connected)
    exact hall.singleOwner

/-- The client comes up, its connection closes, and the keeper brings up another. -/
def reconnectRun : List QuicMove :=
  QuicMove.ensure :: List.replicate 7 (QuicMove.call 0 true) ++ List.replicate 9 (QuicMove.keeper 0 true) ++
    [QuicMove.ensure, .call 1 true]

theorem quic_slot_owned_reconnect : Along step Orderly {} reconnectRun ∧
    (QuicSlots.run {} reconnectRun).quicClient = some 1 ∧
      SingleOwner (QuicSlots.run {} reconnectRun) :=
  ⟨by decide, by decide, (quic_slot_owned true reconnectRun (by decide)).2⟩

/-- A second call connects while the keeper has dropped the closed client and not dialled yet. The
keeper finds the slot taken, clears it, and the call installs a client nothing feeds. -/
def racedReconnect : List QuicMove :=
  QuicMove.ensure :: List.replicate 7 (QuicMove.call 0 true) ++ List.replicate 5 (QuicMove.keeper 0 true) ++
    QuicMove.ensure :: List.replicate 5 (QuicMove.call 1 true) ++ List.replicate 3 (QuicMove.keeper 0 true) ++
    List.replicate 2 (QuicMove.call 1 true)

theorem reconnect_race_loses_slot :
    ¬ SingleOwner (QuicSlots.run {} racedReconnect) ∧
      ¬ OwnerWrites (QuicSlots.run {} (racedReconnect.take 21)) (.keeper 0 true) ∧
      (QuicSlots.run {} racedReconnect).quicClient = some 1 ∧
      (QuicSlots.run {} racedReconnect).onQuic = none ∧
      (QuicSlots.run {} racedReconnect).keepers = [.recheck, .read] := by
  refine ⟨fun h => ?_, fun h => ?_, by decide, by decide, by decide⟩
  · have htwo := h.keepers 0 1 .recheck .read (by decide) (by decide) (by decide) (by decide)
    cases htwo
  · -- The keeper is at `clear` and owns nothing; the sender is that of attempt 1.
    obtain ⟨p, hp, howns⟩ := h 1 (by decide) (by decide)
    obtain rfl : Party.keeper 0 = p := by simpa [QuicMove.party] using hp
    obtain ⟨k, hk, hattempt⟩ := howns
    obtain rfl : WatchPc.clear = k := Option.some.inj (by rw [← hk]; decide)
    cases hattempt

end QuicSlots

end BaleVpn.Tunnel
