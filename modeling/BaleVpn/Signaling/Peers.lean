import Mathlib.Logic.Function.Basic
import BaleVpn.Lib.Decimal
import BaleVpn.Lib.Machine
import BaleVpn.Lib.Update

/-!
# Peer handles (`signaling.rs`, `peer.rs`, `lk-signaling`)

A `PeerId` is an `Arc`, and two are equal when they point to the same allocation. `intern_peer` looks the
uid up and mints under the lock of the cache; callers interleave at every step outside and inside of it. The
cache keeps what it holds alive, so the address of a handed-out peer is never given to another.
-/

namespace BaleVpn.Signaling

open Lib

/-- `i32::to_string`. -/
def i32ToString (v : Int32) : String := toString v.toInt

/-- `parse::<i32>`. -/
def parseI32 (s : String) : Option Int32 :=
  (readInt Int32.minValue.toInt Int32.maxValue.toInt s.toList).map Int32.ofInt

theorem parseI32_i32ToString (v : Int32) : parseI32 (i32ToString v) = some v := by
  have hread : readInt Int32.minValue.toInt Int32.maxValue.toInt (toString v.toInt).toList = some v.toInt :=
    readInt_toString (by decide) (by decide) ⟨v.minValue_le_toInt, v.toInt_le⟩
  rw [parseI32, i32ToString, hread, Option.map_some, Int32.ofInt_toInt]

structure BalePeer where
  uid : Int32
  accessHash : Int64
  displayName : Option String
  idStrCache : String
  deriving DecidableEq, Repr

def BalePeer.new (uid : Int32) (accessHash : Int64) (displayName : Option String) : BalePeer :=
  ⟨uid, accessHash, displayName, i32ToString uid⟩

def BalePeer.idStr (b : BalePeer) : String := b.idStrCache

/-- `PeerId` with its `PartialEq`: `Arc::ptr_eq`. -/
structure PeerId where
  addr : ℕ
  deriving DecidableEq, Repr

/-- What `Hash for PeerId` feeds to the hasher. -/
def PeerId.hashed (p : PeerId) : ℕ := p.addr

/-! ## The calls -/

structure InternArgs where
  uid : Int32
  accessHash : Int64
  displayName : Option String
  deriving DecidableEq, Repr

/-- What calls `intern_peer`. -/
inductive PeerSource
  | whoami (uid : Int32) (name : Option String)
  /-- One user of `list_contacts` or of `search_contact_by_phone`. -/
  | contact (id : Int32) (accessHash : Int64) (displayName : String)
  | incoming (callerId : Int64)
  | resolve (s : String)
  deriving DecidableEq, Repr

/-- The arguments of its call, if it makes one. -/
def PeerSource.args : PeerSource → Option InternArgs
  | .whoami uid name => some ⟨uid, 0, name⟩
  | .contact id accessHash displayName => some ⟨id, accessHash, some displayName⟩
  | .incoming callerId =>
    if callerId = 0 then none
    else if callerId > Int32.maxValue.toInt64 ∨ callerId < 0 then none
    else some ⟨callerId.toInt32, 0, none⟩
  | .resolve s => (parseI32 s).map (⟨·, 0, none⟩)

/-- Where a call of `intern_peer` stands. -/
inductive Point
  | entry
  /-- The name is in the name cache. -/
  | named
  /-- Under the lock, before the lookup. -/
  | locked
  /-- Under the lock, with a new peer that is not in the cache yet. -/
  | minted (p : PeerId)
  | returned (p : PeerId)
  deriving DecidableEq, Repr

structure InternCall where
  args : InternArgs
  point : Point := .entry
  deriving DecidableEq, Repr

/-- `BaleSignaling`, as far as `intern_peer` goes, with the peers by their addresses. -/
structure PeerCache where
  heap : ℕ → Option BalePeer := fun _ => none
  cache : Int32 → Option PeerId := fun _ => none
  nameCache : Int32 → Option (Option String) := fun _ => none
  lock : Option ℕ := none
  calls : List InternCall := []

namespace PeerCache

/-- `ws.populate_names` with the one name of `intern_peer`, if it has one. -/
def populateNames (names : Int32 → Option (Option String)) (args : InternArgs) :
    Int32 → Option (Option String) :=
  match args.displayName with
  | some name =>
    if name.isEmpty ∨ args.uid ≤ 0 then names else Function.update names args.uid (some (some name))
  | none => names

def setPoint (s : PeerCache) (i : ℕ) (point : Point) : PeerCache :=
  { s with calls := s.calls.modify i fun c => { c with point } }

inductive Move
  | call (src : PeerSource)
  /-- The next step of the `i`-th call; `addr` is where a new peer is allocated. -/
  | step (i addr : ℕ)
  deriving DecidableEq, Repr

/-- A step of a call. A call that waits for the lock, or an address in use, leaves the state as it is. -/
def advance (s : PeerCache) (i addr : ℕ) (c : InternCall) : PeerCache :=
  match c.point with
  | .entry => { s.setPoint i .named with nameCache := populateNames s.nameCache c.args }
  | .named =>
    match s.lock with
    | none => { s.setPoint i .locked with lock := some i }
    | some _ => s
  | .locked =>
    match s.cache c.args.uid with
    | some existing => { s.setPoint i (.returned existing) with lock := none }
    | none =>
      match s.heap addr with
      | some _ => s
      | none =>
        let peer := BalePeer.new c.args.uid c.args.accessHash c.args.displayName
        { s.setPoint i (.minted ⟨addr⟩) with heap := Function.update s.heap addr (some peer) }
  | .minted p =>
    { s.setPoint i (.returned p) with cache := Function.update s.cache c.args.uid (some p), lock := none }
  | .returned _ => s

def move (s : PeerCache) : Move → PeerCache
  | .call src =>
    match src.args with
    | some args => { s with calls := s.calls ++ [{ args }] }
    | none => s
  | .step i addr =>
    match s.calls[i]? with
    | some c => s.advance i addr c
    | none => s

def new : PeerCache := {}

/-- The `i`-th call returned `p`. -/
def Returned (s : PeerCache) (i : ℕ) (p : PeerId) : Prop := ∃ c, s.calls[i]? = some c ∧ c.point = .returned p

def HandedOut (s : PeerCache) (p : PeerId) : Prop := ∃ i, s.Returned i p

/-! ## The invariant -/

/-- The peer at the address is the one of the uid. -/
def Holds (s : PeerCache) (uid : Int32) (p : PeerId) : Prop :=
  ∃ b, s.heap p.addr = some b ∧ b.uid = uid ∧ b.idStr = i32ToString uid

/-- What a call knows by its point. -/
def Knows (s : PeerCache) (i : ℕ) (c : InternCall) : Prop :=
  match c.point with
  | .entry | .named => s.lock ≠ some i
  | .locked => s.lock = some i
  | .minted p => s.lock = some i ∧ s.cache c.args.uid = none ∧ s.Holds c.args.uid p ∧
      ∀ uid, s.cache uid ≠ some p
  | .returned p => s.lock ≠ some i ∧ s.cache c.args.uid = some p

structure Canonical (s : PeerCache) : Prop where
  cached : ∀ uid p, s.cache uid = some p → s.Holds uid p
  calls : ∀ i c, s.calls[i]? = some c → s.Knows i c
  owner : ∀ i, s.lock = some i → i < s.calls.length
  /-- The allocator has an address left. -/
  room : ∃ n, ∀ addr, n ≤ addr → s.heap addr = none

theorem Canonical.new : PeerCache.new.Canonical where
  cached := nofun
  calls := nofun
  owner := nofun
  room := ⟨0, fun _ _ => rfl⟩

variable {s s' : PeerCache} {i : ℕ} {c : InternCall}

theorem Knows.other {j : ℕ} (hji : j ≠ i) (hlock : s.lock = none ∨ s.lock = some i)
    (hlock' : s'.lock = none ∨ s'.lock = some i)
    (hcache : ∀ uid p, s.cache uid = some p → s'.cache uid = some p) (h : s.Knows j c) : s'.Knows j c := by
  have hfree : s.lock ≠ some j := by
    rcases hlock with hl | hl <;> rw [hl] <;> simp [Ne.symm hji]
  have hfree' : s'.lock ≠ some j := by
    rcases hlock' with hl | hl <;> rw [hl] <;> simp [Ne.symm hji]
  unfold Knows at h ⊢
  cases hc : c.point with
  | entry => exact hfree'
  | named => exact hfree'
  | locked =>
    simp only [hc] at h
    exact absurd h hfree
  | minted p =>
    simp only [hc] at h
    exact absurd h.1 hfree
  | returned p =>
    simp only [hc] at h
    exact ⟨hfree', hcache _ p h.2⟩

theorem knows_setPoint (h : s.Canonical) (hi : s.calls[i]? = some c) {point : Point}
    (hcalls : s'.calls = (s.setPoint i point).calls)
    (hother : ∀ j d, j ≠ i → s.Knows j d → s'.Knows j d) (hself : s'.Knows i { c with point }) :
    ∀ j d, s'.calls[j]? = some d → s'.Knows j d := by
  intro j d hj
  rw [hcalls] at hj
  obtain ⟨rfl, rfl⟩ | ⟨hji, hj'⟩ := getElem?_modify_cases hi hj
  · exact hself
  · exact hother j d hji (h.calls j d hj')

theorem Canonical.advance (h : s.Canonical) (addr : ℕ) (hi : s.calls[i]? = some c) :
    (s.advance i addr c).Canonical := by
  have hknows := h.calls i c hi
  have hlt := (List.getElem?_eq_some_iff.mp hi).1
  unfold PeerCache.advance
  unfold Knows at hknows
  cases hc : c.point with
  | entry =>
    simp only [hc] at hknows ⊢
    refine ⟨h.cached, knows_setPoint h hi rfl (fun j d _ hd => hd) hknows, ?_, h.room⟩
    intro j hj
    exact Nat.lt_of_lt_of_le (h.owner j hj) (by simp [setPoint])
  | named =>
    simp only [hc] at hknows ⊢
    cases hlock : s.lock with
    | some k => exact h
    | none =>
      simp only
      refine ⟨h.cached, knows_setPoint h hi rfl ?_ rfl, ?_, h.room⟩
      · exact fun j d hji => Knows.other hji (.inl hlock) (.inr rfl) fun _ _ hp => hp
      · rintro j hj
        obtain rfl := Option.some.inj hj
        simpa [setPoint] using hlt
  | locked =>
    simp only [hc] at hknows ⊢
    cases hexisting : s.cache c.args.uid with
    | some existing =>
      simp only
      refine ⟨h.cached, knows_setPoint h hi rfl ?_ ⟨nofun, hexisting⟩, nofun, h.room⟩
      exact fun j d hji => Knows.other hji (.inr hknows) (.inl rfl) fun _ _ hp => hp
    | none =>
      cases haddr : s.heap addr with
      | some b => exact h
      | none =>
        simp only
        have hkeep {uid : Int32} {p : PeerId} (hp : s.cache uid = some p) : p.addr ≠ addr := by
          obtain ⟨b, hb, -⟩ := h.cached uid p hp
          rintro rfl
          cases haddr.symm.trans hb
        refine ⟨?_, knows_setPoint h hi rfl ?_ ?_, ?_, ?_⟩
        · intro uid p hp
          obtain ⟨b, hb, hrest⟩ := h.cached uid p hp
          exact ⟨b, (Function.update_of_ne (hkeep hp) _ _).trans hb, hrest⟩
        · exact fun j d hji => Knows.other hji (.inr hknows) (.inr hknows) fun _ _ hp => hp
        · refine ⟨hknows, hexisting, ⟨_, Function.update_self .., rfl, rfl⟩, fun uid hp => ?_⟩
          exact hkeep hp rfl
        · intro j hj
          exact Nat.lt_of_lt_of_le (h.owner j hj) (by simp [setPoint])
        · obtain ⟨n, hn⟩ := h.room
          refine ⟨max n (addr + 1), fun a ha => ?_⟩
          have hne : a ≠ addr := by
            omega
          exact (Function.update_of_ne hne _ _).trans (hn a (by omega))
  | minted p =>
    simp only [hc] at hknows ⊢
    obtain ⟨hlock, hmiss, hholds, -⟩ := hknows
    refine ⟨?_, knows_setPoint h hi rfl ?_ ⟨nofun, Function.update_self ..⟩, nofun, h.room⟩
    · intro uid q hq
      change Function.update s.cache c.args.uid (some p) uid = some q at hq
      by_cases huid : uid = c.args.uid
      · subst huid
        rw [Function.update_self] at hq
        obtain rfl := Option.some.inj hq
        exact hholds
      · rw [Function.update_of_ne huid] at hq
        exact h.cached uid q hq
    · refine fun j d hji => Knows.other hji (.inr hlock) (.inl rfl) fun uid q hq => ?_
      have huid : uid ≠ c.args.uid := by
        rintro rfl
        cases hmiss.symm.trans hq
      exact (Function.update_of_ne huid _ _).trans hq
  | returned p => exact h

theorem Canonical.move (h : s.Canonical) (m : Move) : (s.move m).Canonical := by
  cases m with
  | call src =>
    simp only [PeerCache.move]
    cases hsrc : src.args with
    | none => exact h
    | some args =>
      refine ⟨h.cached, fun j d hj => ?_, fun j hj => ?_, h.room⟩
      · rcases getElem?_concat_eq_some hj with hj | ⟨rfl, rfl⟩
        · exact h.calls j d hj
        · exact fun hlock => absurd (h.owner _ hlock) (Nat.lt_irrefl _)
      · have hlt := h.owner j hj
        simp only [List.length_append, List.length_singleton]
        omega
  | step i addr =>
    simp only [PeerCache.move]
    cases hi : s.calls[i]? with
    | none => exact h
    | some c => exact h.advance addr hi

theorem canonical_of_run (ms : List Move) : (ms.foldl move PeerCache.new).Canonical :=
  foldl_invariant (fun _ m h => h.move m) ms Canonical.new

/-! ## What stays -/

theorem advance_cache (h : s.Canonical) (addr : ℕ) (hi : s.calls[i]? = some c) {uid : Int32} {p : PeerId}
    (hp : s.cache uid = some p) : (s.advance i addr c).cache uid = some p := by
  have hknows := h.calls i c hi
  unfold Knows at hknows
  unfold advance
  cases hc : c.point with
  | entry => exact hp
  | named => cases hlock : s.lock <;> exact hp
  | locked =>
    simp only
    cases s.cache c.args.uid with
    | some existing => exact hp
    | none => cases s.heap addr <;> exact hp
  | minted q =>
    simp only [hc] at hknows
    have huid : uid ≠ c.args.uid := by
      rintro rfl
      cases hknows.2.1.symm.trans hp
    exact (Function.update_of_ne huid _ _).trans hp
  | returned q => exact hp

theorem advance_calls (s : PeerCache) (i addr : ℕ) (c : InternCall) :
    (s.advance i addr c).calls = s.calls ∨ ∃ point, (s.advance i addr c).calls = (s.setPoint i point).calls := by
  unfold advance
  cases c.point with
  | entry => exact .inr ⟨_, rfl⟩
  | named =>
    cases s.lock with
    | none => exact .inr ⟨_, rfl⟩
    | some k => exact .inl rfl
  | locked =>
    simp only
    cases s.cache c.args.uid with
    | some existing => exact .inr ⟨_, rfl⟩
    | none =>
      cases s.heap addr with
      | none => exact .inr ⟨_, rfl⟩
      | some b => exact .inl rfl
  | minted p => exact .inr ⟨_, rfl⟩
  | returned p => exact .inl rfl

/-- The `i`-th call is for `uid`, whose peer is `p`. -/
def For (s : PeerCache) (i : ℕ) (uid : Int32) (p : PeerId) : Prop :=
  s.cache uid = some p ∧ ∃ c, s.calls[i]? = some c ∧ c.args.uid = uid

theorem For.move (h : s.Canonical) {uid : Int32} {p : PeerId} (hfor : s.For i uid p) (m : Move) :
    (s.move m).For i uid p := by
  obtain ⟨hp, c, hi, huid⟩ := hfor
  cases m with
  | call src =>
    simp only [PeerCache.move]
    cases src.args with
    | none => exact ⟨hp, c, hi, huid⟩
    | some args => exact ⟨hp, c, getElem?_concat_of_eq_some hi _, huid⟩
  | step j addr =>
    simp only [PeerCache.move]
    cases hj : s.calls[j]? with
    | none => exact ⟨hp, c, hi, huid⟩
    | some d =>
      refine ⟨advance_cache h addr hj hp, ?_⟩
      rcases s.advance_calls j addr d with hcalls | ⟨point, hcalls⟩
      · exact ⟨c, hcalls ▸ hi, huid⟩
      · refine ⟨if j = i then { c with point } else c, ?_, ?_⟩
        · exact (congrArg (·[i]?) hcalls).trans (getElem?_modify_of_eq_some hi j _)
        · split <;> exact huid

theorem For.run (h : s.Canonical) {uid : Int32} {p : PeerId} (hfor : s.For i uid p) (ms : List Move) :
    (ms.foldl PeerCache.move s).Canonical ∧ (ms.foldl PeerCache.move s).For i uid p :=
  foldl_invariant (I := fun t : PeerCache => t.Canonical ∧ t.For i uid p)
    (fun _ m hs => ⟨hs.1.move m, hs.2.move hs.1 m⟩) ms ⟨h, hfor⟩

/-! ## A call comes to its end -/

theorem getElem?_setPoint_self (hi : s.calls[i]? = some c) (point : Point) :
    (s.setPoint i point).calls[i]? = some { c with point } :=
  (getElem?_modify_of_eq_some hi i _).trans (by rw [if_pos rfl])

theorem getElem?_setPoint_other {j : ℕ} (hij : i ≠ j) (s : PeerCache) (point : Point) :
    (s.setPoint j point).calls[i]? = s.calls[i]? := by
  rw [setPoint, List.getElem?_modify]
  simp [Ne.symm hij]

theorem move_step (hi : s.calls[i]? = some c) (addr : ℕ) : s.move (.step i addr) = s.advance i addr c := by
  rw [move, hi]

theorem advance_minted {p : PeerId} (hc : c.point = .minted p) (s : PeerCache) (addr : ℕ) :
    (s.advance i addr c).lock = none ∧ (s.advance i addr c).calls = (s.setPoint i (.returned p)).calls := by
  simp [advance, hc]

theorem advance_hit {p : PeerId} (hc : c.point = .locked) (hp : s.cache c.args.uid = some p) (addr : ℕ) :
    (s.advance i addr c).lock = none ∧ (s.advance i addr c).calls = (s.setPoint i (.returned p)).calls := by
  simp [advance, hc, hp]

theorem advance_mint {addr : ℕ} (hc : c.point = .locked) (hp : s.cache c.args.uid = none)
    (haddr : s.heap addr = none) :
    (s.advance i addr c).calls = (s.setPoint i (.minted ⟨addr⟩)).calls := by
  simp [advance, hc, hp, haddr]

theorem exists_unlocked (h : s.Canonical) {j : ℕ} (hlock : s.lock = some j) :
    ∃ ms : List Move, (ms.foldl move s).lock = none ∧ ∀ i, i ≠ j → (ms.foldl move s).calls[i]? = s.calls[i]? := by
  obtain ⟨d, hj⟩ : ∃ d, s.calls[j]? = some d := ⟨_, List.getElem?_eq_getElem (h.owner j hlock)⟩
  have hknows := h.calls j d hj
  unfold Knows at hknows
  have hother {t : PeerCache} {point : Point} (ht : t.calls = (s.setPoint j point).calls) (i : ℕ)
      (hij : i ≠ j) : t.calls[i]? = s.calls[i]? := by
    rw [ht, getElem?_setPoint_other hij]
  cases hd : d.point with
  | entry =>
    simp only [hd] at hknows
    exact absurd hlock hknows
  | named =>
    simp only [hd] at hknows
    exact absurd hlock hknows
  | locked =>
    cases hexisting : s.cache d.args.uid with
    | some existing =>
      obtain ⟨hfree, hcalls⟩ := advance_hit (i := j) hd hexisting 0
      rw [← move_step hj] at hfree hcalls
      exact ⟨[.step j 0], hfree, hother hcalls⟩
    | none =>
      obtain ⟨n, hn⟩ := h.room
      have hmint := advance_mint (i := j) hd hexisting (hn n (Nat.le_refl n))
      rw [← move_step hj] at hmint
      have hself : (s.move (.step j n)).calls[j]? = some { d with point := .minted ⟨n⟩ } := by
        rw [hmint, getElem?_setPoint_self hj]
      obtain ⟨hfree, hcalls⟩ := advance_minted (i := j) (c := { d with point := .minted ⟨n⟩ }) rfl
        (s.move (.step j n)) 0
      rw [← move_step hself] at hfree hcalls
      refine ⟨[.step j n, .step j 0], hfree, fun i hij => ?_⟩
      exact (congrArg (·[i]?) hcalls).trans ((getElem?_setPoint_other hij _ _).trans (hother hmint i hij))
  | minted p =>
    obtain ⟨hfree, hcalls⟩ := advance_minted (i := j) hd s 0
    rw [← move_step hj] at hfree hcalls
    exact ⟨[.step j 0], hfree, hother hcalls⟩
  | returned p =>
    simp only [hd] at hknows
    exact absurd hlock hknows.1

theorem exists_returned_of_locked {p : PeerId} (hi : s.calls[i]? = some c) (hc : c.point = .locked)
    (hp : s.cache c.args.uid = some p) : ∃ ms : List Move, (ms.foldl move s).Returned i p := by
  obtain ⟨-, hcalls⟩ := advance_hit (i := i) hc hp 0
  rw [← move_step hi] at hcalls
  exact ⟨[.step i 0], _, (congrArg (·[i]?) hcalls).trans (getElem?_setPoint_self hi _), rfl⟩

theorem exists_returned_of_named {p : PeerId} (h : s.Canonical) (hi : s.calls[i]? = some c)
    (hc : c.point = .named) (hp : s.cache c.args.uid = some p) : ∃ ms : List Move, (ms.foldl move s).Returned i p := by
  -- first whoever holds the lock gives it back
  obtain ⟨ms, hfree, hi', hp'⟩ : ∃ ms : List Move, (ms.foldl move s).lock = none ∧
      (ms.foldl move s).calls[i]? = some c ∧ (ms.foldl move s).cache c.args.uid = some p := by
    cases hlock : s.lock with
    | none => exact ⟨[], hlock, hi, hp⟩
    | some j =>
      have hij : i ≠ j := by
        rintro rfl
        have hknows := h.calls i c hi
        simp only [Knows, hc] at hknows
        exact hknows hlock
      obtain ⟨ms, hfree, hcalls⟩ := exists_unlocked h hlock
      exact ⟨ms, hfree, (hcalls i hij).trans hi, (For.run h ⟨hp, c, hi, rfl⟩ ms).2.1⟩
  have hstep : (ms.foldl move s).move (.step i 0) =
      { (ms.foldl move s).setPoint i .locked with lock := some i } := by
    rw [move_step hi', advance, hc]
    simp only [hfree]
  obtain ⟨ms', hms'⟩ := exists_returned_of_locked (s := (ms.foldl move s).move (.step i 0)) (i := i)
    (c := { c with point := .locked }) (p := p) (by rw [hstep]; exact getElem?_setPoint_self hi' _) rfl
    (by rw [hstep]; exact hp')
  refine ⟨ms ++ .step i 0 :: ms', ?_⟩
  rw [List.foldl_append]
  exact hms'

/-- From anywhere, a call for a uid that has a peer can come to its end. -/
theorem exists_returned (h : s.Canonical) {uid : Int32} {p : PeerId} (hfor : s.For i uid p) :
    ∃ ms : List Move, (ms.foldl move s).Returned i p := by
  obtain ⟨hp, c, hi, rfl⟩ := hfor
  have hknows := h.calls i c hi
  unfold Knows at hknows
  cases hc : c.point with
  | entry =>
    have hstep : s.move (.step i 0) =
        { s.setPoint i .named with nameCache := populateNames s.nameCache c.args } := by
      rw [move_step hi, advance, hc]
    obtain ⟨ms, hms⟩ := exists_returned_of_named (s := s.move (.step i 0)) (i := i)
      (c := { c with point := .named }) (p := p) (h.move _) (by rw [hstep]; exact getElem?_setPoint_self hi _)
      rfl (by rw [hstep]; exact hp)
    exact ⟨.step i 0 :: ms, hms⟩
  | named => exact exists_returned_of_named h hi hc hp
  | locked => exact exists_returned_of_locked hi hc hp
  | minted q =>
    simp only [hc] at hknows
    cases hknows.2.1.symm.trans hp
  | returned q =>
    simp only [hc] at hknows
    obtain rfl := Option.some.inj (hknows.2.symm.trans hp)
    exact ⟨[], c, hi, hc⟩

/-! ## Handles are canonical -/

theorem Canonical.of_returned (h : s.Canonical) {p : PeerId} (hp : s.Returned i p) :
    ∃ uid, s.cache uid = some p ∧ ∀ c, s.calls[i]? = some c → c.args.uid = uid := by
  obtain ⟨c, hi, hc⟩ := hp
  have hknows := h.calls i c hi
  simp only [Knows, hc] at hknows
  refine ⟨c.args.uid, hknows.2, fun d hd => ?_⟩
  rw [Option.some.inj (hd.symm.trans hi)]

/-- Two handed-out peers are equal just when their uids are, and then they hash equally; to resolve the string
of one gives it back, whatever else is under way, and the call does come to its end. -/
theorem peers_canonical (ms : List Move) :
    (∀ p q, (ms.foldl move new).HandedOut p → (ms.foldl move new).HandedOut q →
        ∃ b b', (ms.foldl move new).heap p.addr = some b ∧ (ms.foldl move new).heap q.addr = some b' ∧
          (p = q ↔ b.uid = b'.uid) ∧ (p = q → p.hashed = q.hashed)) ∧
      ∀ p, (ms.foldl move new).HandedOut p → ∃ b, (ms.foldl move new).heap p.addr = some b ∧
        ∀ later : List Move, (∀ q, (later.foldl move ((ms.foldl move new).move (.call (.resolve b.idStr)))).Returned
            (ms.foldl move new).calls.length q → q = p) ∧
          ∃ last : List Move, (last.foldl move (later.foldl move ((ms.foldl move new).move
            (.call (.resolve b.idStr))))).Returned (ms.foldl move new).calls.length p := by
  have h := canonical_of_run ms
  generalize ms.foldl move new = s at h
  constructor
  · rintro p q ⟨i, hp⟩ ⟨j, hq⟩
    obtain ⟨uid, hcache, -⟩ := h.of_returned hp
    obtain ⟨uid', hcache', -⟩ := h.of_returned hq
    obtain ⟨b, hb, huid, -⟩ := h.cached uid p hcache
    obtain ⟨b', hb', huid', -⟩ := h.cached uid' q hcache'
    refine ⟨b, b', hb, hb', ⟨?_, ?_⟩, fun heq => congrArg PeerId.hashed heq⟩
    · rintro rfl
      rw [Option.some.inj (hb.symm.trans hb')]
    · intro heq
      rw [huid, huid'] at heq
      rw [heq] at hcache
      exact Option.some.inj (hcache.symm.trans hcache')
  · rintro p ⟨i, hp⟩
    obtain ⟨uid, hcache, -⟩ := h.of_returned hp
    obtain ⟨b, hb, huid, hstr⟩ := h.cached uid p hcache
    refine ⟨b, hb, fun later => ?_⟩
    have hargs : (PeerSource.resolve b.idStr).args = some ⟨uid, 0, none⟩ := by
      rw [PeerSource.args, hstr, parseI32_i32ToString]
      rfl
    have hcall := h.move (.call (.resolve b.idStr))
    have hfor : (s.move (.call (.resolve b.idStr))).For s.calls.length uid p := by
      simp only [PeerCache.move, hargs]
      exact ⟨hcache, _, List.getElem?_concat_length, rfl⟩
    obtain ⟨hcanonical, hlater⟩ := hfor.run hcall later
    refine ⟨fun q hq => ?_, exists_returned hcanonical hlater⟩
    obtain ⟨uid', hcache', hall⟩ := hcanonical.of_returned hq
    obtain ⟨hcache'', c, hc, rfl⟩ := hlater
    obtain rfl := hall c hc
    exact Option.some.inj (hcache'.symm.trans hcache'')

end PeerCache

end BaleVpn.Signaling
