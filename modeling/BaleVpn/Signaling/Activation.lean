import Mathlib.Algebra.Group.Nat.Defs
import Mathlib.Algebra.Order.Group.Unbundled.Int
import BaleVpn.Lib.Machine
import BaleVpn.Lib.Update

/-!
# The activation gate (`manager.rs`, `ws.rs`)

`ActivationDriver` folds mode, foreground and session count into one wish and pushes it to the
`WsClient`. The inputs are written outside `reconcile_lock`; whoever writes one goes on to `reconcile`.
The pushes are deduplicated against `last_push`, which starts as `false` where the client's
`manager_active` starts as `true`: the two agree from the first `reconcile` on that finds the gate up.
-/

namespace BaleVpn.Signaling

open Lib

/-! ## State -/

inductive Mode
  | client | server
  deriving DecidableEq, Repr

/-- `reconcile`, with the lock held. -/
inductive ReconcilePc
  | mode | foreground | active
  | swap (want : Bool)
  | push (want : Bool)
  deriving DecidableEq, Repr

/-- A call of the driver that has made its first store. -/
inductive DriverPc
  /-- `set_mode` has stored the mode. -/
  | storeActive
  | lock
  | inside
  | returned
  deriving DecidableEq, Repr

/-- The task that `new` spawns. -/
inductive ForegroundPc
  | changed | borrow
  | store (fg : Bool)
  | reconcile (call : ℕ)
  deriving DecidableEq, Repr

structure ActivationDriver where
  serverMode : Bool := false
  foreground : Bool
  active : ℤ := 0
  lastPush : Bool := false
  /-- `reconcile_lock`, with its holder and where that one is. -/
  reconciling : Option (ℕ × ReconcilePc) := none
  calls : List DriverPc := [.lock]
  task : ForegroundPc := .changed
  /-- Of the `WsClient`. -/
  managerActive : Bool := true
  /-- The value in the client's `foreground` channel. -/
  hint : Bool
  /-- The task has not seen the value. -/
  unseen : Bool := false
  deriving Repr

namespace ActivationDriver

/-- The constructor goes on to `reconcile`. -/
def new (fg : Bool) : ActivationDriver := { foreground := fg, hint := fg }

def go (s : ActivationDriver) (i : ℕ) (pc : DriverPc) : ActivationDriver :=
  { s with calls := s.calls.set i pc }

def enter (s : ActivationDriver) (pc : DriverPc) : ActivationDriver := { s with calls := s.calls ++ [pc] }

/-! ## The calls -/

def setMode (s : ActivationDriver) (mode : Mode) : ActivationDriver :=
  { s with serverMode := mode = Mode.server }.enter .storeActive

/-- The addition is that of `i64`. -/
def bumped (cur delta : ℤ) : ℤ := max (Int.bmod (cur + delta) (2 ^ 64)) 0

def bumpSession (s : ActivationDriver) (delta : ℤ) : ActivationDriver :=
  { s with active := bumped s.active delta }.enter .lock

def release (s : ActivationDriver) (i : ℕ) : ActivationDriver := { s with reconciling := none }.go i .returned

def reconcile (s : ActivationDriver) (i : ℕ) : ReconcilePc → ActivationDriver
  | .mode => { s with reconciling := some (i, if s.serverMode then .swap true else .foreground) }
  | .foreground => { s with reconciling := some (i, if s.foreground then .active else .swap false) }
  | .active => { s with reconciling := some (i, .swap (s.active ≤ 0)) }
  | .swap want =>
    if s.lastPush = want then s.release i
    else { s with lastPush := want, reconciling := some (i, .push want) }
  | .push want => { s with managerActive := want }.release i

def step (s : ActivationDriver) (i : ℕ) : ActivationDriver :=
  match s.calls[i]? with
  | some .storeActive => { s with active := 0 }.go i .lock
  | some .lock =>
    match s.reconciling with
    | none => { s with reconciling := some (i, .mode) }.go i .inside
    | some _ => s
  | some .inside =>
    match s.reconciling with
    | some (k, pc) => if k = i then s.reconcile i pc else s
    | none => s
  | some .returned | none => s

/-! ## Foreground -/

/-- `WsClient::set_foreground`. -/
def setForeground (s : ActivationDriver) (fg : Bool) : ActivationDriver :=
  if s.hint = fg then s else { s with hint := fg, unseen := true }

def taskStep (s : ActivationDriver) : ActivationDriver :=
  match s.task with
  | .changed => if s.unseen then { s with unseen := false, task := .borrow } else s
  | .borrow => { s with unseen := false, task := .store s.hint }
  | .store fg => { s with foreground := fg, task := .reconcile s.calls.length }.enter .lock
  | .reconcile call => if s.calls[call]? = some .returned then { s with task := .changed } else s

end ActivationDriver

/-! ## Runs -/

inductive DriverMove
  | setMode (mode : Mode)
  | bumpSession (delta : ℤ)
  | setForeground (fg : Bool)
  | step (i : ℕ)
  | task
  deriving DecidableEq, Repr

namespace ActivationDriver

def move (s : ActivationDriver) : DriverMove → ActivationDriver
  | .setMode mode => s.setMode mode
  | .bumpSession delta => s.bumpSession delta
  | .setForeground fg => s.setForeground fg
  | .step i => s.step i
  | .task => s.taskStep

def run (s : ActivationDriver) (ms : List DriverMove) : ActivationDriver := ms.foldl move s

/-- No call is in progress, and the task waits for a change. -/
structure Quiescent (s : ActivationDriver) : Prop where
  calls : ∀ pc ∈ s.calls, pc = .returned
  task : s.task = .changed
  seen : s.unseen = false

/-- A `reconcile` finds the gate up. -/
def FindsUp (s : ActivationDriver) : DriverMove → Prop
  | .step i =>
    s.calls[i]? = some .inside ∧
      (s.reconciling = some (i, .mode) ∧ s.serverMode = true ∨
        s.reconciling = some (i, .active) ∧ s.active ≤ 0)
  | _ => False

instance (s : ActivationDriver) : (m : DriverMove) → Decidable (FindsUp s m)
  | .step _ => inferInstanceAs (Decidable (_ ∧ _))
  | .setMode _ | .bumpSession _ | .setForeground _ | .task => isFalse id

/-! ## The wish is up to date -/

def want (s : ActivationDriver) : Bool := s.serverMode || (s.foreground && s.active ≤ 0)

end ActivationDriver

/-- It has the lock to take yet. -/
def DriverPc.Due : DriverPc → Bool
  | .storeActive | .lock => true
  | .inside | .returned => false

namespace ActivationDriver

/-- What the holder of the lock knows of the inputs. -/
def Fresh (s : ActivationDriver) : ReconcilePc → Prop
  | .mode => True
  | .foreground => s.serverMode = false
  | .active => s.serverMode = false ∧ s.foreground = true
  | .swap want => want = s.want
  | .push _ => s.lastPush = s.want

/-- What was pushed last is what the inputs ask for, or will be. -/
structure Settled (s : ActivationDriver) : Prop where
  held : ∀ (i : ℕ) (pc : ReconcilePc), s.reconciling = some (i, pc) → Fresh s pc
  free : s.reconciling = none → s.lastPush = s.want

/-- The foreground cell has the value of the channel, or the task is about to store it. -/
def CaughtUp (s : ActivationDriver) : ForegroundPc → Prop
  | .borrow => True
  | .store fg => fg = s.hint
  | .changed | .reconcile _ => s.foreground = s.hint

structure Consistent (s : ActivationDriver) : Prop where
  inside : ∀ (i : ℕ) (pc : ReconcilePc), s.reconciling = some (i, pc) → s.calls[i]? = some .inside
  settled : (∃ pc ∈ s.calls, pc.Due) ∨ Settled s
  nonneg : 0 ≤ s.active
  hint : s.unseen = true ∨ CaughtUp s s.task

namespace Consistent

variable {s : ActivationDriver}

theorem bumped_nonneg (cur delta : ℤ) : 0 ≤ bumped cur delta := le_max_right _ _

theorem enter (h : Consistent s) (s' : ActivationDriver) {pc : DriverPc} (hpc : pc.Due)
    (hcalls : s'.calls = s.calls) (hlock : s'.reconciling = s.reconciling) (hactive : 0 ≤ s'.active)
    (hhint : s'.unseen = true ∨ CaughtUp s' s'.task) : Consistent (s'.enter pc) where
  inside i rpc hr := by
    have hi := h.inside i rpc (hlock ▸ hr)
    rw [← hcalls] at hi
    exact getElem?_concat_of_eq_some hi pc
  settled := .inl ⟨pc, by simp [ActivationDriver.enter], hpc⟩
  nonneg := hactive
  hint := hhint

theorem hold (h : Consistent s) {i : ℕ} {pc : ReconcilePc} (hr : s.reconciling = some (i, pc))
    {pc' : ReconcilePc} {last : Bool}
    (hfresh : Fresh s pc → Fresh { s with lastPush := last, reconciling := some (i, pc') } pc') :
    Consistent { s with lastPush := last, reconciling := some (i, pc') } where
  inside k rpc hk := by
    obtain ⟨rfl, -⟩ := Prod.mk.inj (Option.some.inj hk)
    exact h.inside i pc hr
  settled := by
    obtain hdue | hset := h.settled
    · exact .inl hdue
    · refine .inr ⟨fun k rpc hk => ?_, by simp⟩
      obtain ⟨-, rfl⟩ := Prod.mk.inj (Option.some.inj hk)
      exact hfresh (hset.held i pc hr)
  nonneg := h.nonneg
  hint := h.hint

theorem release (h : Consistent s) {i : ℕ} {pc : ReconcilePc} (hr : s.reconciling = some (i, pc))
    (hfresh : Fresh s pc → s.lastPush = s.want) (flag : Bool) :
    Consistent ({ s with managerActive := flag }.release i) where
  inside k rpc hk := by cases hk
  settled := by
    obtain ⟨dpc, hmem, hdue⟩ | hset := h.settled
    · refine .inl ⟨dpc, ?_, hdue⟩
      obtain ⟨j, hj⟩ := List.mem_iff_getElem?.mp hmem
      have hne : i ≠ j := by
        rintro rfl
        rw [h.inside i pc hr] at hj
        obtain rfl := Option.some.inj hj
        cases hdue
      apply List.mem_of_getElem? (i := j)
      simpa [ActivationDriver.release, go, hne] using hj
    · exact .inr ⟨by simp [ActivationDriver.release, go], fun _ => hfresh (hset.held i pc hr)⟩
  nonneg := h.nonneg
  hint := h.hint

theorem reconcile (h : Consistent s) {i : ℕ} {pc : ReconcilePc} (hr : s.reconciling = some (i, pc)) :
    Consistent (s.reconcile i pc) := by
  cases pc with
  | mode =>
    refine h.hold hr fun _ => ?_
    split
    · next hmode => simp [Fresh, want, hmode]
    · next hmode => simpa [Fresh] using hmode
  | foreground =>
    refine h.hold hr fun hf => ?_
    have hmode : s.serverMode = false := hf
    split
    · next hfg => exact ⟨hmode, hfg⟩
    · next hfg => simpa [Fresh, want, hmode] using fun hup => absurd hup hfg
  | active =>
    refine h.hold hr fun hf => ?_
    obtain ⟨hmode, hfg⟩ := hf
    simp [Fresh, want, hmode, hfg]
  | swap w =>
    rw [ActivationDriver.reconcile]
    split
    · next heq => exact h.release hr (fun hf => heq.trans hf) s.managerActive
    · exact h.hold hr fun hf => hf
  | push w => exact h.release hr (fun hf => hf) w

theorem step (h : Consistent s) (i : ℕ) : Consistent (s.step i) := by
  unfold ActivationDriver.step
  split
  · next hi =>
    refine ⟨fun k pc hk => ?_, .inl ⟨.lock, ?_, rfl⟩, le_refl 0, h.hint⟩
    · have hinside := h.inside k pc hk
      have hne : i ≠ k := by
        rintro rfl
        rw [hi] at hinside
        cases hinside
      simpa [go, hne] using hinside
    · exact List.mem_set (List.getElem?_eq_some_iff.mp hi).1 _
  · next hi =>
    split
    · next hfree =>
      refine ⟨fun k pc hk => ?_, .inr ⟨fun k pc hk => ?_, by simp [go]⟩, h.nonneg, h.hint⟩
      · obtain ⟨rfl, -⟩ := Prod.mk.inj (Option.some.inj hk)
        simp [go, (List.getElem?_eq_some_iff.mp hi).1]
      · obtain ⟨-, rfl⟩ := Prod.mk.inj (Option.some.inj hk)
        trivial
    · exact h
  · split
    · next k pc hr =>
      split
      · next hk => exact h.reconcile (hk ▸ hr)
      · exact h
    · exact h
  · exact h
  · exact h

theorem setForeground (h : Consistent s) (fg : Bool) : Consistent (s.setForeground fg) := by
  unfold ActivationDriver.setForeground
  split
  · exact h
  · exact ⟨h.inside, h.settled.imp id fun hset => ⟨hset.held, hset.free⟩, h.nonneg, .inl rfl⟩

theorem taskStep (h : Consistent s) : Consistent s.taskStep := by
  unfold ActivationDriver.taskStep
  have task : ∀ {pc : ForegroundPc} {seen : Bool}, (seen = true ∨ CaughtUp s pc) →
      Consistent { s with unseen := seen, task := pc } := by
    intro pc seen hhint
    refine ⟨h.inside, h.settled.imp id fun hset => ⟨hset.held, hset.free⟩, h.nonneg, hhint.imp id ?_⟩
    intro hcaught
    cases pc <;> exact hcaught
  split
  · split
    · exact task (.inr trivial)
    · exact h
  · exact task (.inr rfl)
  · next fg htask =>
    have hhint := h.hint
    rw [htask] at hhint
    exact h.enter { s with foreground := fg, task := .reconcile s.calls.length } rfl rfl rfl h.nonneg hhint
  · next call htask =>
    have hhint := h.hint
    rw [htask] at hhint
    split
    · exact task hhint
    · exact h

theorem move (h : Consistent s) (m : DriverMove) : Consistent (s.move m) := by
  cases m with
  | setMode mode => exact h.enter { s with serverMode := mode = Mode.server } rfl rfl rfl h.nonneg h.hint
  | bumpSession delta => exact h.enter { s with active := bumped s.active delta } rfl rfl rfl (bumped_nonneg s.active delta) h.hint
  | setForeground fg => exact h.setForeground fg
  | step i => exact h.step i
  | task => exact h.taskStep

theorem run (fg : Bool) (ms : List DriverMove) : Consistent ((new fg).run ms) := by
  refine foldl_invariant (fun _ m h => h.move m) ms ⟨?_, .inl ⟨.lock, ?_, rfl⟩, le_refl 0, .inr rfl⟩
  · exact fun _ _ hr => by cases hr
  · exact List.mem_singleton_self _

theorem lastPush_eq (h : Consistent s) (hq : Quiescent s) :
    s.reconciling = none ∧ s.lastPush = s.want ∧ s.foreground = s.hint := by
  have hfree : s.reconciling = none := by
    rcases hr : s.reconciling with _ | ⟨i, pc⟩
    · rfl
    · cases hq.calls _ (List.mem_of_getElem? (h.inside i pc hr))
  refine ⟨hfree, ?_, ?_⟩
  · obtain ⟨pc, hmem, hdue⟩ | hset := h.settled
    · rw [hq.calls pc hmem] at hdue
      cases hdue
    · exact hset.free hfree
  · obtain hunseen | hcaught := h.hint
    · rw [hq.seen] at hunseen
      cases hunseen
    · rwa [hq.task] at hcaught

end Consistent

/-! ## What was pushed -/

/-- What a move may do to the lock and to what was pushed. -/
inductive Pushes (s s' : ActivationDriver) (m : DriverMove) : Prop
  | other (hlock : s'.reconciling = s.reconciling) (hlast : s'.lastPush = s.lastPush)
    (hflag : s'.managerActive = s.managerActive)
  | lock (i : ℕ) (hfree : s.reconciling = none) (hlock : s'.reconciling = some (i, .mode))
    (hlast : s'.lastPush = s.lastPush) (hflag : s'.managerActive = s.managerActive)
  | reconcile (i : ℕ) (pc : ReconcilePc) (hm : m = .step i) (hi : s.calls[i]? = some .inside)
    (hlock : s.reconciling = some (i, pc)) (hs : s' = s.reconcile i pc)

theorem pushes_move (s : ActivationDriver) (m : DriverMove) : Pushes s (s.move m) m := by
  cases m with
  | setMode mode => exact .other rfl rfl rfl
  | bumpSession delta => exact .other rfl rfl rfl
  | setForeground fg =>
    simp only [move, setForeground]
    split <;> exact .other rfl rfl rfl
  | task =>
    simp only [move, taskStep]
    split
    · split <;> exact .other rfl rfl rfl
    · exact .other rfl rfl rfl
    · exact .other rfl rfl rfl
    · split <;> exact .other rfl rfl rfl
  | step i =>
    simp only [move, step]
    split
    · exact .other rfl rfl rfl
    · split
      · next hfree => exact .lock i hfree rfl rfl rfl
      · exact .other rfl rfl rfl
    · next hi =>
      split
      · next k pc hr =>
        split
        · next hk =>
          subst hk
          exact .reconcile k pc rfl hi hr rfl
        · exact .other rfl rfl rfl
      · exact .other rfl rfl rfl
    · exact .other rfl rfl rfl
    · exact .other rfl rfl rfl

/-- Nothing was pushed, and nothing is about to be. -/
structure Unpushed (s : ActivationDriver) : Prop where
  last : s.lastPush = false
  flag : s.managerActive = true
  held : ∀ (i : ℕ) (pc : ReconcilePc), s.reconciling = some (i, pc) → pc ≠ .swap true ∧ ∀ w, pc ≠ .push w

/-- Where the client's flag stands to what was pushed last. -/
def InStep (s : ActivationDriver) : ReconcilePc → Prop
  | .swap want => s.managerActive = s.lastPush ∨ want = true ∧ s.lastPush = false
  | .push want => s.lastPush = want
  | .mode | .foreground | .active => s.managerActive = s.lastPush

structure Synced (s : ActivationDriver) : Prop where
  held : ∀ (i : ℕ) (pc : ReconcilePc), s.reconciling = some (i, pc) → InStep s pc
  free : s.reconciling = none → s.managerActive = s.lastPush

theorem Synced.hold {s' : ActivationDriver} {i : ℕ} {pc : ReconcilePc}
    (hr : s'.reconciling = some (i, pc)) (h : InStep s' pc) : Synced s' where
  held k rpc hk := by
    rw [hr] at hk
    obtain ⟨-, rfl⟩ := Prod.mk.inj (Option.some.inj hk)
    exact h
  free hfree := by
    rw [hr] at hfree
    cases hfree

theorem Synced.released {s : ActivationDriver} {i : ℕ} (h : s.managerActive = s.lastPush) :
    Synced (s.release i) :=
  ⟨fun _ _ hk => (by cases hk), fun _ => h⟩

variable {s : ActivationDriver}

theorem Unpushed.move (h : Unpushed s) {m : DriverMove} (hm : ¬ FindsUp s m) : Unpushed (s.move m) := by
  obtain ⟨hlock, hlast, hflag⟩ | ⟨i, hfree, hlock, hlast, hflag⟩ | ⟨i, pc, rfl, hi, hlock, hs⟩ :=
    s.pushes_move m
  · exact ⟨hlast.trans h.last, hflag.trans h.flag, fun k pc hk => h.held k pc (hlock ▸ hk)⟩
  · refine ⟨hlast.trans h.last, hflag.trans h.flag, fun k pc hk => ?_⟩
    rw [hlock] at hk
    obtain ⟨-, rfl⟩ := Prod.mk.inj (Option.some.inj hk)
    exact ⟨by simp, by simp⟩
  · rw [hs]
    have hold : ∀ pc' : ReconcilePc, (pc' ≠ .swap true ∧ ∀ w, pc' ≠ .push w) →
        Unpushed { s with reconciling := some (i, pc') } := by
      refine fun pc' hpc' => ⟨h.last, h.flag, fun k rpc hk => ?_⟩
      obtain ⟨-, rfl⟩ := Prod.mk.inj (Option.some.inj hk)
      exact hpc'
    cases pc with
    | mode =>
      refine hold _ ?_
      split
      · next hmode => exact absurd ⟨hi, .inl ⟨hlock, hmode⟩⟩ hm
      · simp
    | foreground =>
      refine hold _ ?_
      split <;> simp
    | active =>
      refine hold _ ?_
      have hpos : ¬ s.active ≤ 0 := fun hle => hm ⟨hi, .inr ⟨hlock, hle⟩⟩
      simp [hpos]
    | swap w =>
      -- A reconcile that found the gate down has nothing to push.
      obtain rfl : w = false := by simpa using (h.held i _ hlock).1
      rw [ActivationDriver.reconcile, if_pos h.last]
      exact ⟨h.last, h.flag, fun _ _ hk => (by cases hk)⟩
    | push w => exact absurd rfl ((h.held i _ hlock).2 w)

theorem Synced.move (h : Synced s) (m : DriverMove) : Synced (s.move m) := by
  obtain ⟨hlock, hlast, hflag⟩ | ⟨i, hfree, hlock, hlast, hflag⟩ | ⟨i, pc, rfl, hi, hlock, hs⟩ :=
    s.pushes_move m
  · refine ⟨fun k pc hk => ?_, fun hfree => ?_⟩
    · have hold := h.held k pc (hlock ▸ hk)
      cases pc <;> simpa [InStep, hlast, hflag] using hold
    · rw [hlast, hflag]
      exact h.free (hlock ▸ hfree)
  · refine .hold hlock ?_
    rw [InStep, hlast, hflag]
    exact h.free hfree
  · rw [hs]
    have hpc := h.held i pc hlock
    cases pc with
    | mode =>
      refine .hold rfl ?_
      split
      · exact .inl hpc
      · exact hpc
    | foreground =>
      refine .hold rfl ?_
      split
      · exact hpc
      · exact .inl hpc
    | active => exact .hold rfl (.inl hpc)
    | swap w =>
      rw [ActivationDriver.reconcile]
      split
      · next heq =>
        obtain hsame | ⟨rfl, hlast⟩ := hpc
        · exact .released hsame
        · rw [hlast] at heq
          cases heq
      · exact .hold rfl rfl
    | push w => exact .released (Eq.symm hpc)

theorem Unpushed.findsUp (h : Unpushed s) {m : DriverMove} (hm : FindsUp s m) : Synced (s.move m) := by
  cases m with
  | step i =>
    obtain ⟨hi, ⟨hlock, hmode⟩ | ⟨hlock, hle⟩⟩ := hm
    · have hs : s.move (.step i) = s.reconcile i .mode := by simp [ActivationDriver.move, step, hi, hlock]
      have hswap : (s.reconcile i .mode).reconciling = some (i, .swap true) := by simp [reconcile, hmode]
      rw [hs]
      exact .hold hswap (.inr ⟨rfl, h.last⟩)
    · have hs : s.move (.step i) = s.reconcile i .active := by simp [ActivationDriver.move, step, hi, hlock]
      have hswap : (s.reconcile i .active).reconciling = some (i, .swap true) := by simp [reconcile, hle]
      rw [hs]
      exact .hold hswap (.inr ⟨rfl, h.last⟩)
  | setMode mode => exact hm.elim
  | bumpSession delta => exact hm.elim
  | setForeground fg => exact hm.elim
  | task => exact hm.elim

/-- What the gate is to be. -/
def due (s : ActivationDriver) : Bool := s.serverMode || (s.hint && s.active = 0)

theorem manager_active_agrees_iff (fg : Bool) (ms : List DriverMove) (hq : Quiescent ((new fg).run ms)) :
    ((new fg).run ms).managerActive = ((new fg).run ms).due ↔
      ¬ Along move (fun s m => ¬ FindsUp s m) (new fg) ms := by
  have h := Consistent.run fg ms
  obtain ⟨hfree, hlast, hhint⟩ := h.lastPush_eq hq
  have hactive : ((new fg).run ms).active ≤ 0 ↔ ((new fg).run ms).active = 0 :=
    ⟨fun hle => le_antisymm hle h.nonneg, fun heq => le_of_eq heq⟩
  have hdue : ((new fg).run ms).due = ((new fg).run ms).want := by
    rw [due, want, hhint]
    simp only [hactive]
  have hnew : Unpushed (new fg) := ⟨rfl, rfl, fun _ _ hr => (by cases hr)⟩
  rw [hdue, ← hlast]
  constructor
  · intro hagree hall
    have hun : Unpushed ((new fg).run ms) := Along.invariant (fun _ _ hm h => h.move hm) hnew hall
    rw [hun.flag, hun.last] at hagree
    cases hagree
  · intro hnot
    have hsync : Synced ((new fg).run ms) :=
      Along.invariant_of_not (fun _ _ hm h => h.move hm) (fun _ _ hm h => h.findsUp (not_not.mp hm))
        (fun _ m h => h.move m) hnew hnot
    exact hsync.free hfree

theorem manager_active_agrees_iff_up :
    ((new true).run [.step 0, .step 0, .step 0, .step 0, .step 0, .step 0]).managerActive =
      ((new true).run [.step 0, .step 0, .step 0, .step 0, .step 0, .step 0]).due ↔
      ¬ Along move (fun s m => ¬ FindsUp s m) (new true)
        [.step 0, .step 0, .step 0, .step 0, .step 0, .step 0] :=
  manager_active_agrees_iff true _ ⟨by decide, rfl, rfl⟩

/-- The client is up, and the driver, which is built in the background, leaves it so. -/
theorem manager_active_not_agrees :
    ¬ ∀ (fg : Bool) (ms : List DriverMove), Quiescent ((new fg).run ms) →
      ((new fg).run ms).managerActive = ((new fg).run ms).due := by
  intro h
  have hup := h false [.step 0, .step 0, .step 0, .step 0] ⟨by decide, rfl, rfl⟩
  exact absurd hup (by decide)

end ActivationDriver

end BaleVpn.Signaling
