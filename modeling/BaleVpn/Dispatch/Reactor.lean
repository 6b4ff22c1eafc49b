import Mathlib.Algebra.Group.Nat.Defs
import Mathlib.Logic.Function.Basic
import BaleVpn.Lib.Machine

/-!
# The reactor (`dispatcher.rs`)

`thread_main` polls, hands each event of the batch to the handler of its token, and calls the tick.
Handlers, posted tasks and the tick register and deregister sources. A removal is parked in
`PENDING_REMOVE` until the loop is between two events; what a tick parks stays there over the next `poll`.
`NEXT_TOKEN` is a natural number, and its wrap is left out: the source takes the last `usize` for the waker
as a token "well outside our monotonic allocator's reach".
-/

namespace BaleVpn.Dispatch

open Lib

def WAKER_TOKEN : ℕ := 2 ^ 64 - 1

/-- Where `thread_main` is. -/
inductive LoopPc (H : Type)
  | poll
  /-- Between two events, with those of the batch that are left. -/
  | between (events : List ℕ)
  /-- In `on_event` of the handler, which was found under the token. -/
  | handler (token : ℕ) (h : H) (events : List ℕ)
  /-- In `drain_queue`, with the tasks that are left. -/
  | tasks (left : ℕ) (events : List ℕ)
  | tick
  deriving DecidableEq, Repr

structure Reactor (H : Type) where
  handlers : ℕ → Option H := fun _ => none
  pendingRemove : List ℕ := []
  nextToken : ℕ := 1
  /-- How many tasks wait in `QUEUE`. -/
  queue : ℕ := 0
  /-- `TICK` is set. -/
  tickSet : Bool := false
  pc : LoopPc H := .poll
  /-- The tokens that `register_source` returned and `deregister_source` was called with since. -/
  deregistered : List ℕ := []

inductive ReactorMove (H : Type)
  | post
  | setTick (set : Bool)
  /-- `poll` returns the events of these tokens. -/
  | polled (tokens : List ℕ)
  | pollFailed
  /-- The loop goes on to the next event, or out of the batch. -/
  | next
  | register (h : H)
  | deregister (token : ℕ)
  /-- The handler, the task or the tick returns. -/
  | finish
  deriving DecidableEq, Repr

namespace Reactor

variable {H : Type}

/-- The token, and `NEXT_TOKEN` after it. -/
def allocToken (next : ℕ) : ℕ × ℕ := if next = WAKER_TOKEN then (next + 1, next + 2) else (next, next + 1)

def registerSource (s : Reactor H) (h : H) : Reactor H :=
  let (token, next) := allocToken s.nextToken
  { s with handlers := Function.update s.handlers token (some h), nextToken := next }

def deregisterSource (s : Reactor H) (token : ℕ) : Reactor H :=
  { s with
    pendingRemove := s.pendingRemove ++ [token]
    deregistered := if token < s.nextToken then s.deregistered ++ [token] else s.deregistered }

def drainPendingRemoves (s : Reactor H) : Reactor H :=
  { s with
    handlers := fun t => if t ∈ s.pendingRemove then none else s.handlers t
    pendingRemove := [] }

/-- Somebody else's code runs on the dispatcher thread. -/
def Calling (s : Reactor H) : Prop :=
  match s.pc with
  | .handler .. | .tasks (_ + 1) _ | .tick => True
  | .poll | .between _ | .tasks 0 _ => False

instance (s : Reactor H) : Decidable s.Calling :=
  match h : s.pc with
  | .handler .. | .tasks (_ + 1) _ | .tick => isTrue (by simp [Calling, h])
  | .poll | .between _ | .tasks 0 _ => isFalse (by simp [Calling, h])

/-- The body of the `for` over the events, up to the call. -/
def dispatch (s : Reactor H) : List ℕ → Reactor H
  | [] => { s with pc := if s.tickSet then .tick else .poll }
  | t :: events =>
    if t = WAKER_TOKEN then { s with queue := 0, pc := .tasks s.queue events }
    else
      match s.handlers t with
      | some h => { s with pc := .handler t h events }
      | none => { s.drainPendingRemoves with pc := .between events }

/-- A call is over. -/
def leave (s : Reactor H) : Reactor H :=
  match s.pc with
  | .handler _ _ events => { s.drainPendingRemoves with pc := .between events }
  | .tasks 0 events => { s.drainPendingRemoves with pc := .between events }
  | .tasks (n + 1) events => { s with pc := .tasks n events }
  | .tick => { s with pc := .poll }
  | .poll | .between _ => s

def move (s : Reactor H) : ReactorMove H → Reactor H
  | .post => { s with queue := s.queue + 1 }
  | .setTick set => { s with tickSet := set }
  | .polled tokens =>
    match s.pc with
    | .poll => { s with pc := .between tokens }
    | _ => s
  | .pollFailed => s
  | .next =>
    match s.pc with
    | .between events => s.dispatch events
    | _ => s
  | .register h => if s.Calling then s.registerSource h else s
  | .deregister token => if s.Calling then s.deregisterSource token else s
  | .finish => s.leave

def run (s : Reactor H) (ms : List (ReactorMove H)) : Reactor H := ms.foldl move s

/-! ## The property -/

/-- What mio promises: a source that was deregistered before `poll` started has no event in what it
returns. -/
def FairPoll (s : Reactor H) : ReactorMove H → Prop
  | .polled tokens => ∀ t ∈ tokens, t ∉ s.deregistered
  | _ => True

instance (s : Reactor H) : (m : ReactorMove H) → Decidable (FairPoll s m)
  | .polled tokens => inferInstanceAs (Decidable (∀ t ∈ tokens, t ∉ s.deregistered))
  | .post | .setTick _ | .pollFailed | .next | .register _ | .deregister _ | .finish => isTrue trivial

/-- The handler that a move calls is not one that was deregistered. -/
def CallsRegistered (s : Reactor H) (m : ReactorMove H) : Prop :=
  ∀ events t h rest, s.pc = .between events → (s.move m).pc = .handler t h rest → t ∉ s.deregistered

/-- The handler that is executing is in the map. -/
def KeepsExecuting (s : Reactor H) : Prop := ∀ t h rest, s.pc = .handler t h rest → s.handlers t = some h

/-! ## The invariant -/

structure Consistent (s : Reactor H) : Prop where
  /-- Tokens are below the counter, so that a fresh one is nobody's. -/
  handlers_lt : ∀ t h, s.handlers t = some h → t < s.nextToken
  deregistered_lt : ∀ t ∈ s.deregistered, t < s.nextToken
  parked : ∀ t ∈ s.deregistered, s.handlers t = none ∨ t ∈ s.pendingRemove
  /-- Between two events, what is still to come is for nobody who was deregistered. -/
  batch : ∀ events, s.pc = .between events → ∀ t ∈ events, t ∈ s.deregistered → s.handlers t = none
  executing : KeepsExecuting s

theorem allocToken_spec (n : ℕ) : n ≤ (allocToken n).1 ∧ (allocToken n).1 < (allocToken n).2 ∧
    (allocToken n).1 ≠ WAKER_TOKEN := by
  unfold allocToken
  split
  · refine ⟨?_, ?_, ?_⟩ <;> simp only <;> omega
  · refine ⟨?_, ?_, ?_⟩
    · exact Nat.le_refl n
    · exact Nat.lt_succ_self n
    · assumption

namespace Consistent

variable {s : Reactor H}

theorem start (tickSet : Bool) : Consistent ({ tickSet } : Reactor H) where
  handlers_lt := nofun
  deregistered_lt := nofun
  parked := nofun
  batch := nofun
  executing := nofun

theorem goto (h : Consistent s) {s' : Reactor H} (hhandlers : s'.handlers = s.handlers)
    (hpending : s'.pendingRemove = s.pendingRemove) (hnext : s'.nextToken = s.nextToken)
    (hder : s'.deregistered = s.deregistered)
    (hbatch : ∀ events, s'.pc = .between events → ∀ t ∈ events, t ∈ s.deregistered → s.handlers t = none)
    (hexec : ∀ t h rest, s'.pc = .handler t h rest → s.handlers t = some h) : Consistent s' where
  handlers_lt := by
    rw [hhandlers, hnext]
    exact h.handlers_lt
  deregistered_lt := by
    rw [hder, hnext]
    exact h.deregistered_lt
  parked := by
    rw [hder, hhandlers, hpending]
    exact h.parked
  batch := by
    rw [hder, hhandlers]
    exact hbatch
  executing := by
    unfold KeepsExecuting
    rw [hhandlers]
    exact hexec

/-- Once the parked removals are made, nobody who was deregistered is in the map. -/
theorem drain (h : Consistent s) (events : List ℕ) :
    Consistent { s.drainPendingRemoves with pc := .between events } := by
  have hgone : ∀ t ∈ s.deregistered, s.drainPendingRemoves.handlers t = none := by
    intro t ht
    show (if t ∈ s.pendingRemove then none else s.handlers t) = none
    split
    · rfl
    · rename_i hparked
      exact (h.parked t ht).resolve_right hparked
  refine ⟨fun t x hx => ?_, h.deregistered_lt, fun t ht => .inl (hgone t ht), fun _ _ t _ ht => hgone t ht,
    nofun⟩
  change (if t ∈ s.pendingRemove then none else s.handlers t) = some x at hx
  split at hx
  · cases hx
  · exact h.handlers_lt t x hx

theorem registerSource (h : Consistent s) (hcalling : s.Calling) (x : H) :
    Consistent (s.registerSource x) := by
  obtain ⟨hle, hlt, -⟩ := allocToken_spec s.nextToken
  have hother : ∀ t < s.nextToken, (s.registerSource x).handlers t = s.handlers t := by
    intro t ht
    have hne : t ≠ (allocToken s.nextToken).1 := by omega
    exact Function.update_of_ne hne (some x) s.handlers
  refine ⟨fun t y hy => ?_, fun t ht => ?_, fun t ht => ?_, fun events hpc => ?_, fun t y rest hpc => ?_⟩
  · show t < (allocToken s.nextToken).2
    by_cases hold : t < s.nextToken
    · omega
    · change Function.update s.handlers (allocToken s.nextToken).1 (some x) t = some y at hy
      by_cases hfresh : t = (allocToken s.nextToken).1
      · omega
      · rw [Function.update_of_ne hfresh] at hy
        have := h.handlers_lt t y hy
        omega
  · have := h.deregistered_lt t ht
    show t < (allocToken s.nextToken).2
    omega
  · rw [hother t (h.deregistered_lt t ht)]
    exact h.parked t ht
  · change s.pc = _ at hpc
    simp [Calling, hpc] at hcalling
  · have hkept := h.executing t y rest hpc
    rw [hother t (h.handlers_lt t y hkept)]
    exact hkept

theorem deregisterSource (h : Consistent s) (hcalling : s.Calling) (token : ℕ) :
    Consistent (s.deregisterSource token) := by
  have hmem : ∀ t ∈ (s.deregisterSource token).deregistered,
      t ∈ s.deregistered ∨ t = token ∧ token < s.nextToken := by
    intro t ht
    change t ∈ (if token < s.nextToken then s.deregistered ++ [token] else s.deregistered) at ht
    split at ht
    · rename_i hlt
      rcases List.mem_append.mp ht with ht | ht
      · exact .inl ht
      · exact .inr ⟨List.mem_singleton.mp ht, hlt⟩
    · exact .inl ht
  refine ⟨h.handlers_lt, fun t ht => ?_, fun t ht => ?_, fun events hpc => ?_, h.executing⟩
  · rcases hmem t ht with ht | ⟨rfl, hlt⟩
    · exact h.deregistered_lt t ht
    · exact hlt
  · rcases hmem t ht with ht | ⟨rfl, -⟩
    · exact (h.parked t ht).imp_right (List.mem_append_left _)
    · exact .inr (List.mem_append_right _ (List.mem_singleton_self t))
  · change s.pc = _ at hpc
    simp [Calling, hpc] at hcalling

theorem dispatch (h : Consistent s) {events : List ℕ} (hpc : s.pc = .between events) :
    Consistent (s.dispatch events) := by
  cases events with
  | nil =>
    refine h.goto rfl rfl rfl rfl (fun events hpc' => ?_) fun t x rest hpc' => ?_
    all_goals
      change (if s.tickSet then LoopPc.tick else LoopPc.poll) = _ at hpc'
      split at hpc' <;> cases hpc'
  | cons t events =>
    simp only [Reactor.dispatch]
    split
    · exact h.goto rfl rfl rfl rfl nofun nofun
    · split
      · rename_i x hx
        refine h.goto rfl rfl rfl rfl nofun fun t' y rest hpc' => ?_
        obtain ⟨rfl, rfl, -⟩ := LoopPc.handler.inj hpc'
        exact hx
      · exact h.drain events

theorem leave (h : Consistent s) : Consistent s.leave := by
  unfold Reactor.leave
  split
  · exact h.drain _
  · exact h.drain _
  · exact h.goto rfl rfl rfl rfl nofun nofun
  · exact h.goto rfl rfl rfl rfl nofun nofun
  · exact h
  · exact h

theorem move (h : Consistent s) {m : ReactorMove H} (hfair : FairPoll s m) : Consistent (s.move m) := by
  cases m with
  | post => exact h.goto rfl rfl rfl rfl h.batch h.executing
  | setTick set => exact h.goto rfl rfl rfl rfl h.batch h.executing
  | polled tokens =>
    simp only [Reactor.move]
    split
    · refine h.goto rfl rfl rfl rfl (fun events hpc t ht hgone => ?_) nofun
      obtain rfl := LoopPc.between.inj hpc
      exact absurd hgone (hfair t ht)
    · exact h
  | pollFailed => exact h
  | next =>
    simp only [Reactor.move]
    split
    · rename_i events hpc
      exact h.dispatch hpc
    · exact h
  | register x =>
    simp only [Reactor.move]
    split
    · rename_i hcalling
      exact h.registerSource hcalling x
    · exact h
  | deregister token =>
    simp only [Reactor.move]
    split
    · rename_i hcalling
      exact h.deregisterSource hcalling token
    · exact h
  | finish => exact h.leave

theorem callsRegistered (h : Consistent s) (m : ReactorMove H) : CallsRegistered s m := by
  intro events t x rest hpc hcall hgone
  cases m with
  | next =>
    simp only [Reactor.move, hpc] at hcall
    cases events with
    | nil =>
      change (if s.tickSet then LoopPc.tick else LoopPc.poll) = _ at hcall
      split at hcall <;> cases hcall
    | cons t' events =>
      simp only [Reactor.dispatch] at hcall
      split at hcall
      · cases hcall
      · split at hcall
        · rename_i y hy
          obtain ⟨rfl, -, -⟩ := LoopPc.handler.inj hcall
          have hnone := h.batch _ hpc t' (List.mem_cons_self ..) hgone
          rw [hy] at hnone
          cases hnone
        · cases hcall
  | post | setTick | pollFailed =>
    change s.pc = _ at hcall
    rw [hpc] at hcall
    cases hcall
  | polled tokens =>
    simp only [Reactor.move, hpc] at hcall
    cases hcall
  | register y =>
    have hno : ¬ s.Calling := by simp [Calling, hpc]
    simp only [Reactor.move, if_neg hno, hpc] at hcall
    cases hcall
  | deregister token =>
    have hno : ¬ s.Calling := by simp [Calling, hpc]
    simp only [Reactor.move, if_neg hno, hpc] at hcall
    cases hcall
  | finish =>
    simp only [Reactor.move, Reactor.leave, hpc] at hcall
    cases hcall

end Consistent

/-- Along every run, no handler is called after its token was deregistered, and the handler that is
executing stays in the map. -/
theorem no_event_after_deregister (tickSet : Bool) (ms : List (ReactorMove H))
    (h : Along move FairPoll { tickSet } ms) :
    Along move (fun s m => CallsRegistered s m ∧ KeepsExecuting (s.move m)) { tickSet } ms := by
  refine h.imp (I := Consistent) (fun s m hfair hs => ?_) (Consistent.start tickSet)
  have hnext := hs.move hfair
  exact ⟨hnext, hs.callsRegistered m, hnext.executing⟩

/-- The tick registers two sources. Both have events in one batch, and the handler of the first
deregisters both, itself first. -/
def deregistersBoth : List (ReactorMove Char) :=
  [.polled [], .next, .register 'a', .register 'b', .finish, .polled [1, 2], .next, .deregister 1,
    .deregister 2, .finish, .next, .next]

theorem no_event_after_deregister_both :
    Along move (fun s m => CallsRegistered s m ∧ KeepsExecuting (s.move m)) { tickSet := true }
      deregistersBoth ∧
    (run { tickSet := true } (deregistersBoth.take 7)).pc = .handler 1 'a' [2] ∧
    (run { tickSet := true } (deregistersBoth.take 11)).pc = .between [] :=
  ⟨no_event_after_deregister true deregistersBoth (by decide), by decide, by decide⟩

end Reactor

end BaleVpn.Dispatch
