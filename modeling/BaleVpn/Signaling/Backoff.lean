import Mathlib.Algebra.Group.Nat.Defs
import Mathlib.Logic.Function.Basic
import BaleVpn.Signaling.Reconnect

/-!
# The backoff of the run loop (`ws.rs`)

`run_loop` sleeps between two sessions, for a time that doubles with `attempt`. The counter is never reset,
so that it counts all sessions of the loop, and not those since the last one that completed its handshake.
-/

namespace BaleVpn.Signaling

open Lib

/-- `(3u64 << attempt.min(4)).min(30)` -/
def delaySec (attempt : ℕ) : ℕ := min (3 <<< min attempt 4) 30

def U32_MAX : ℕ := 2 ^ 32 - 1

/-- The locals of a `run_loop`, and what happened to its sessions. -/
structure LoopLocals where
  attempt : ℕ := 0
  /-- The latest delay. -/
  delaySec : ℕ := 0
  /-- The session at hand has set `ready`. -/
  handshake : Bool := false
  /-- Whether those that ended in a reconnect had, the latest first. -/
  sessions : List Bool := []
  deriving DecidableEq, Repr

/-- The client with the locals of its loops. -/
structure BackoffClient where
  ws : WsClient := {}
  locals : ℕ → LoopLocals := fun _ => {}

namespace BackoffClient

/-- The loop that the move sends to sleep. -/
def reconnecting (s : WsClient) : WsMove → Option ℕ
  | .loop i .go => s.loops[i]?.bind fun l => if l.pc = .outcome .disconnected ∧ s.running then some i else none
  | _ => none

def sleepThen (v : LoopLocals) : LoopLocals :=
  { v with
    delaySec := Signaling.delaySec v.attempt
    attempt := min (v.attempt + 1) U32_MAX
    sessions := v.handshake :: v.sessions }

/-- What a loop does to its locals. -/
def stepLocals (s : WsClient) (v : LoopLocals) : LoopPc → LoopLocals
  | .attempt => { v with handshake := false }
  | .ready => { v with handshake := true }
  | .outcome .disconnected => if s.running then sleepThen v else v
  | _ => v

def move (b : BackoffClient) (m : WsMove) : BackoffClient where
  ws := b.ws.move m
  locals :=
    match m with
    | .loop i .go =>
      match b.ws.loops[i]? with
      | some l => Function.update b.locals i (stepLocals b.ws (b.locals i) l.pc)
      | none => b.locals
    | _ => b.locals

/-- How many sessions there were since the last one that completed its handshake; before the first one
that does, how many there were before the latest. -/
def sinceHandshake (sessions : List Bool) : ℕ :=
  min (sessions.takeWhile (! ·)).length (sessions.length - 1)

/-- A loop that goes to sleep does so for the time that the sessions since its last handshake ask for. -/
def BacksOff (b : BackoffClient) (m : WsMove) : Prop :=
  ∀ i ∈ reconnecting b.ws m,
    ((b.move m).locals i).delaySec = delaySec (sinceHandshake ((b.move m).locals i).sessions)

/-- No loop reconnects after a session that has completed its handshake, unless it was its first session. -/
def FirstOrFailed (b : BackoffClient) (m : WsMove) : Prop :=
  ∀ i ∈ reconnecting b.ws m, (b.locals i).handshake = true → (b.locals i).sessions = []

instance (b : BackoffClient) (m : WsMove) : Decidable (BacksOff b m) :=
  inferInstanceAs (Decidable (∀ i ∈ reconnecting b.ws m, _))

instance (b : BackoffClient) (m : WsMove) : Decidable (FirstOrFailed b m) :=
  inferInstanceAs (Decidable (∀ i ∈ reconnecting b.ws m, _))

/-! ## Delays -/

theorem delaySec_eq_three {n : ℕ} (h : delaySec n = 3) : n = 0 := by
  unfold delaySec at h
  by_cases hn : 4 ≤ n
  · rw [Nat.min_eq_right hn] at h
    cases h
  · obtain rfl | rfl | rfl | rfl : n = 0 ∨ n = 1 ∨ n = 2 ∨ n = 3 := by omega
    · rfl
    all_goals cases h

/-- The counter is far from its end where the delay still grows. -/
theorem delaySec_min (n : ℕ) : delaySec (min n U32_MAX) = delaySec n := by
  have hmax : 4 ≤ U32_MAX := by decide
  have hmin : min (min n U32_MAX) 4 = min n 4 := by omega
  rw [delaySec, delaySec, hmin]

theorem sinceHandshake_of_completed (sessions : List Bool) : sinceHandshake (true :: sessions) = 0 := by
  rw [sinceHandshake, List.takeWhile_cons_of_neg (by decide)]
  exact Nat.zero_min _

theorem sinceHandshake_of_dropLast {sessions : List Bool} (h : ∀ x ∈ sessions.dropLast, x = false) :
    sinceHandshake sessions = sessions.length - 1 := by
  have hle : sessions.length - 1 ≤ (sessions.takeWhile (! ·)).length := by
    rcases List.eq_nil_or_concat sessions with rfl | ⟨front, last, rfl⟩
    · exact Nat.zero_le _
    · rw [List.concat_eq_append, List.dropLast_concat] at h
      rw [List.concat_eq_append, List.takeWhile_append_of_pos fun x hx => by rw [h x hx]; rfl]
      simp only [List.length_append, List.length_singleton]
      omega
  exact Nat.min_eq_right hle

/-! ## The counter -/

/-- The counter has counted every session that ended in a reconnect. -/
def Counted (b : BackoffClient) : Prop :=
  ∀ i, (b.locals i).attempt = min (b.locals i).sessions.length U32_MAX

/-- At most the first session of a loop that ended in a reconnect had completed its handshake. -/
def Unbroken (b : BackoffClient) : Prop := ∀ i, ∀ x ∈ (b.locals i).sessions.dropLast, x = false

variable {b : BackoffClient} {m : WsMove} {i : ℕ}

theorem move_locals (b : BackoffClient) (m : WsMove) (i : ℕ) :
    (i ∈ reconnecting b.ws m ∧ (b.move m).locals i = sleepThen (b.locals i)) ∨
      (i ∉ reconnecting b.ws m ∧ ((b.move m).locals i).attempt = (b.locals i).attempt ∧
        ((b.move m).locals i).sessions = (b.locals i).sessions) := by
  have hsame (hnone : reconnecting b.ws m = none) (hlocals : (b.move m).locals = b.locals) :
      i ∉ reconnecting b.ws m ∧ ((b.move m).locals i).attempt = (b.locals i).attempt ∧
        ((b.move m).locals i).sessions = (b.locals i).sessions := by
    rw [hnone, hlocals]
    exact ⟨nofun, rfl, rfl⟩
  cases m with
  | loop j input =>
    cases input with
    | go =>
      rcases hl : b.ws.loops[j]? with - | l
      · exact .inr (hsame (by simp [reconnecting, hl]) (by simp [move, hl]))
      have hmove : (b.move (.loop j .go)).locals =
          Function.update b.locals j (stepLocals b.ws (b.locals j) l.pc) := by
        simp [move, hl]
      by_cases hij : i = j
      · subst hij
        rw [hmove, Function.update_self]
        by_cases hsleep : l.pc = .outcome .disconnected ∧ b.ws.running = true
        · refine .inl ⟨by simp [reconnecting, hl, hsleep], ?_⟩
          rw [hsleep.1, stepLocals, if_pos hsleep.2]
        · refine .inr ⟨by simp [reconnecting, hl, hsleep], ?_⟩
          unfold stepLocals
          split
          · exact ⟨rfl, rfl⟩
          · exact ⟨rfl, rfl⟩
          · rename_i hpc
            rw [if_neg fun hrunning => hsleep ⟨hpc, hrunning⟩]
            exact ⟨rfl, rfl⟩
          · exact ⟨rfl, rfl⟩
      · rw [hmove, Function.update_of_ne hij]
        refine .inr ⟨fun hmem => ?_, rfl, rfl⟩
        simp only [reconnecting, hl, Option.bind_some, Option.mem_def] at hmem
        split at hmem
        · exact hij (Option.some.inj hmem).symm
        · cases hmem
    | connected | connectFailed | handshake | versionMismatch | response | closed =>
      exact .inr (hsame rfl rfl)
  | set | setter | drop | resubscribe | rpcCall | rpcStep | rpcTimeout | close => exact .inr (hsame rfl rfl)

theorem Counted.move (h : Counted b) (m : WsMove) : Counted (b.move m) := by
  intro i
  have hi := h i
  rcases move_locals b m i with ⟨-, hlocals⟩ | ⟨-, hattempt, hsessions⟩
  · rw [hlocals, sleepThen]
    simp only [List.length_cons]
    omega
  · rw [hattempt, hsessions]
    exact hi

/-- The counter gives what the sessions ask for just while none but the first had completed its handshake. -/
theorem delaySec_move (h : Counted b) (hi : i ∈ reconnecting b.ws m) :
    ((b.move m).locals i).delaySec = delaySec (b.locals i).sessions.length ∧
      ((b.move m).locals i).sessions = (b.locals i).handshake :: (b.locals i).sessions := by
  rcases move_locals b m i with ⟨-, hlocals⟩ | ⟨hnot, -⟩
  · rw [hlocals, sleepThen]
    simp only [h i, delaySec_min, and_self]
  · exact absurd hi hnot

theorem BacksOff.firstOrFailed (h : Counted b) (hright : BacksOff b m) : FirstOrFailed b m := by
  intro i hi hcompleted
  obtain ⟨hdelay, hsessions⟩ := delaySec_move h hi
  have hthree := hright i hi
  rw [hdelay, hsessions, hcompleted, sinceHandshake_of_completed] at hthree
  exact List.eq_nil_of_length_eq_zero (delaySec_eq_three hthree)

theorem Unbroken.move (h : Unbroken b) (hfirst : FirstOrFailed b m) : Unbroken (b.move m) := by
  intro i
  rcases move_locals b m i with ⟨hi, hlocals⟩ | ⟨-, -, hsessions⟩
  · rw [hlocals, sleepThen]
    rcases hs : (b.locals i).sessions with - | ⟨x, xs⟩
    · nofun
    · have hfailed : (b.locals i).handshake = false := by
        by_contra hcompleted
        have hnil := hfirst i hi (Bool.of_not_eq_false hcompleted)
        rw [hs] at hnil
        cases hnil
      have hold := h i
      rw [hs] at hold
      rw [List.dropLast_cons_of_ne_nil (List.cons_ne_nil x xs)]
      exact List.forall_mem_cons.mpr ⟨hfailed, hold⟩
  · rw [hsessions]
    exact h i

theorem FirstOrFailed.backsOff (h : Counted b) (hold : Unbroken b) (hfirst : FirstOrFailed b m) :
    BacksOff b m := by
  intro i hi
  obtain ⟨hdelay, hsessions⟩ := delaySec_move h hi
  rw [sinceHandshake_of_dropLast (hold.move hfirst i), hdelay, hsessions]
  rfl

/-- The backoff is right along a run just when no loop reconnects after a session that has completed its
handshake, other than its first one. -/
theorem backs_off_from_handshake (ms : List WsMove) :
    Along move BacksOff {} ms ↔ Along move FirstOrFailed {} ms := by
  have hcounted : Counted {} := fun _ => rfl
  constructor
  · refine Along.imp (I := Counted) (fun b m hright h => ?_) hcounted
    exact ⟨h.move m, hright.firstOrFailed h⟩
  · refine Along.imp (I := fun b => Counted b ∧ Unbroken b) (fun b m hfirst h => ?_) ⟨hcounted, nofun⟩
    exact ⟨⟨h.1.move m, h.2.move hfirst⟩, hfirst.backsOff h.1 h.2⟩

/-- The first session cannot connect. The second one is up until the server closes it. -/
def droppedLater : List WsMove :=
  WsMove.set (.token (some "a")) :: List.replicate 10 (WsMove.setter 0) ++
    [WsMove.loop 0 .go, .loop 0 .go, .loop 0 (.connectFailed false)] ++ List.replicate 5 (WsMove.loop 0 .go) ++
    WsClient.connected 0 ++ [WsMove.loop 0 (.closed false)] ++ List.replicate 4 (WsMove.loop 0 .go)

theorem backs_off_further :
    ((droppedLater.foldl move {}).locals 0).delaySec = 6 ∧
      ((droppedLater.foldl move {}).locals 0).sessions = [true, false] ∧
      ¬ Along move BacksOff {} droppedLater := by decide +kernel

end BackoffClient

end BaleVpn.Signaling
