import BaleVpn.Dispatch.Reactor

/-!
# Sessions behind the reactor's handlers (`nat/udp_session.rs`, `nat/tcp_session.rs`, `tun.rs`)

A handler of the reactor is the address of a boxed session, and `on_event` follows it without a check.
`UdpSession`, `TcpSession` and `TunBridge` do the same with it: a box is made, its socket is registered
under its own address, closing the socket deregisters the token, and dropping the box closes the socket.
A packet, a posted task and the sweep make, open, close and drop sessions; inside its own handler a
session can only close its socket. An address may be handed out again as soon as its box is gone.
-/

namespace BaleVpn.Dispatch

open Lib

structure SessionHeap where
  /-- A handler is the address of its session. -/
  reactor : Reactor ℕ := {}
  /-- The boxes by address, each with the token of its socket if that is open. -/
  boxes : ℕ → Option (Option ℕ) := fun _ => none

inductive HeapMove
  /-- The reactor's own moves. -/
  | loop (m : ReactorMove ℕ)
  /-- `Box::new` at a free address. -/
  | create (addr : ℕ)
  /-- `UdpSession::open`, `open_host_socket`, `TunBridge::attach_with_format`. -/
  | openSocket (addr : ℕ)
  /-- `close_host_socket`. -/
  | closeSocket (addr : ℕ)
  | drop (addr : ℕ)
  deriving DecidableEq, Repr

namespace SessionHeap

/-- A posted task or the tick is running. -/
def Tasking (s : SessionHeap) : Bool :=
  match s.reactor.pc with
  | .tasks (_ + 1) _ | .tick => true
  | .poll | .between _ | .tasks 0 _ | .handler .. => false

/-- Code that may close the socket of `addr` is running. -/
def MayClose (s : SessionHeap) (addr : ℕ) : Bool :=
  match s.reactor.pc with
  | .handler _ h _ => h == addr
  | _ => s.Tasking

def close (s : SessionHeap) (addr : ℕ) : SessionHeap :=
  match s.boxes addr with
  | some (some token) =>
    { reactor := s.reactor.deregisterSource token
      boxes := Function.update s.boxes addr (some none) }
  | _ => s

def step (s : SessionHeap) : HeapMove → SessionHeap
  | .loop (.register _) | .loop (.deregister _) => s
  | .loop m => { s with reactor := s.reactor.move m }
  | .create addr =>
    if s.Tasking && (s.boxes addr).isNone then { s with boxes := Function.update s.boxes addr (some none) }
    else s
  | .openSocket addr =>
    if s.Tasking && s.boxes addr == some none then
      { reactor := s.reactor.registerSource addr
        boxes := Function.update s.boxes addr (some (some (Reactor.allocToken s.reactor.nextToken).1)) }
    else s
  | .closeSocket addr => if s.MayClose addr then s.close addr else s
  | .drop addr =>
    if s.Tasking then { s.close addr with boxes := Function.update (s.close addr).boxes addr none } else s

/-- What mio promises of the polls. -/
def FairMove (s : SessionHeap) : HeapMove → Prop
  | .loop m => Reactor.FairPoll s.reactor m
  | _ => True

instance (s : SessionHeap) : (m : HeapMove) → Decidable (FairMove s m)
  | .loop m => inferInstanceAs (Decidable (Reactor.FairPoll s.reactor m))
  | .create _ | .openSocket _ | .closeSocket _ | .drop _ => isTrue trivial

/-! ## The invariant -/

/-- Boxes and handlers belong together. -/
structure Ok (s : SessionHeap) : Prop where
  reactor : Reactor.Consistent s.reactor
  /-- A handler that was not deregistered leads to a live box, whose socket has its token. -/
  live : ∀ t addr, s.reactor.handlers t = some addr →
    t ∈ s.reactor.deregistered ∨ s.boxes addr = some (some t)
  /-- An open socket has its handler. -/
  registered : ∀ addr t, s.boxes addr = some (some t) →
    s.reactor.handlers t = some addr ∧ t ∉ s.reactor.deregistered
  /-- A removal is parked for a deregistered token only. -/
  parked : ∀ t ∈ s.reactor.pendingRemove, t ∈ s.reactor.deregistered
  /-- The session whose handler runs is live. -/
  running : ∀ t addr rest, s.reactor.pc = .handler t addr rest → (s.boxes addr).isSome

variable {s : SessionHeap}

theorem calling_of_tasking (h : s.Tasking = true) : s.reactor.Calling := by
  unfold Tasking at h
  unfold Reactor.Calling
  split at h <;> rename_i hpc <;> simp_all

theorem calling_of_mayClose {addr : ℕ} (h : s.MayClose addr = true) : s.reactor.Calling := by
  unfold MayClose at h
  split at h
  · rename_i hpc
    simp [Reactor.Calling, hpc]
  · exact calling_of_tasking h

theorem not_handler_of_tasking (h : s.Tasking = true) (t addr : ℕ) (rest : List ℕ) :
    s.reactor.pc ≠ .handler t addr rest := by
  intro hpc
  simp [Tasking, hpc] at h

namespace Ok

theorem start (tickSet : Bool) : Ok { reactor := { tickSet } } where
  reactor := Reactor.Consistent.start tickSet
  live := nofun
  registered := nofun
  parked := nofun
  running := nofun

theorem of_loop (h : s.Ok) {r : Reactor ℕ} (hr : Reactor.Consistent r)
    (hhandlers : r.handlers = s.reactor.handlers ∨
      r.handlers = s.reactor.drainPendingRemoves.handlers ∧ r.pendingRemove = [])
    (hder : r.deregistered = s.reactor.deregistered)
    (hparked : r.pendingRemove = s.reactor.pendingRemove ∨ r.pendingRemove = [])
    (hrunning : ∀ t addr rest, r.pc = .handler t addr rest → (s.boxes addr).isSome) :
    Ok { s with reactor := r } where
  reactor := hr
  live t addr ht := by
    rw [hder]
    rcases hhandlers with heq | ⟨heq, -⟩
    · exact h.live t addr (heq ▸ ht)
    · rw [heq] at ht
      change (if t ∈ s.reactor.pendingRemove then none else s.reactor.handlers t) = some addr at ht
      split at ht
      · cases ht
      · exact h.live t addr ht
  registered addr t ht := by
    obtain ⟨hhandler, hkept⟩ := h.registered addr t ht
    rw [hder]
    refine ⟨?_, hkept⟩
    rcases hhandlers with heq | ⟨heq, -⟩
    · rw [heq]
      exact hhandler
    · rw [heq]
      change (if t ∈ s.reactor.pendingRemove then none else s.reactor.handlers t) = some addr
      rw [if_neg fun hmem => hkept (h.parked t hmem)]
      exact hhandler
  parked t ht := by
    rw [hder]
    rcases hparked with heq | heq
    · exact h.parked t (heq ▸ ht)
    · rw [heq] at ht
      cases ht
  running := hrunning

end Ok

/-! ## The loop -/

/-- Moves of the loop that are nobody else's calls. -/
def Loops (m : ReactorMove ℕ) : Prop := ∀ h t, m ≠ .register h ∧ m ≠ .deregister t

theorem dispatch_shape (r : Reactor ℕ) (events : List ℕ) :
    ((r.dispatch events).handlers = r.handlers ∧ (r.dispatch events).pendingRemove = r.pendingRemove ∨
      (r.dispatch events).handlers = r.drainPendingRemoves.handlers ∧
        (r.dispatch events).pendingRemove = []) ∧
      (r.dispatch events).deregistered = r.deregistered := by
  cases events with
  | nil => exact ⟨.inl ⟨rfl, rfl⟩, rfl⟩
  | cons t events =>
    unfold Reactor.dispatch
    simp only
    split
    · exact ⟨.inl ⟨rfl, rfl⟩, rfl⟩
    · split
      · exact ⟨.inl ⟨rfl, rfl⟩, rfl⟩
      · exact ⟨.inr ⟨rfl, rfl⟩, rfl⟩

theorem leave_shape (r : Reactor ℕ) :
    (r.leave.handlers = r.handlers ∧ r.leave.pendingRemove = r.pendingRemove ∨
      r.leave.handlers = r.drainPendingRemoves.handlers ∧ r.leave.pendingRemove = []) ∧
      r.leave.deregistered = r.deregistered := by
  unfold Reactor.leave
  split
  · exact ⟨.inr ⟨rfl, rfl⟩, rfl⟩
  · exact ⟨.inr ⟨rfl, rfl⟩, rfl⟩
  · exact ⟨.inl ⟨rfl, rfl⟩, rfl⟩
  · exact ⟨.inl ⟨rfl, rfl⟩, rfl⟩
  · exact ⟨.inl ⟨rfl, rfl⟩, rfl⟩
  · exact ⟨.inl ⟨rfl, rfl⟩, rfl⟩

theorem move_shape (r : Reactor ℕ) {m : ReactorMove ℕ} (hm : Loops m) :
    ((r.move m).handlers = r.handlers ∧ (r.move m).pendingRemove = r.pendingRemove ∨
      (r.move m).handlers = r.drainPendingRemoves.handlers ∧ (r.move m).pendingRemove = []) ∧
      (r.move m).deregistered = r.deregistered := by
  have hsame : (r.handlers = r.handlers ∧ r.pendingRemove = r.pendingRemove ∨
      r.handlers = r.drainPendingRemoves.handlers ∧ r.pendingRemove = []) ∧
      r.deregistered = r.deregistered := ⟨.inl ⟨rfl, rfl⟩, rfl⟩
  cases m with
  | post | setTick | pollFailed => exact hsame
  | polled tokens =>
    unfold Reactor.move
    simp only
    split
    · exact hsame
    · exact hsame
  | next =>
    unfold Reactor.move
    simp only
    split
    · exact dispatch_shape r _
    · exact hsame
  | register h => exact absurd rfl (hm h 0).1
  | deregister t => exact absurd rfl (hm 0 t).2
  | finish => exact leave_shape r

theorem handler_after_move (r : Reactor ℕ) {m : ReactorMove ℕ} (hm : Loops m) {t addr : ℕ} {rest : List ℕ}
    (hpc : (r.move m).pc = .handler t addr rest) :
    r.pc = .handler t addr rest ∨ (∃ events, r.pc = .between events) ∧ r.handlers t = some addr := by
  cases m with
  | post | setTick | pollFailed => exact .inl hpc
  | polled tokens =>
    unfold Reactor.move at hpc
    simp only at hpc
    split at hpc
    · cases hpc
    · exact .inl hpc
  | next =>
    unfold Reactor.move at hpc
    simp only at hpc
    split at hpc
    · rename_i events hbetween
      right
      refine ⟨⟨events, hbetween⟩, ?_⟩
      unfold Reactor.dispatch at hpc
      split at hpc
      · simp only at hpc
        split at hpc <;> cases hpc
      · split at hpc
        · cases hpc
        · split at hpc
          · rename_i y hy
            cases hpc
            exact hy
          · cases hpc
    · exact .inl hpc
  | register h => exact absurd rfl (hm h 0).1
  | deregister t => exact absurd rfl (hm 0 t).2
  | finish =>
    unfold Reactor.move Reactor.leave at hpc
    simp only at hpc
    split at hpc <;> first | cases hpc | exact .inl hpc

namespace Ok

/-- What the loop is about to call is live, under the token it was called with. -/
theorem live_of_call (h : s.Ok) {m : ReactorMove ℕ} (hm : Loops m) {t addr : ℕ} {rest events : List ℕ}
    (hbetween : s.reactor.pc = .between events) (hpc : (s.reactor.move m).pc = .handler t addr rest) :
    s.boxes addr = some (some t) := by
  rcases handler_after_move s.reactor hm hpc with hsame | ⟨-, hhandler⟩
  · rw [hbetween] at hsame
    cases hsame
  · have hkept := h.reactor.callsRegistered m events t addr rest hbetween hpc
    exact (h.live t addr hhandler).resolve_left hkept

theorem loop (h : s.Ok) {m : ReactorMove ℕ} (hm : Loops m) (hfair : Reactor.FairPoll s.reactor m) :
    Ok { s with reactor := s.reactor.move m } := by
  obtain ⟨hshape, hder⟩ := move_shape s.reactor hm
  refine h.of_loop (h.reactor.move hfair) ?_ hder ?_ fun t addr rest hpc => ?_
  · exact hshape.imp And.left id
  · exact hshape.imp And.right And.right
  · rcases handler_after_move s.reactor hm hpc with hsame | ⟨⟨events, hbetween⟩, -⟩
    · exact h.running t addr rest hsame
    · rw [h.live_of_call hm hbetween hpc]
      rfl

/-! ## Sessions -/

theorem create (h : s.Ok) {addr : ℕ} (hfree : s.boxes addr = none) :
    Ok { s with boxes := Function.update s.boxes addr (some none) } where
  reactor := h.reactor
  live t a ht := by
    rcases h.live t a ht with hgone | hbox
    · exact .inl hgone
    · have hne : a ≠ addr := by
        rintro rfl
        rw [hfree] at hbox
        cases hbox
      exact .inr ((Function.update_of_ne hne _ _).trans hbox)
  registered a t hbox := by
    simp only at hbox
    by_cases heq : a = addr
    · rw [heq, Function.update_self] at hbox
      cases hbox
    · rw [Function.update_of_ne heq] at hbox
      exact h.registered a t hbox
  parked := h.parked
  running t a rest hpc := by
    simp only
    by_cases heq : a = addr
    · rw [heq, Function.update_self]
      rfl
    · rw [Function.update_of_ne heq]
      exact h.running t a rest hpc

theorem openSocket (h : s.Ok) (htask : s.Tasking = true) {addr : ℕ} (hbox : s.boxes addr = some none) :
    Ok { reactor := s.reactor.registerSource addr
         boxes := Function.update s.boxes addr (some (some (Reactor.allocToken s.reactor.nextToken).1)) } := by
  obtain ⟨hle, hlt, -⟩ := Reactor.allocToken_spec s.reactor.nextToken
  have hfresh : ∀ t, t = (Reactor.allocToken s.reactor.nextToken).1 → t ∉ s.reactor.deregistered := by
    rintro t rfl hmem
    have := h.reactor.deregistered_lt _ hmem
    omega
  refine ⟨h.reactor.registerSource (calling_of_tasking htask) addr, fun t a ht => ?_, fun a t ht => ?_,
    h.parked, fun t a rest hpc => absurd hpc (not_handler_of_tasking htask t a rest)⟩
  · change Function.update s.reactor.handlers (Reactor.allocToken s.reactor.nextToken).1 (some addr) t =
      some a at ht
    by_cases heq : t = (Reactor.allocToken s.reactor.nextToken).1
    · rw [heq, Function.update_self] at ht
      cases ht
      right
      rw [heq]
      exact Function.update_self ..
    · rw [Function.update_of_ne heq] at ht
      rcases h.live t a ht with hgone | hlive
      · exact .inl hgone
      · have hne : a ≠ addr := by
          rintro rfl
          rw [hbox] at hlive
          cases hlive
        exact .inr ((Function.update_of_ne hne _ _).trans hlive)
  · simp only at ht
    by_cases heq : a = addr
    · rw [heq, Function.update_self] at ht
      cases ht
      refine ⟨?_, hfresh _ rfl⟩
      rw [heq]
      exact Function.update_self ..
    · rw [Function.update_of_ne heq] at ht
      obtain ⟨hhandler, hkept⟩ := h.registered a t ht
      have hne : t ≠ (Reactor.allocToken s.reactor.nextToken).1 := by
        have := h.reactor.handlers_lt t a hhandler
        omega
      exact ⟨(Function.update_of_ne hne _ _).trans hhandler, hkept⟩

theorem close (h : s.Ok) {addr : ℕ} (hcalling : s.reactor.Calling) : (s.close addr).Ok := by
  unfold SessionHeap.close
  split
  · rename_i token hbox
    obtain ⟨hhandler, -⟩ := h.registered addr token hbox
    have hlt : token < s.reactor.nextToken := h.reactor.handlers_lt token addr hhandler
    have hder : (s.reactor.deregisterSource token).deregistered = s.reactor.deregistered ++ [token] :=
      if_pos hlt
    refine ⟨h.reactor.deregisterSource hcalling token, fun t a ht => ?_, fun a t ht => ?_, fun t ht => ?_,
      fun t a rest hpc => ?_⟩
    · rw [hder]
      rcases h.live t a ht with hgone | hlive
      · exact .inl (List.mem_append_left _ hgone)
      · by_cases heq : a = addr
        · rw [heq, hbox] at hlive
          cases hlive
          exact .inl (List.mem_append_right _ (List.mem_singleton_self _))
        · exact .inr ((Function.update_of_ne heq _ _).trans hlive)
    · simp only at ht
      by_cases heq : a = addr
      · rw [heq, Function.update_self] at ht
        cases ht
      · rw [Function.update_of_ne heq] at ht
        obtain ⟨hhandler', hkept⟩ := h.registered a t ht
        refine ⟨hhandler', fun hmem => ?_⟩
        rw [hder] at hmem
        rcases List.mem_append.mp hmem with hmem | hmem
        · exact hkept hmem
        · rw [List.mem_singleton.mp hmem] at hhandler'
          exact heq (Option.some.inj (hhandler'.symm.trans hhandler))
    · rw [hder]
      rcases List.mem_append.mp ht with ht | ht
      · exact List.mem_append_left _ (h.parked t ht)
      · exact List.mem_append_right _ ht
    · simp only
      by_cases heq : a = addr
      · rw [heq, Function.update_self]
        rfl
      · rw [Function.update_of_ne heq]
        exact h.running t a rest hpc
  · exact h

theorem release (h : s.Ok) {addr : ℕ} (hclosed : ∀ t, s.boxes addr ≠ some (some t))
    (hidle : ∀ t a rest, s.reactor.pc ≠ .handler t a rest) :
    Ok { s with boxes := Function.update s.boxes addr none } where
  reactor := h.reactor
  live t a ht := by
    rcases h.live t a ht with hgone | hlive
    · exact .inl hgone
    · have hne : a ≠ addr := by
        rintro rfl
        exact hclosed t hlive
      exact .inr ((Function.update_of_ne hne _ _).trans hlive)
  registered a t ht := by
    simp only at ht
    by_cases heq : a = addr
    · rw [heq, Function.update_self] at ht
      cases ht
    · rw [Function.update_of_ne heq] at ht
      exact h.registered a t ht
  parked := h.parked
  running t a rest hpc := absurd hpc (hidle t a rest)

theorem close_closed (s : SessionHeap) (addr t : ℕ) : (s.close addr).boxes addr ≠ some (some t) := by
  unfold SessionHeap.close
  split
  · simp only [Function.update_self]
    exact nofun
  · rename_i hno
    exact hno t

theorem step (h : s.Ok) {m : HeapMove} (hfair : FairMove s m) : (s.step m).Ok := by
  cases m with
  | loop m =>
    cases m with
    | register x => exact h
    | deregister t => exact h
    | _ => exact h.loop (fun _ _ => ⟨nofun, nofun⟩) hfair
  | create addr =>
    simp only [SessionHeap.step]
    split
    · rename_i hguard
      rw [Bool.and_eq_true, Option.isNone_iff_eq_none] at hguard
      exact h.create hguard.2
    · exact h
  | openSocket addr =>
    simp only [SessionHeap.step]
    split
    · rename_i hguard
      rw [Bool.and_eq_true, beq_iff_eq] at hguard
      exact h.openSocket hguard.1 hguard.2
    · exact h
  | closeSocket addr =>
    simp only [SessionHeap.step]
    split
    · rename_i hguard
      exact h.close (calling_of_mayClose hguard)
    · exact h
  | drop addr =>
    simp only [SessionHeap.step]
    split
    · rename_i htask
      have hpc : (s.close addr).reactor.pc = s.reactor.pc := by
        unfold SessionHeap.close
        split <;> rfl
      refine (h.close (calling_of_tasking htask)).release (close_closed s addr) fun t a rest => ?_
      rw [hpc]
      exact not_handler_of_tasking htask t a rest
    · exact h

end Ok

/-! ## The property -/

/-- The handler that a move calls is the address of a live session, whose open socket has the token that
the event came under; the session stays while its handler runs; and every open socket has its handler. -/
structure FollowsLive (s : SessionHeap) (m : HeapMove) : Prop where
  called : ∀ events t addr rest, s.reactor.pc = .between events →
    (s.step m).reactor.pc = .handler t addr rest → (s.step m).boxes addr = some (some t)
  kept : ∀ t addr rest, (s.step m).reactor.pc = .handler t addr rest → ((s.step m).boxes addr).isSome
  registered : ∀ addr t, (s.step m).boxes addr = some (some t) →
    (s.step m).reactor.handlers t = some addr

theorem Ok.called (h : s.Ok) (m : HeapMove) {events : List ℕ} {t addr : ℕ} {rest : List ℕ}
    (hbetween : s.reactor.pc = .between events) (hpc : (s.step m).reactor.pc = .handler t addr rest) :
    (s.step m).boxes addr = some (some t) := by
  have htask : s.Tasking = false := by simp [Tasking, hbetween]
  have hclose : ∀ a, s.MayClose a = false := fun a => by simp [MayClose, hbetween, htask]
  cases m with
  | loop m =>
    cases m with
    | register x =>
      change s.reactor.pc = _ at hpc
      rw [hbetween] at hpc
      cases hpc
    | deregister x =>
      change s.reactor.pc = _ at hpc
      rw [hbetween] at hpc
      cases hpc
    | _ =>
      refine h.live_of_call ?_ hbetween hpc
      exact fun _ _ => ⟨nofun, nofun⟩
  | _ =>
    simp only [SessionHeap.step, htask, hclose, Bool.false_and, Bool.false_eq_true, if_false] at hpc
    rw [hbetween] at hpc
    cases hpc

/-- Along every run, whatever sessions come and go and whichever addresses they get, the reactor follows
no address of a session that is gone. -/
theorem handler_follows_live (tickSet : Bool) (ms : List HeapMove)
    (h : Along step FairMove { reactor := { tickSet } } ms) :
    Along step FollowsLive { reactor := { tickSet } } ms := by
  refine h.imp (I := Ok) (fun s m hfair hs => ?_) (Ok.start tickSet)
  have hnext := hs.step hfair
  refine ⟨hnext, fun events t addr rest hbetween hpc => hs.called m hbetween hpc, hnext.running, ?_⟩
  exact fun addr t hbox => (hnext.registered addr t hbox).1

/-- The tick opens two sessions. Both have events in one batch, the first closes its socket in its
handler, and the next tick drops it and puts a new one at its address. -/
def addressReused : List HeapMove :=
  [.loop (.polled []), .loop .next, .create 7, .openSocket 7, .create 8, .openSocket 8, .loop .finish,
    .loop (.polled [1, 2]), .loop .next, .closeSocket 7, .loop .finish, .loop .next, .loop .finish,
    .loop .next, .drop 7, .create 7, .openSocket 7, .loop .finish, .loop (.polled [3]), .loop .next]

theorem handler_follows_live_reused :
    Along step FollowsLive { reactor := { tickSet := true } } addressReused ∧
      (addressReused.foldl step { reactor := { tickSet := true } }).reactor.pc = .handler 3 7 [] :=
  ⟨handler_follows_live true addressReused (by decide), by decide⟩

end SessionHeap

end BaleVpn.Dispatch
