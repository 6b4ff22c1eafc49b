import BaleVpn.Tunnel.Lifecycle

/-!
# A tunnel that ends says so (`lib.rs`, `manager.rs`)

The watchers of the managers wait for an event of kind `Disconnected`. Whoever brings the tunnel's
state to a terminal one pushes such an event before it is through, with three exceptions: the
peer-wait that times out or finds the engine's channel closed, and the main loop that finds it
closed. A fourth needs a race: a teardown that found the state terminal pushes nothing, even if the
connect task has made the state `Connected` since.
-/

namespace BaleVpn.Tunnel

/-! ## The watchers -/

inductive SessionEvent
  | connected | disconnected | failed
  deriving DecidableEq, Repr

/-- A watcher between two events; `current` while the registry's entry is its tunnel. -/
structure Watch where
  entered : Bool := false
  current : Bool := true
  sessions : ℤ := 0
  emitted : List SessionEvent := []
  deriving DecidableEq, Repr

/-- What both watchers emit at the end. -/
def Watch.farewell (w : Watch) : SessionEvent := if w.entered then .disconnected else .failed

/-- The loop of `spawn_client_watcher`. -/
def clientWatcher (w : Watch) : List Event → Watch
  | [] => w
  | e :: es =>
    match e.kind with
    | .connected =>
      if w.entered then clientWatcher w es
      else if !w.current then { w with entered := true }
      else
        clientWatcher
          { w with
            entered := true, sessions := w.sessions + 1, emitted := w.emitted ++ [.connected] } es
    | .disconnected =>
      let sessions := if w.entered then w.sessions - 1 else w.sessions
      if !w.current then { w with sessions }
      else { w with current := false, sessions, emitted := w.emitted ++ [w.farewell] }
    | _ => clientWatcher w es

/-- The loop of `spawn_server_watcher`; `alive` while `weak_t.upgrade()` succeeds. -/
def serverWatcher (alive : Bool) (w : Watch) : List Event → Watch
  | [] => w
  | e :: es =>
    match e.kind with
    | .connected =>
      if w.entered then serverWatcher alive w es
      else if !alive then { w with entered := true }
      else
        serverWatcher alive { w with entered := true, emitted := w.emitted ++ [.connected] } es
    | .disconnected => { w with current := false, emitted := w.emitted ++ [w.farewell] }
    | _ => serverWatcher alive w es

/-- The registry's entry is gone, and the peer's session is reported as ended. -/
def Watch.Cleared (w : Watch) : Prop :=
  w.current = false ∧ (.failed ∈ w.emitted ∨ .disconnected ∈ w.emitted)

theorem farewell_mem (w : Watch) :
    .failed ∈ w.emitted ++ [w.farewell] ∨ .disconnected ∈ w.emitted ++ [w.farewell] := by
  unfold Watch.farewell
  split <;> simp

theorem clientWatcher_cleared {es : List Event} (hes : es.any (·.kind == .disconnected) = true) :
    ∀ {w : Watch}, w.current = true → (clientWatcher w es).Cleared := by
  induction es with
  | nil => cases hes
  | cons e es ih =>
    intro w hw
    have hrest : e.kind ≠ .disconnected → es.any (·.kind == .disconnected) = true := by
      intro hkind
      simpa [hkind] using hes
    unfold clientWatcher
    split
    · rename_i hkind
      have hes' := hrest (by rw [hkind]; decide)
      split
      · exact ih hes' hw
      · rw [if_neg (by simp [hw])]
        exact ih hes' hw
    · simp only
      rw [if_neg (by simp [hw])]
      exact ⟨rfl, farewell_mem w⟩
    · rename_i hkind
      exact ih (hrest hkind) hw

theorem serverWatcher_cleared {es : List Event} (hes : es.any (·.kind == .disconnected) = true) :
    ∀ {w : Watch}, w.current = true → (serverWatcher true w es).Cleared := by
  induction es with
  | nil => cases hes
  | cons e es ih =>
    intro w hw
    have hrest : e.kind ≠ .disconnected → es.any (·.kind == .disconnected) = true := by
      intro hkind
      simpa [hkind] using hes
    unfold serverWatcher
    split
    · rename_i hkind
      have hes' := hrest (by rw [hkind]; decide)
      split
      · exact ih hes' hw
      · exact ih hes' hw
    · exact ⟨rfl, farewell_mem w⟩
    · rename_i hkind
      exact ih (hrest hkind) hw

/-! ## The property -/

namespace LkTunnel

/-- An event of kind `Disconnected` has been pushed. -/
def said (t : LkTunnel) : Bool := t.events.any (·.kind == .disconnected)

def finished (t : LkTunnel) : Actor → Bool
  | .connectTask => t.connectPc == .returned
  | .call i => t.calls[i]?.all Call.isReturned

/-- The tunnel's end was told, and the watchers have acted on it. -/
structure Told (t : LkTunnel) : Prop where
  said : t.said = true
  client : (clientWatcher {} t.events).Cleared
  server : (serverWatcher true {} t.events).Cleared

theorem told_of_said {t : LkTunnel} (h : t.said = true) : t.Told :=
  ⟨h, clientWatcher_cleared h rfl, serverWatcher_cleared h rfl⟩

/-- Who ended the tunnel and is through has told. -/
def EndTold (t : LkTunnel) : Prop := ∀ a ∈ t.ended, t.finished a = true → t.Told

/-- The connect task leaves its peer-wait or its main loop without a word. -/
def leavesSilently (t : LkTunnel) (i : EngineInput) : Bool :=
  !t.connectAborted &&
    (t.connectPc == .peerWait && (i == .timeout || i == .closed) ||
      t.connectPc == .mainLoop && i == .closed)

end LkTunnel

/-- No silent exit before a `Disconnected` event, and no teardown that goes by an outdated state. -/
def Announced (t : LkTunnel) : Move → Prop
  | .connect i => t.leavesSilently i = true → t.said = true
  | .call n _ => t.calls[n]? = some (.teardown (.send true)) →
      t.state.isTerminal = true ∨ t.said = true
  | _ => True

instance (t : LkTunnel) : (m : Move) → Decidable (Announced t m)
  | .connect i => inferInstanceAs (Decidable (t.leavesSilently i = true → t.said = true))
  | .call n _ => inferInstanceAs (Decidable (t.calls[n]? = some (.teardown (.send true)) →
      t.state.isTerminal = true ∨ t.said = true))
  | .enter _ | .keeper .. | .drop | .subscribe | .unsubscribe | .senderEnds | .acceptorEnds _
  | .accept _ | .spawnConn _ | .connEnds .. | .listenerEnds _ => isTrue trivial

/-! ## What is still owed -/

/-- The connect task is about to push its `Disconnected` event. -/
def ConnectPc.owes : ConnectPc → Bool
  | .dialError _ | .dialGone | .waitGone _ => true
  | _ => false

/-- The connect task is past an exit that pushes none. -/
def ConnectPc.silent : ConnectPc → Bool
  | .noPeer | .noPeerError | .loopExit | .loopExitState => true
  | _ => false

namespace LkTunnel

def Owes (t : LkTunnel) : Actor → Prop
  | .connectTask => t.connectPc.owes = true
  | .call i => t.calls[i]? = some (.teardown .pushEvent)

/-- Who ended the tunnel has told or is about to. -/
structure Owed (t : LkTunnel) : Prop where
  ended : ∀ a ∈ t.ended, t.said = true ∨ t.Owes a
  silent : t.connectPc.silent = true → t.said = true

/-- The teardowns that are about to push their event are still there. -/
def KeepsPushes (t t' : LkTunnel) : Prop :=
  ∀ i : ℕ, t.calls[i]? = some (Call.teardown .pushEvent) →
    t'.calls[i]? = some (Call.teardown .pushEvent)

theorem Owed.endTold {t : LkTunnel} (h : Owed t) : t.EndTold := by
  intro a ha hfin
  obtain hsaid | howes := h.ended a ha
  · exact told_of_said hsaid
  · exfalso
    cases a with
    | connectTask =>
      have hpc : t.connectPc = .returned := by simpa [finished] using hfin
      have howes' : t.connectPc.owes = true := howes
      rw [hpc] at howes'
      cases howes'
    | call i =>
      have hcall : t.calls[i]? = some (.teardown .pushEvent) := howes
      simp [finished, hcall, Call.isReturned] at hfin

theorem Owed.quiet {t t' : LkTunnel} (h : Owed t) (hended : t'.ended = t.ended)
    (hsaid : t.said = true → t'.said = true) (hpc : t'.connectPc = t.connectPc)
    (hcalls : KeepsPushes t t') : Owed t' := by
  constructor
  · intro a ha
    rw [hended] at ha
    obtain hs | howes := h.ended a ha
    · exact .inl (hsaid hs)
    · refine .inr ?_
      cases a with
      | connectTask =>
        show t'.connectPc.owes = true
        rw [hpc]
        exact howes
      | call i => exact hcalls i howes
  · intro hsilent
    rw [hpc] at hsilent
    exact hsaid (h.silent hsilent)

theorem Owed.connect {t t' : LkTunnel} (h : Owed t) (hcalls : KeepsPushes t t')
    (hsaid : t.said = true → t'.said = true)
    (hended : ∀ a ∈ t'.ended, a ∈ t.ended ∨ a = .connectTask)
    (howes : .connectTask ∈ t'.ended → t'.said = true ∨ t'.connectPc.owes = true)
    (hsilent : t'.connectPc.silent = true → t'.said = true) : Owed t' := by
  refine ⟨fun a ha => ?_, hsilent⟩
  cases a with
  | connectTask => exact howes ha
  | call i =>
    obtain ha | ha := hended _ ha
    · obtain hs | hpush := h.ended _ ha
      · exact .inl (hsaid hs)
      · exact .inr (hcalls i hpush)
    · cases ha

theorem said_emitEvent (t : LkTunnel) (kind : EventKind) (info : String) :
    (t.emitEvent kind info).said = (t.said || kind == .disconnected) := by
  simp [said, emitEvent]

theorem sendState_spec (t : LkTunnel) (a : Actor) (s : TunnelState) :
    (t.sendState a s).events = t.events ∧ (t.sendState a s).calls = t.calls ∧
      (t.sendState a s).connectPc = t.connectPc ∧
      ((t.sendState a s).ended = t.ended ∨ t.state.isTerminal = false ∧
        (t.sendState a s).ended = t.ended ++ [a]) := by
  refine ⟨rfl, rfl, rfl, ?_⟩
  unfold sendState
  by_cases hterm : t.state.isTerminal = false
  · by_cases hs : s.isTerminal = true
    · exact .inr ⟨hterm, by simp [hterm, hs]⟩
    · exact .inl (by simp [hs])
  · exact .inl (by simp [hterm])

theorem sendStateWeak_spec (t : LkTunnel) (a : Actor) (s : TunnelState) :
    (t.sendStateWeak a s).events = t.events ∧ (t.sendStateWeak a s).calls = t.calls ∧
      ∀ a' ∈ (t.sendStateWeak a s).ended, a' ∈ t.ended ∨ a' = a := by
  unfold sendStateWeak
  split
  · obtain ⟨hev, hcalls, -, hended⟩ := sendState_spec t a s
    refine ⟨hev, hcalls, fun a' ha' => ?_⟩
    obtain hended | ⟨-, hended⟩ := hended
    · exact .inl (hended ▸ ha')
    · rw [hended] at ha'
      simpa using ha'
  · exact ⟨rfl, rfl, fun _ => .inl⟩

theorem KeepsPushes.of_eq {t t' : LkTunnel} (h : t'.calls = t.calls) : KeepsPushes t t' :=
  fun _ hi => h ▸ hi

theorem KeepsPushes.append {t t' : LkTunnel} {l : List Call} (h : t'.calls = t.calls ++ l) :
    KeepsPushes t t' := by
  intro i hi
  rw [h]
  obtain ⟨hlt, -⟩ := List.getElem?_eq_some_iff.mp hi
  rw [List.getElem?_append_left hlt]
  exact hi

theorem Owed.goto {t t' : LkTunnel} (h : Owed t) (hcalls : KeepsPushes t t')
    (hended : t'.ended = t.ended) (hsaid : t.said = true → t'.said = true)
    (howes : t.connectPc.owes = true → t'.said = true ∨ t'.connectPc.owes = true)
    (hsilent : t'.connectPc.silent = true → t'.said = true) : Owed t' := by
  refine h.connect hcalls hsaid (fun a ha => .inl (hended ▸ ha)) ?_ hsilent
  intro ha
  rw [hended] at ha
  obtain hs | ho := h.ended _ ha
  · exact .inl (hsaid hs)
  · exact howes ho

theorem Owed.sends {t : LkTunnel} (h : Owed t) (s : TunnelState) {pc : ConnectPc}
    (howes : t.said = true ∨ pc.owes = true ∨ s.isTerminal = false ∧ t.connectPc.owes = false)
    (hsilent : pc.silent = true → t.said = true) :
    Owed ((t.sendStateWeak .connectTask s).goto pc) := by
  obtain ⟨hev, hcalls, hended⟩ := sendStateWeak_spec t .connectTask s
  have hsaid : ((t.sendStateWeak .connectTask s).goto pc).said = t.said := by
    show (t.sendStateWeak .connectTask s).events.any _ = t.events.any _
    rw [hev]
  refine h.connect (.of_eq hcalls) (fun hs => hsaid ▸ hs) hended ?_ (fun hs => hsaid ▸ hsilent hs)
  intro ha
  rw [hsaid]
  obtain hs | ho | ⟨hlive, hpc⟩ := howes
  · exact .inl hs
  · exact .inr ho
  · -- A live state ends nothing, so the connect task had ended the tunnel before.
    have hsame : (t.sendStateWeak .connectTask s).ended = t.ended := by
      unfold sendStateWeak sendState
      split
      · simp [hlive]
      · rfl
    have ha' : .connectTask ∈ t.ended := hsame ▸ ha
    obtain hs | ho := h.ended _ ha'
    · exact .inl hs
    · have ho' : t.connectPc.owes = true := ho
      rw [hpc] at ho'
      cases ho'

theorem Owed.leave {t t' : LkTunnel} (h : Owed t) (hpc : t.connectPc.owes = false)
    (hcalls : KeepsPushes t t') (hended : t'.ended = t.ended) (hsaid : t.said = true → t'.said = true)
    (hsilent : t'.connectPc.silent = true → t'.said = true) : Owed t' :=
  h.goto hcalls hended hsaid (fun ho => by rw [hpc] at ho; cases ho) hsilent

theorem said_emit_of {t : LkTunnel} (kind : EventKind) (info : String) (h : t.said = true) :
    (t.emitEvent kind info).said = true := by
  rw [said_emitEvent, h, Bool.true_or]

theorem said_emit_disconnected (t : LkTunnel) (info : String) :
    (t.emitEvent .disconnected info).said = true := by
  rw [said_emitEvent]
  exact Bool.or_true _

theorem Owed.emit {t : LkTunnel} (h : Owed t) (kind : EventKind) (info : String) :
    Owed (t.emitEvent kind info) :=
  h.quiet rfl (said_emit_of kind info) rfl (.of_eq rfl)

theorem Owed.atPeerWait {t : LkTunnel} (h : Owed t) (hpc : t.connectPc = .peerWait) {i : EngineInput}
    (hann : i = .timeout ∨ i = .closed → t.said = true) : Owed (t.atPeerWait i) := by
  have howes : t.connectPc.owes = false := by rw [hpc]; rfl
  cases i with
  | timeout => exact h.leave howes (.of_eq rfl) rfl id fun _ => hann (.inl rfl)
  | closed => exact h.leave howes (.of_eq rfl) rfl id fun _ => hann (.inr rfl)
  | peerJoined id => exact h.leave howes (.of_eq rfl) rfl (said_emit_of _ _) nofun
  | peerLeft id => exact h.emit _ _
  | disconnected msg => exact h.leave howes (.of_eq rfl) rfl id nofun
  | dialed | dialFailed | probe => exact h

theorem Owed.atMainLoop {t : LkTunnel} (h : Owed t) (hpc : t.connectPc = .mainLoop) {i : EngineInput}
    (hann : i = .closed → t.said = true) : Owed (t.atMainLoop i) := by
  have howes : t.connectPc.owes = false := by rw [hpc]; rfl
  have hgone : ∀ info, Owed ((t.emitEvent .disconnected info).goto .loopExit) := fun info =>
    h.leave howes (.of_eq rfl) rfl (said_emit_of _ _) fun _ => said_emit_disconnected t info
  cases i with
  | closed => exact h.leave howes (.of_eq rfl) rfl id fun _ => hann rfl
  | peerJoined id | peerLeft id => exact h.emit _ _
  | disconnected msg => exact hgone msg
  | probe present =>
    cases present with
    | true => exact h
    | false => exact hgone "room empty"
  | dialed | dialFailed | timeout => exact h

theorem Owed.connectStep {t : LkTunnel} (h : Owed t) {i : EngineInput}
    (hann : t.leavesSilently i = true → t.said = true) : Owed (t.connectStep i) := by
  by_cases hstop : (t.connectAborted && t.connectPc.awaits) = true
  · have hpc : t.connectPc.owes = false := by
      rw [Bool.and_eq_true] at hstop
      have hawaits := hstop.2
      cases hcase : t.connectPc <;> rw [hcase] at hawaits <;> first | rfl | cases hawaits
    unfold LkTunnel.connectStep
    rw [if_pos hstop]
    exact h.leave hpc (.of_eq rfl) rfl id nofun
  · have hlive : t.connectPc.awaits = true → t.connectAborted = false := by
      intro hawaits
      simpa [hawaits] using hstop
    unfold LkTunnel.connectStep
    rw [if_neg hstop]
    cases hpc : t.connectPc with
    | dialing =>
      have howes : t.connectPc.owes = false := by rw [hpc]; rfl
      cases i with
      | dialed => exact h.leave howes (.of_eq rfl) rfl id nofun
      | dialFailed msg => exact h.leave howes (.of_eq rfl) rfl id nofun
      | _ => exact h
    | dialFailed msg => exact h.sends _ (.inr (.inl rfl)) nofun
    | dialError msg =>
      exact h.goto (.of_eq rfl) rfl (said_emit_of _ _) (fun _ => .inr rfl) nofun
    | dialGone =>
      have hs := said_emit_disconnected t "connect failed"
      exact h.goto (.of_eq rfl) rfl (fun _ => hs) (fun _ => .inl hs) nofun
    | dialed =>
      simp only
      split <;> exact h.leave (by rw [hpc]; rfl) (.of_eq rfl) rfl id nofun
    | spawnSender => exact h.leave (by rw [hpc]; rfl) (.of_eq rfl) rfl id nofun
    | storeSender => exact h.leave (by rw [hpc]; rfl) (.of_eq rfl) rfl id nofun
    | peerWait =>
      have hab := hlive (by rw [hpc]; rfl)
      refine h.atPeerWait hpc fun hi => hann ?_
      rcases hi with rfl | rfl <;> simp [leavesSilently, hab, hpc]
    | waitLost msg => exact h.sends _ (.inr (.inl rfl)) nofun
    | waitGone msg =>
      have hs := said_emit_disconnected t msg
      exact h.goto (.of_eq rfl) rfl (fun _ => hs) (fun _ => .inl hs) nofun
    | noPeer =>
      have hs := h.silent (by rw [hpc]; rfl)
      exact h.sends _ (.inl hs) fun _ => hs
    | noPeerError => exact h.leave (by rw [hpc]; rfl) (.of_eq rfl) rfl (said_emit_of _ _) nofun
    | joined => exact h.leave (by rw [hpc]; rfl) (.of_eq rfl) rfl id nofun
    | joinedState => exact h.sends _ (.inr (.inr ⟨rfl, by rw [hpc]; rfl⟩)) nofun
    | joinedEvent => exact h.leave (by rw [hpc]; rfl) (.of_eq rfl) rfl (said_emit_of _ _) nofun
    | warm =>
      simp only
      unfold warmUp
      split
      · exact h.leave (by rw [hpc]; rfl) (.append (l := [.ensureQuic]) rfl) rfl id nofun
      · exact h.leave (by rw [hpc]; rfl) (.of_eq rfl) rfl id nofun
    | mainLoop =>
      have hab := hlive (by rw [hpc]; rfl)
      refine h.atMainLoop hpc fun hi => hann ?_
      rw [hi]
      simp [leavesSilently, hab, hpc]
    | loopExit =>
      have hs := h.silent (by rw [hpc]; rfl)
      exact h.leave (by rw [hpc]; rfl) (.of_eq rfl) rfl id fun _ => hs
    | loopExitState =>
      have hs := h.silent (by rw [hpc]; rfl)
      exact h.sends _ (.inl hs) nofun
    | returned => exact h

/-! ## Calls -/

/-- What a step of a call other than a teardown leaves alone. -/
structure SameStory (t t' : LkTunnel) : Prop where
  ended : t'.ended = t.ended
  events : t'.events = t.events
  connectPc : t'.connectPc = t.connectPc
  calls : ∃ cs, t'.calls = t.calls ++ cs

theorem SameStory.same {t t' : LkTunnel} (hended : t'.ended = t.ended)
    (hevents : t'.events = t.events) (hpc : t'.connectPc = t.connectPc) (hcalls : t'.calls = t.calls) :
    SameStory t t' := ⟨hended, hevents, hpc, [], by rw [hcalls, List.append_nil]⟩

theorem stepOf_sameStory (t : LkTunnel) (n : ℕ) (ok : Bool) {c : Call}
    (hc : ∀ pc, c ≠ .teardown pc) : SameStory t (t.stepOf n ok c).1 := by
  cases c with
  | teardown pc => exact absurd rfl (hc pc)
  | acceptor pc =>
    cases pc <;> simp only [stepOf, acceptorStep] <;> first
      | exact .same rfl rfl rfl rfl
      | (split <;> exact .same rfl rfl rfl rfl)
  | enableSocks5Store i =>
    simp only [stepOf, storeListener]
    split
    · exact .same rfl rfl rfl rfl
    · exact ⟨rfl, rfl, rfl, [.ensureQuic], rfl⟩
  | _ =>
    simp only [stepOf]
    first
      | exact .same rfl rfl rfl rfl
      | (split <;> exact .same rfl rfl rfl rfl)

theorem KeepsPushes.set {t t' : LkTunnel} {n : ℕ} {c : Call} {l : List Call}
    (hn : t.calls[n]? ≠ some (Call.teardown .pushEvent))
    (h : t'.calls = (t.calls ++ l).set n c) : KeepsPushes t t' := by
  intro i hi
  have hne : n ≠ i := by
    rintro rfl
    exact hn hi
  rw [h, List.getElem?_set_ne hne]
  have happend : KeepsPushes t { t with calls := t.calls ++ l } := .append rfl
  exact happend i hi

theorem Owed.of_said {t : LkTunnel} (h : t.said = true) : Owed t :=
  ⟨fun _ _ => .inl h, fun _ => h⟩

theorem teardownStep_sameStory (t : LkTunnel) (n : ℕ) {pc : TeardownPc} (hsend : ∀ b, pc ≠ .send b)
    (hpush : pc ≠ .pushEvent) : (t.teardownStep n pc).1.ended = t.ended ∧
      (t.teardownStep n pc).1.events = t.events ∧ (t.teardownStep n pc).1.connectPc = t.connectPc ∧
      (t.teardownStep n pc).1.calls = t.calls := by
  cases pc with
  | send b => exact absurd rfl (hsend b)
  | pushEvent => exact absurd rfl hpush
  | abortTask | abortSender =>
    simp only [teardownStep]
    split <;> exact ⟨rfl, rfl, rfl, rfl⟩
  | abortSocks5 =>
    simp only [teardownStep, abortListener]
    split <;> exact ⟨rfl, rfl, rfl, rfl⟩
  | abortQuicServer =>
    simp only [teardownStep, abortAcceptor]
    split <;> exact ⟨rfl, rfl, rfl, rfl⟩
  | _ => exact ⟨rfl, rfl, rfl, rfl⟩

/-- The first send of a teardown. It owes its event, or ends nothing. -/
theorem Owed.teardownSend {t : LkTunnel} (h : Owed t) {n : ℕ} {done : Bool} {t' : LkTunnel}
    (hcall : t.calls[n]? = some (Call.teardown (.send done)))
    (hann : done = true → t.state.isTerminal = true ∨ t.said = true)
    (hended : t'.ended = (t.sendState (.call n) .disconnected).ended)
    (hevents : t'.events = t.events) (hpc : t'.connectPc = t.connectPc)
    (hcalls : t'.calls =
      t.calls.set n (.teardown (if done then .returned false else .pushEvent))) : Owed t' := by
  have hkeep : KeepsPushes t t' :=
    .set (l := []) (by rw [hcall]; simp) (by rw [hcalls, List.append_nil])
  have hsaid : t'.said = t.said := by
    unfold said
    rw [hevents]
  obtain ⟨-, -, -, hsame | ⟨hlive, hadded⟩⟩ := sendState_spec t (.call n) .disconnected
  · exact h.quiet (hended.trans hsame) (fun hs => hsaid ▸ hs) hpc hkeep
  · cases done with
    | true =>
      have hs : t.said = true := (hann rfl).resolve_left (by rw [hlive]; exact Bool.false_ne_true)
      exact .of_said (hsaid ▸ hs)
    | false =>
      have hquiet : Owed { t' with ended := t.ended } :=
        h.quiet rfl (fun hs => hsaid ▸ hs) hpc hkeep
      refine ⟨fun a ha => ?_, hquiet.silent⟩
      rw [hended, hadded] at ha
      obtain ha | ha := List.mem_append.mp ha
      · exact hquiet.ended a ha
      · obtain rfl := List.mem_singleton.mp ha
        have hlt := (List.getElem?_eq_some_iff.mp hcall).1
        refine .inr ?_
        show t'.calls[n]? = _
        rw [hcalls, List.getElem?_set_self hlt]
        rfl

theorem Owed.callStep {t : LkTunnel} (h : Owed t) {n : ℕ} (ok : Bool)
    (hann : t.calls[n]? = some (Call.teardown (.send true)) →
      t.state.isTerminal = true ∨ t.said = true) : Owed (t.callStep n ok) := by
  unfold LkTunnel.callStep
  cases hcall : t.calls[n]? with
  | none => exact h
  | some c =>
    by_cases hc : ∃ pc, c = .teardown pc
    · obtain ⟨pc, rfl⟩ := hc
      by_cases hsend : ∃ b, pc = .send b
      · obtain ⟨done, rfl⟩ := hsend
        obtain ⟨hev, hcalls, hpc, -⟩ := sendState_spec t (.call n) .disconnected
        refine h.teardownSend hcall (fun hd => hann (by rw [hcall, hd])) rfl hev hpc ?_
        show List.set (t.sendState (.call n) .disconnected).calls _ _ = _
        rw [hcalls]
        rfl
      · by_cases hpush : pc = .pushEvent
        · obtain rfl := hpush
          exact .of_said (said_emit_disconnected t "tunnel torn down")
        · obtain ⟨hended, hev, hpc, hcalls⟩ :=
            teardownStep_sameStory t n (fun b hb => hsend ⟨b, hb⟩) hpush
          refine h.quiet hended (fun hs => ?_) hpc ?_
          · show (t.teardownStep n pc).1.events.any _ = true
            rw [hev]
            exact hs
          · refine .set (c := .teardown (t.teardownStep n pc).2) (l := [])
              (by rw [hcall]; simpa using hpush) ?_
            show List.set (t.teardownStep n pc).1.calls n (.teardown (t.teardownStep n pc).2) = _
            rw [hcalls, List.append_nil]
    · have hstory := stepOf_sameStory t n ok (c := c) fun pc hpc => hc ⟨pc, hpc⟩
      obtain ⟨cs, hcalls⟩ := hstory.calls
      refine h.quiet hstory.ended (fun hs => ?_) hstory.connectPc 
        (.set (n := n) (c := (t.stepOf n ok c).2) (l := cs) ?_ ?_)
      · show (t.stepOf n ok c).1.events.any _ = true
        rw [hstory.events]
        exact hs
      · rw [hcall]
        intro hpush
        exact hc ⟨.pushEvent, Option.some.inj hpush⟩
      · show List.set (t.stepOf n ok c).1.calls n _ = _
        rw [hcalls]

theorem keeperMove_sameStory (t : LkTunnel) (n : ℕ) (ok : Bool) :
    SameStory t (t.keeperMove n ok) := by
  unfold keeperMove
  split
  · rename_i pc _
    cases pc <;> simp only [keeperStep] <;> first
      | exact .same rfl rfl rfl rfl
      | (split <;> exact .same rfl rfl rfl rfl)
  · exact .same rfl rfl rfl rfl

theorem Owed.sameStory {t t' : LkTunnel} (h : Owed t) (hs : SameStory t t') : Owed t' := by
  obtain ⟨cs, hcalls⟩ := hs.calls
  refine h.quiet hs.ended (fun hsaid => ?_) hs.connectPc (.append hcalls)
  unfold said
  rw [hs.events]
  exact hsaid

theorem Owed.step {t : LkTunnel} {m : Move} (hann : Announced t m) (h : Owed t) : Owed (t.step m) := by
  cases m with
  | connect i => exact h.connectStep hann
  | call n ok => exact h.callStep ok hann
  | keeper n ok => exact h.sameStory (keeperMove_sameStory t n ok)
  | enter c => exact h.sameStory ⟨rfl, rfl, rfl, [c.enter], rfl⟩
  | drop => exact h.sameStory ⟨rfl, rfl, rfl, [.teardown .check], rfl⟩
  | _ => exact h.sameStory (.same rfl rfl rfl rfl)

end LkTunnel

/-- Who ends a tunnel has told the watchers when it is through, in every run whose moves are announced;
whether anybody looks at the tunnel's state makes no difference. -/
theorem end_is_told (role : TunnelRole) {ms : List Move} (h : AllMoves Announced { role } ms) :
    (LkTunnel.run { role } ms).EndTold := by
  have hstart : LkTunnel.Owed { role } := ⟨nofun, nofun⟩
  exact (run_invariant (fun _ _ => LkTunnel.Owed.step) hstart h).endTold

/-- A tunnel whose peer joins and whose engine then reports the end. The receiver that came with the state
channel is gone, as it is behind the managers. -/
def announcedRun : List Move :=
  [.unsubscribe, .connect .dialed, .connect .closed, .connect .closed, .connect .closed,
    .connect (.peerJoined "p"), .connect .closed, .connect .closed, .connect .closed,
    .connect .closed, .connect (.disconnected "left"), .connect .closed, .connect .closed]

theorem end_is_told_announced : (LkTunnel.run { role := .server } announcedRun).ended = [.connectTask] ∧
    (LkTunnel.run { role := .server } announcedRun).EndTold :=
  ⟨by decide +kernel, end_is_told .server (by decide +kernel)⟩

/-- The engine is up, and no peer joins in time. -/
def lonelyRun : List Move :=
  [.unsubscribe, .connect .dialed, .connect .closed, .connect .closed, .connect .closed,
    .connect .timeout, .connect .closed, .connect .closed]

theorem lonely_tunnel_ends_silently :
    ¬ ∀ (role : TunnelRole) (ms : List Move), (LkTunnel.run { role } ms).EndTold := by
  intro hall
  have htold := hall .server lonelyRun .connectTask (by decide +kernel) (by decide +kernel)
  exact absurd htold.said (by decide +kernel)

end BaleVpn.Tunnel
