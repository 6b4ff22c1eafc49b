import Mathlib.Data.List.Induction
import BaleVpn.Tunnel.Lifecycle

/-!
# A tunnel that ended stays so (`lib.rs`)

`teardown` marks the tunnel `Disconnected` first, and aborts the connect task some steps later. The
connect task does not look at the state again: once a peer has joined it stores `connected` and sends
`Connected`, with no `await` in between at which an abort could stop it. Everything else the tunnel
does brings state and flag down or leaves them, so these two writes decide.
-/

namespace BaleVpn.Tunnel

/-! ## The property -/

/-- Once the state is terminal in the run, it stays terminal, and `connected` is not set again. -/
structure StaysDown (t : LkTunnel) (ms : List Move) : Prop where
  state : ∀ before after, before ++ after <+: ms → (t.run before).state.isTerminal = true →
    (t.run (before ++ after)).state.isTerminal = true
  connected : ∀ before after m, before ++ after ++ [m] <+: ms →
    (t.run before).state.isTerminal = true → (t.run (before ++ after)).connected = false →
      (t.run (before ++ after ++ [m])).connected = false

/-- Once a terminal state has been sent in the run, whether or not anybody was there to take it, `connected`
is not set again. -/
def FlagStaysDown (t : LkTunnel) (ms : List Move) : Prop :=
  ∀ before after m, before ++ after ++ [m] <+: ms → (t.run before).ended ≠ [] →
    (t.run (before ++ after)).connected = false → (t.run (before ++ after ++ [m])).connected = false

/-- The connect task sets the flag for the peer that joined only while nobody has ended the tunnel. -/
def Unended (t : LkTunnel) : Move → Prop
  | .connect _ => t.connectPc = .joined → t.ended = []
  | _ => True

/-- The connect task does its two writes for the peer that joined only while the state is live. The
second one is void when nobody is left to see it. -/
def Unraced (t : LkTunnel) : Move → Prop
  | .connect _ =>
    (t.connectPc = .joined → t.state.isTerminal = false) ∧
      (t.connectPc = .joinedState → t.alive = true → t.receivers ≠ 0 → t.state.isTerminal = false)
  | _ => True

instance (t : LkTunnel) : (m : Move) → Decidable (Unraced t m)
  | .connect _ => inferInstanceAs (Decidable ((t.connectPc = .joined → t.state.isTerminal = false) ∧
      (t.connectPc = .joinedState → t.alive = true → t.receivers ≠ 0 → t.state.isTerminal = false)))
  | .enter _ | .call .. | .keeper .. | .drop | .subscribe | .unsubscribe | .senderEnds
  | .acceptorEnds _ | .accept _ | .spawnConn _ | .connEnds .. | .listenerEnds _ => isTrue trivial

/-! ## Steps that go down -/

/-- The connect task has not set the flag yet. -/
def ConnectPc.beforeJoin : ConnectPc → Bool
  | .dialing | .dialed | .spawnSender | .storeSender | .peerWait | .joined => true
  | _ => false

/-- The state is left or ended, the flag left or cleared, and the connect task does not go back. -/
structure Downward (t t' : LkTunnel) : Prop where
  state : t'.state = t.state ∨ t'.state.isTerminal = true
  connected : t'.connected = true → t.connected = true
  forth : t'.connectPc.beforeJoin = true → t.connectPc.beforeJoin = true
  ended : t.ended <+: t'.ended

namespace Downward

theorem of_eq {t t' : LkTunnel} (hs : t'.state = t.state) (hc : t'.connected = t.connected)
    (hpc : t'.connectPc.beforeJoin = true → t.connectPc.beforeJoin = true)
    (hended : t'.ended = t.ended := by rfl) : Downward t t' :=
  ⟨.inl hs, fun h => hc ▸ h, hpc, hended ▸ List.prefix_refl _⟩

theorem ended_sendState (t : LkTunnel) (a : Actor) (s : TunnelState) :
    t.ended <+: (t.sendState a s).ended := by
  unfold LkTunnel.sendState
  dsimp only
  split
  · exact List.prefix_append _ _
  · exact List.prefix_refl _

theorem sendState (t : LkTunnel) (a : Actor) {s : TunnelState} (hs : s.isTerminal = true) :
    Downward t (t.sendState a s) := by
  refine ⟨?_, id, id, ended_sendState t a s⟩
  by_cases hrecv : t.receivers = 0
  · exact .inl (if_pos hrecv)
  · exact .inr ((congrArg TunnelState.isTerminal (if_neg hrecv)).trans hs)

theorem sends (t : LkTunnel) (a : Actor) {s : TunnelState} (hs : s.isTerminal = true) {pc : ConnectPc}
    (hpc : pc.beforeJoin = false) : Downward t ((t.sendStateWeak a s).goto pc) := by
  have hforth : pc.beforeJoin = true → t.connectPc.beforeJoin = true := by simp [hpc]
  unfold LkTunnel.sendStateWeak
  split
  · have h := sendState t a hs
    exact ⟨h.state, h.connected, hforth, h.ended⟩
  · exact .of_eq rfl rfl hforth

theorem connectStep (t : LkTunnel) (i : EngineInput) (hj : t.connectPc ≠ .joined)
    (hs : t.connectPc ≠ .joinedState) : Downward t (t.connectStep i) := by
  unfold LkTunnel.connectStep
  split
  · exact .of_eq rfl rfl (by simp [LkTunnel.goto, ConnectPc.beforeJoin])
  · split
    case h_1 hpc => cases i <;> exact .of_eq rfl rfl fun _ => by rw [hpc]; rfl
    case h_2 => exact .sends t _ rfl rfl
    case h_5 hpc => split <;> exact .of_eq rfl rfl fun _ => by rw [hpc]; rfl
    case h_6 hpc => exact .of_eq rfl rfl fun _ => by rw [hpc]; rfl
    case h_7 hpc => exact .of_eq rfl rfl fun _ => by rw [hpc]; rfl
    case h_8 hpc => cases i <;> exact .of_eq rfl rfl fun _ => by rw [hpc]; rfl
    case h_9 => exact .sends t _ rfl rfl
    case h_11 => exact .sends t _ rfl rfl
    case h_13 hpc => exact absurd hpc hj
    case h_14 hpc => exact absurd hpc hs
    case h_16 =>
      unfold LkTunnel.warmUp
      split <;> exact .of_eq rfl rfl fun h => by cases h
    case h_17 hpc =>
      unfold LkTunnel.atMainLoop
      cases i with
      | closed | disconnected msg => exact .of_eq rfl rfl fun h => by cases h
      | probe present =>
        dsimp only
        split
        · exact .of_eq rfl rfl id
        · exact .of_eq rfl rfl fun h => by cases h
      | _ => exact .of_eq rfl rfl id
    case h_18 => exact ⟨.inl rfl, by simp, by simp [ConnectPc.beforeJoin], List.prefix_refl _⟩
    case h_19 => exact .sends t _ rfl rfl
    case h_20 => exact .of_eq rfl rfl id
    all_goals exact .of_eq rfl rfl fun h => by cases h

theorem teardownStep (t : LkTunnel) (n : ℕ) (pc : TeardownPc) :
    Downward t (t.teardownStep n pc).1 := by
  cases pc with
  | send done => exact sendState t _ (by rfl)
  | disconnect => exact ⟨.inl rfl, by simp [LkTunnel.teardownStep], id, List.prefix_refl _⟩
  | abortTask =>
    simp only [LkTunnel.teardownStep]
    split <;> exact .of_eq rfl rfl id
  | abortSender =>
    simp only [LkTunnel.teardownStep]
    split <;> exact .of_eq rfl rfl id
  | abortSocks5 =>
    simp only [LkTunnel.teardownStep, LkTunnel.abortListener]
    split <;> exact .of_eq rfl rfl id
  | abortQuicServer =>
    simp only [LkTunnel.teardownStep, LkTunnel.abortAcceptor]
    split <;> exact .of_eq rfl rfl id
  | _ => exact .of_eq rfl rfl id

theorem acceptorStep (t : LkTunnel) (ok : Bool) (pc : AcceptorPc) :
    Downward t (t.acceptorStep ok pc).1 := by
  cases pc with
  | claim =>
    simp only [LkTunnel.acceptorStep]
    split <;> exact .of_eq rfl rfl id
  | build =>
    simp only [LkTunnel.acceptorStep]
    split <;> exact .of_eq rfl rfl id
  | _ => exact .of_eq rfl rfl id

theorem stepOf (t : LkTunnel) (n : ℕ) (ok : Bool) (c : Call) : Downward t (t.stepOf n ok c).1 := by
  cases c with
  | teardown pc =>
    have h := teardownStep t n pc
    exact ⟨h.state, h.connected, h.forth, h.ended⟩
  | acceptor pc => exact acceptorStep t ok pc
  | enableSocks5Store i =>
    simp only [LkTunnel.stepOf, LkTunnel.storeListener]
    split <;> exact .of_eq rfl rfl id
  | startServerInstall | attachTunInstall | enableSocks5Bind | ensureQuicLock | ensureQuicRecheck
  | ensureQuicConnected | ensureQuicClaim | ensureQuicHandshake =>
    simp only [LkTunnel.stepOf]
    split <;> exact .of_eq rfl rfl id
  | _ => exact .of_eq rfl rfl id

theorem keeperStep (t : LkTunnel) (ok : Bool) (pc : KeeperPc) :
    Downward t (t.keeperStep ok pc).1 := by
  cases pc with
  | dropClient | claim | handshake | install | clear =>
    simp only [LkTunnel.keeperStep]
    split <;> exact .of_eq rfl rfl id
  | _ => exact .of_eq rfl rfl id

theorem step (t : LkTunnel) (m : Move) (hm : ∀ i, m ≠ .connect i) : Downward t (t.step m) := by
  cases m with
  | connect i => exact absurd rfl (hm i)
  | call n ok =>
    simp only [LkTunnel.step, LkTunnel.callStep]
    split
    · rename_i c _
      have h := stepOf t n ok c
      exact ⟨h.state, h.connected, h.forth, h.ended⟩
    · exact .of_eq rfl rfl id
  | keeper n ok =>
    simp only [LkTunnel.step, LkTunnel.keeperMove]
    split
    · rename_i pc _
      have h := keeperStep t ok pc
      exact ⟨h.state, h.connected, h.forth, h.ended⟩
    · exact .of_eq rfl rfl id
  | _ => exact .of_eq rfl rfl id

theorem terminal {t t' : LkTunnel} (h : Downward t t') (ht : t.state.isTerminal = true) :
    t'.state.isTerminal = true := by
  obtain hs | hs := h.state
  · rw [hs]
    exact ht
  · exact hs

theorem disconnected {t t' : LkTunnel} (h : Downward t t') (hc : t.connected = false) :
    t'.connected = false := by
  cases hc' : t'.connected with
  | false => rfl
  | true =>
    rw [h.connected hc'] at hc
    cases hc

end Downward

/-! ## The two writes -/

theorem joined_step (t : LkTunnel) (i : EngineInput) (hpc : t.connectPc = .joined) :
    t.step (.connect i) = { t with connected := true, connectPc := .joinedState } := by
  simp [LkTunnel.step, LkTunnel.connectStep, hpc, ConnectPc.awaits]

theorem joinedState_step (t : LkTunnel) (i : EngineInput) (hpc : t.connectPc = .joinedState) :
    t.step (.connect i) = (t.sendStateWeak .connectTask .connected).goto .joinedEvent := by
  simp [LkTunnel.step, LkTunnel.connectStep, hpc, ConnectPc.awaits]

theorem sendStateWeak_connected (t : LkTunnel) (a : Actor) (s : TunnelState) :
    (t.sendStateWeak a s).connected = t.connected := by
  unfold LkTunnel.sendStateWeak
  split <;> rfl

theorem Unraced.stays {t : LkTunnel} {m : Move} (h : Unraced t m) (ht : t.state.isTerminal = true) :
    (t.step m).state.isTerminal = true ∧ (t.connected = false → (t.step m).connected = false) := by
  by_cases hm : ∀ i, m ≠ .connect i
  · have hd := Downward.step t m hm
    exact ⟨hd.terminal ht, hd.disconnected⟩
  · push Not at hm
    obtain ⟨i, rfl⟩ := hm
    by_cases hj : t.connectPc = .joined
    · have hlive := h.1 hj
      rw [ht] at hlive
      cases hlive
    by_cases hs : t.connectPc = .joinedState
    · rw [joinedState_step t i hs]
      refine ⟨?_, fun hoff => (sendStateWeak_connected t _ _).trans hoff⟩
      show (t.sendStateWeak .connectTask .connected).state.isTerminal = true
      unfold LkTunnel.sendStateWeak
      split
      · rename_i halive
        by_cases hrecv : t.receivers = 0
        · exact (congrArg TunnelState.isTerminal (if_pos hrecv)).trans ht
        · have hlive := h.2 hs halive hrecv
          rw [ht] at hlive
          cases hlive
      · exact ht
    · have hd := Downward.connectStep t i hj hs
      exact ⟨hd.terminal ht, hd.disconnected⟩

/-! ## Runs -/

theorem LkTunnel.run_append (t : LkTunnel) (ms ms' : List Move) :
    t.run (ms ++ ms') = (t.run ms).run ms' := List.foldl_append

theorem AllMoves.append {P : LkTunnel → Move → Prop} {ms ms' : List Move} : ∀ {t : LkTunnel},
    AllMoves P t (ms ++ ms') ↔ AllMoves P t ms ∧ AllMoves P (t.run ms) ms' := by
  induction ms with
  | nil => exact fun {t} => ⟨fun h => ⟨trivial, h⟩, fun h => h.2⟩
  | cons m ms ih =>
    intro t
    have hrest := ih (t := t.step m)
    exact ⟨fun h => ⟨⟨h.1, (hrest.mp h.2).1⟩, (hrest.mp h.2).2⟩,
      fun h => ⟨h.1.1, hrest.mpr ⟨h.1.2, h.2⟩⟩⟩

/-- A run that meets the condition and starts in a terminal state stays there. -/
theorem terminal_run {t : LkTunnel} {ms : List Move} (hall : AllMoves Unraced t ms)
    (ht : t.state.isTerminal = true) : (t.run ms).state.isTerminal = true :=
  run_invariant (fun _ _ h ht => (h.stays ht).1) ht hall

theorem staysDown_of_unraced {t : LkTunnel} {ms : List Move} (hall : AllMoves Unraced t ms) :
    StaysDown t ms := by
  have hpart : ∀ part, part <+: ms → AllMoves Unraced t part := by
    rintro part ⟨rest, rfl⟩
    exact (AllMoves.append.mp hall).1
  constructor
  · intro before after hpre ht
    have hboth := AllMoves.append.mp (hpart _ hpre)
    rw [LkTunnel.run_append]
    exact terminal_run hboth.2 ht
  · intro before after m hpre ht hc
    have hboth := AllMoves.append.mp (hpart _ hpre)
    have hfirst := AllMoves.append.mp hboth.1
    have hterm : (t.run (before ++ after)).state.isTerminal = true := by
      rw [LkTunnel.run_append]
      exact terminal_run hfirst.2 ht
    rw [LkTunnel.run_append]
    exact (hboth.2.1.stays hterm).2 hc

/-- Nobody but the connect task sets the flag, and it does so once. -/
def Unset (t : LkTunnel) : Prop := t.connectPc.beforeJoin = true → t.connected = false

theorem Unset.step {t : LkTunnel} (m : Move) (h : Unset t) : Unset (t.step m) := by
  have hdown : Downward t (t.step m) → Unset (t.step m) := fun hd hb =>
    hd.disconnected (h (hd.forth hb))
  by_cases hm : ∀ i, m ≠ .connect i
  · exact hdown (.step t m hm)
  · push Not at hm
    obtain ⟨i, rfl⟩ := hm
    by_cases hj : t.connectPc = .joined
    · rw [joined_step t i hj]
      intro hb
      cases hb
    by_cases hs : t.connectPc = .joinedState
    · rw [joinedState_step t i hs]
      intro hb
      cases hb
    · exact hdown (.connectStep t i hj hs)

theorem Unset.run {t : LkTunnel} (h : Unset t) (ms : List Move) : Unset (t.run ms) := by
  induction ms generalizing t with
  | nil => exact h
  | cons m ms ih => exact ih (h.step m)

/-- A step that fails the condition brings the flag or the state back. -/
theorem raced_comes_back {t : LkTunnel} {m : Move} (hu : Unset t) (h : ¬ Unraced t m) :
    t.state.isTerminal = true ∧ ((t.step m).state.isTerminal = false ∨
      t.connected = false ∧ (t.step m).connected = true) := by
  cases m with
  | connect i =>
    have hor : (t.connectPc = .joined ∧ t.state.isTerminal = true) ∨ (t.connectPc = .joinedState ∧
        t.alive = true ∧ t.receivers ≠ 0 ∧ t.state.isTerminal = true) := by
      by_contra hno
      simp only [not_or, not_and, Bool.not_eq_true] at hno
      exact h ⟨hno.1, fun hs ha hr => hno.2 hs ha hr⟩
    obtain ⟨hj, ht⟩ | ⟨hs, halive, hrecv, ht⟩ := hor
    · refine ⟨ht, .inr ⟨hu (by rw [hj]; rfl), ?_⟩⟩
      rw [joined_step t i hj]
    · refine ⟨ht, .inl ?_⟩
      rw [joinedState_step t i hs]
      simp [LkTunnel.sendStateWeak, LkTunnel.sendState, LkTunnel.goto, halive, hrecv,
        TunnelState.isTerminal]
  | _ => exact absurd trivial h

theorem ended_step (t : LkTunnel) (m : Move) : t.ended <+: (t.step m).ended := by
  by_cases hm : ∀ i, m ≠ .connect i
  · exact (Downward.step t m hm).ended
  · push Not at hm
    obtain ⟨i, rfl⟩ := hm
    by_cases hj : t.connectPc = .joined
    · have hsame : (t.step (.connect i)).ended = t.ended := by rw [joined_step t i hj]
      exact hsame ▸ List.prefix_refl _
    by_cases hs : t.connectPc = .joinedState
    · rw [joinedState_step t i hs]
      show t.ended <+: (t.sendStateWeak .connectTask .connected).ended
      unfold LkTunnel.sendStateWeak
      split
      · exact Downward.ended_sendState t _ _
      · exact List.prefix_refl _
    · exact (Downward.connectStep t i hj hs).ended

theorem ended_run {t : LkTunnel} (h : t.ended ≠ []) (ms : List Move) : (t.run ms).ended ≠ [] := by
  induction ms generalizing t with
  | nil => exact h
  | cons m ms ih => exact ih fun hnil => h (List.prefix_nil.mp (hnil ▸ ended_step t m))

theorem Unended.stays {t : LkTunnel} {m : Move} (h : Unended t m) (hended : t.ended ≠ [])
    (hoff : t.connected = false) : (t.step m).connected = false := by
  by_cases hm : ∀ i, m ≠ .connect i
  · exact (Downward.step t m hm).disconnected hoff
  · push Not at hm
    obtain ⟨i, rfl⟩ := hm
    by_cases hj : t.connectPc = .joined
    · exact absurd (h hj) hended
    by_cases hs : t.connectPc = .joinedState
    · rw [joinedState_step t i hs]
      exact (sendStateWeak_connected t _ _).trans hoff
    · exact (Downward.connectStep t i hj hs).disconnected hoff

theorem flagStaysDown_of_unended {t : LkTunnel} {ms : List Move} (hall : AllMoves Unended t ms) :
    FlagStaysDown t ms := by
  rintro before after m ⟨rest, rfl⟩ hended hoff
  have hmove := (AllMoves.append.mp (AllMoves.append.mp hall).1).2.1
  have hended' : (t.run (before ++ after)).ended ≠ [] := by
    rw [LkTunnel.run_append]
    exact ended_run hended after
  rw [LkTunnel.run_append]
  exact hmove.stays hended' hoff

theorem flagStaysDown_iff (role : TunnelRole) (ms : List Move) :
    FlagStaysDown { role } ms ↔ AllMoves Unended { role } ms := by
  refine ⟨fun h => ?_, flagStaysDown_of_unended⟩
  induction ms using List.reverseRecOn with
  | nil => exact trivial
  | append_singleton ms m ih =>
    have hpre : ms <+: ms ++ [m] := List.prefix_append ms [m]
    have hbefore : AllMoves Unended { role } ms := ih fun before after m' hp => h before after m' (hp.trans hpre)
    refine AllMoves.append.mpr ⟨hbefore, ?_, trivial⟩
    have hunset : Unset (LkTunnel.run { role } ms) := Unset.run (fun _ => rfl) ms
    have hlast := h ms [] m (by simp)
    rw [List.append_nil, LkTunnel.run_append] at hlast
    cases m with
    | connect i =>
      intro hj
      by_contra hended
      have hon : ((LkTunnel.run { role } ms).run [.connect i]).connected = true := by
        show ((LkTunnel.run { role } ms).step (.connect i)).connected = true
        rw [joined_step _ i hj]
      have hoff := hlast hended (hunset (by rw [hj]; rfl))
      rw [hon] at hoff
      cases hoff
    | _ => trivial

theorem stateStaysDown_iff (role : TunnelRole) (ms : List Move) :
    StaysDown { role } ms ↔ AllMoves Unraced { role } ms := by
  refine ⟨fun h => ?_, staysDown_of_unraced⟩
  induction ms using List.reverseRecOn with
  | nil => exact trivial
  | append_singleton ms m ih =>
    have hpre : ms <+: ms ++ [m] := List.prefix_append ms [m]
    have hbefore : AllMoves Unraced { role } ms :=
      ih ⟨fun before after hp => h.state before after (hp.trans hpre),
        fun before after m' hp => h.connected before after m' (hp.trans hpre)⟩
    refine AllMoves.append.mpr ⟨hbefore, ?_, trivial⟩
    by_contra hrace
    have hunset : Unset (LkTunnel.run { role } ms) := Unset.run (fun _ => rfl) ms
    obtain ⟨ht, hback⟩ := raced_comes_back hunset hrace
    have hstate := h.state ms [m] (List.prefix_refl _) ht
    have hflag := h.connected ms [] m (by simp) ht
    rw [LkTunnel.run_append] at hstate
    rw [List.append_nil, LkTunnel.run_append] at hflag
    obtain hlive | ⟨hoff, hon⟩ := hback
    · rw [show ((LkTunnel.run { role } ms).run [m]) = (LkTunnel.run { role } ms).step m from rfl,
        hlive] at hstate
      cases hstate
    · have hflag' := hflag hoff
      rw [show ((LkTunnel.run { role } ms).run [m]) = (LkTunnel.run { role } ms).step m from rfl,
        hon] at hflag'
      cases hflag'

/-- The tunnel stays down in exactly the runs in which the connect task makes no write for a peer
after the end. Without a receiver the state never ends; for the flag it makes no difference. -/
theorem staysDown_iff (role : TunnelRole) (ms : List Move) :
    (StaysDown { role } ms ↔ AllMoves Unraced { role } ms) ∧
      (FlagStaysDown { role } ms ↔ AllMoves Unended { role } ms) :=
  ⟨stateStaysDown_iff role ms, flagStaysDown_iff role ms⟩

/-- The peer joins just as the application disconnects: the connect task is past its last `await`
when the teardown marks the tunnel. -/
def resurrectedRun : List Move :=
  [.connect .dialed, .connect .closed, .connect .closed, .connect .closed,
    .connect (.peerJoined "peer"), .enter .disconnect, .call 0 true, .call 0 true, .call 0 true,
    .call 0 true, .call 0 true, .connect .closed, .connect .closed]

theorem torn_down_tunnel_comes_back :
    ¬ StaysDown { role := .client } resurrectedRun ∧
      (LkTunnel.run { role := .client } (resurrectedRun.take 8)).state = .disconnected ∧
      (LkTunnel.run { role := .client } (resurrectedRun.take 11)).connected = false ∧
      (LkTunnel.run { role := .client } resurrectedRun).state = .connected ∧
      (LkTunnel.run { role := .client } resurrectedRun).connected = true := by
  refine ⟨fun h => ?_, by decide, by decide, by decide, by decide⟩
  have hdown := h.state (resurrectedRun.take 8) (resurrectedRun.drop 8) (by simp) (by decide)
  revert hdown
  decide

end BaleVpn.Tunnel
