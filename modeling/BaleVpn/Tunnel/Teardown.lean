import BaleVpn.Tunnel.Farewell

/-!
# What a teardown releases (`lib.rs`)

Once `disconnect` was called and every call has returned, nothing that ran for the tunnel should be
left. The code keeps this only in runs that stay clear of four gaps. A teardown that finds the state
terminal releases nothing. It aborts the SOCKS5 listener but not the connections it accepted. The
connect task stores its sender a step after it spawned it. And no call that installs something looks
whether a teardown has passed in the meantime.
-/

namespace BaleVpn.Tunnel

/-! ## The property -/

/-- Nothing that ran for the tunnel is left. -/
structure Released (t : LkTunnel) : Prop where
  task : t.connectAborted = true ∨ t.connectPc = .returned
  sender : t.sender ≠ some .running
  listeners : ∀ l ∈ t.listeners, l.status ≠ .running ∧ .running ∉ l.conns
  acceptors : .running ∉ t.acceptors
  quicClient : t.quicClient = false
  quicRxTx : t.quicRxTx = false
  nat : t.nat = false
  tun : t.tun = false

/-- `disconnect` or the drop of the last handle was called, and every call has returned. -/
def Quiescent (t : LkTunnel) : Prop :=
  (∃ pc, .teardown pc ∈ t.calls) ∧ ∀ c ∈ t.calls, c.isReturned = true

def TornDown (t : LkTunnel) : Prop := Quiescent t → Released t

/-! ## The gaps -/

/-- No connection is open or about to be. -/
def Listener.Idle (l : Listener) : Prop := l.accepted = false ∧ .running ∉ l.conns

instance (l : Listener) : Decidable l.Idle := inferInstanceAs (Decidable (_ ∧ _))

/-- A teardown has not yet passed `pc`. -/
def LkTunnel.before (t : LkTunnel) (pc : TeardownPc) : Prop := t.progress ≤ pc.rank

instance (t : LkTunnel) (pc : TeardownPc) : Decidable (t.before pc) :=
  inferInstanceAs (Decidable (_ ≤ _))

/-- The next step of a call stays clear of the gaps. -/
def Call.Timely (t : LkTunnel) : Call → Prop
  | .teardown .check => t.state.isTerminal = false ∨ 0 < t.progress
  | .teardown .abortSender => t.connectPc ≠ .storeSender
  | .teardown .abortSocks5 => ∀ l ∈ t.socks5Handle.bind (t.listeners[·]?), l.Idle
  | .startServerInstall => t.before .takeNat
  | .attachTunInstall => t.before .takeTun
  | .acceptor .claim => t.before .clearQuicRx
  | .acceptor (.store _) => t.before .abortQuicServer ∧ t.quicServerHandle = none
  | .enableSocks5Store i =>
    t.before .abortSocks5 ∧ (t.socks5Handle.isSome = true → ∀ l ∈ t.listeners[i]?, l.accepted = false)
  | .ensureQuicClaim => t.before .clearQuicRx
  | .ensureQuicInstall => t.before .dropQuicClient
  | _ => True

instance (t : LkTunnel) : (c : Call) → Decidable (c.Timely t)
  | .teardown .check => inferInstanceAs (Decidable (t.state.isTerminal = false ∨ 0 < t.progress))
  | .teardown .abortSender => inferInstanceAs (Decidable (t.connectPc ≠ .storeSender))
  | .teardown .abortSocks5 => inferInstanceAs
      (Decidable (∀ l ∈ t.socks5Handle.bind (t.listeners[·]?), l.Idle))
  | .startServerInstall => inferInstanceAs (Decidable (t.before .takeNat))
  | .attachTunInstall => inferInstanceAs (Decidable (t.before .takeTun))
  | .acceptor .claim | .ensureQuicClaim => inferInstanceAs (Decidable (t.before .clearQuicRx))
  | .acceptor (.store _) => inferInstanceAs
      (Decidable (t.before .abortQuicServer ∧ t.quicServerHandle = none))
  | .enableSocks5Store i => inferInstanceAs (Decidable (t.before .abortSocks5 ∧
      (t.socks5Handle.isSome = true → ∀ l ∈ t.listeners[i]?, l.accepted = false)))
  | .ensureQuicInstall => inferInstanceAs (Decidable (t.before .dropQuicClient))
  | .teardown (.send _) | .teardown .pushEvent | .teardown .disconnect | .teardown .abortTask
  | .teardown .abortQuicServer | .teardown .dropQuicClient | .teardown .clearQuicRx
  | .teardown .takeNat | .teardown .takeTun | .teardown .takeEngine | .teardown (.returned _)
  | .startServer | .attachTun _ | .attachTunPrecheck | .acceptor .checkSlot | .acceptor .build
  | .acceptor .returned | .enableSocks5 | .enableSocks5Bind | .enableSocks5Returned | .ensureQuic
  | .ensureQuicLock | .ensureQuicRecheck | .ensureQuicConnected | .ensureQuicHandshake
  | .ensureQuicReturned => isTrue trivial

/-- No move of the run falls into a gap. -/
def Timely (t : LkTunnel) : Move → Prop
  | .connect _ => t.connectPc = .spawnSender ∨ t.connectPc = .storeSender → t.before .abortSender
  | .call n _ => ∀ c ∈ t.calls[n]?, c.Timely t
  | .keeper n _ => ∀ pc ∈ t.keepers[n]?, (pc = .claim → t.before .clearQuicRx) ∧
      (pc = .install → t.before .dropQuicClient)
  | _ => True

instance (t : LkTunnel) : (m : Move) → Decidable (Timely t m)
  | .connect _ => inferInstanceAs
      (Decidable (t.connectPc = .spawnSender ∨ t.connectPc = .storeSender → t.before .abortSender))
  | .call n _ => inferInstanceAs (Decidable (∀ c ∈ t.calls[n]?, c.Timely t))
  | .keeper n _ => inferInstanceAs (Decidable (∀ pc ∈ t.keepers[n]?,
      (pc = .claim → t.before .clearQuicRx) ∧ (pc = .install → t.before .dropQuicClient)))
  | .enter _ | .drop | .subscribe | .unsubscribe | .senderEnds | .acceptorEnds _ | .accept _
  | .spawnConn _ | .connEnds .. | .listenerEnds _ => isTrue trivial

/-! ## The invariant -/

/-- A listener that can still serve someone. -/
def Listener.Live (l : Listener) : Prop := l.status = .running ∨ ¬ l.Idle

/-- What a teardown has done once it is past a program point. -/
def TeardownPc.Done (t : LkTunnel) : TeardownPc → Prop
  | .abortTask => t.task = false
  | .abortSender => t.sender ≠ some .running
  | .abortSocks5 => t.socks5Handle = none
  | .abortQuicServer => t.quicServerHandle = none
  | .dropQuicClient => t.quicClient = false
  | .clearQuicRx => t.quicRxTx = false
  | .takeNat => t.nat = false
  | .takeTun => t.tun = false
  | _ => True

/-- A resource that runs is in its slot or with the one that is to store it, and what a teardown has
done stays done. -/
structure Kept (t : LkTunnel) : Prop where
  task : t.task = false → t.connectAborted = true
  sender : t.sender = some .running → t.senderTask = true ∨ t.connectPc = .storeSender
  listener : ∀ i l, t.listeners[i]? = some l → l.Live →
    t.socks5Handle = some i ∨ .enableSocks5Store i ∈ t.calls
  acceptor : ∀ i : ℕ, t.acceptors[i]? = some .running →
    t.quicServerHandle = some i ∨ .acceptor (.store i) ∈ t.calls
  gone : ∀ pc : TeardownPc, pc.rank < t.progress → pc.Done t
  ranked : ∀ pc, .teardown pc ∈ t.calls → pc.rank ≤ t.progress
  early : ∀ pc, .teardown pc ∈ t.calls → pc = .send true ∨ pc = .returned false → 0 < t.progress
  ahead : 0 < t.progress → ∃ pc, .teardown pc ∈ t.calls ∧ pc.rank = t.progress

theorem Kept.tornDown {t : LkTunnel} (h : Kept t) : TornDown t := by
  rintro ⟨⟨pc, hpc⟩, hret⟩
  have hpos : 0 < t.progress := by
    have hdone := hret _ hpc
    cases pc with
    | returned released =>
      cases released with
      | true => exact Nat.lt_of_lt_of_le (by decide) (h.ranked _ hpc)
      | false => exact h.early _ hpc (.inr rfl)
    | _ => cases hdone
  have hfull : t.progress = 13 := by
    obtain ⟨pc', hpc', hrank⟩ := h.ahead hpos
    have hdone := hret _ hpc'
    cases pc' with
    | returned released =>
      cases released with
      | true => exact hrank.symm
      | false =>
        rw [← hrank] at hpos
        cases hpos
    | _ => cases hdone
  have hnone : ∀ c, c.isReturned = false → c ∉ t.calls := by
    intro c hc hmem
    rw [hret c hmem] at hc
    cases hc
  have hgone : ∀ pc : TeardownPc, pc.rank < 13 → pc.Done t := fun pc hlt =>
    h.gone pc (hfull ▸ hlt)
  have hidle : ∀ l ∈ t.listeners, ¬ l.Live := by
    intro l hl hlive
    obtain ⟨i, hi⟩ := List.mem_iff_getElem?.mp hl
    obtain hslot | hcall := h.listener i l hi hlive
    · have hempty : t.socks5Handle = none := hgone .abortSocks5 (by decide)
      rw [hempty] at hslot
      cases hslot
    · exact hnone _ rfl hcall
  constructor
  · exact .inl (h.task (hgone .abortTask (by decide)))
  · exact hgone .abortSender (by decide)
  · intro l hl
    have hnot := hidle l hl
    exact ⟨fun hrun => hnot (.inl hrun), fun hconn => hnot (.inr fun hi => hi.2 hconn)⟩
  · intro hrun
    obtain ⟨i, hi⟩ := List.mem_iff_getElem?.mp hrun
    obtain hslot | hcall := h.acceptor i hi
    · have hempty : t.quicServerHandle = none := hgone .abortQuicServer (by decide)
      rw [hempty] at hslot
      cases hslot
    · exact hnone _ rfl hcall
  · exact hgone .dropQuicClient (by decide)
  · exact hgone .clearQuicRx (by decide)
  · exact hgone .takeNat (by decide)
  · exact hgone .takeTun (by decide)

/-! ## The connect task -/

theorem Kept.sendState {t : LkTunnel} (h : Kept t) (a : Actor) (s : TunnelState) :
    Kept (t.sendState a s) := { h with }

theorem Kept.sendStateWeak {t : LkTunnel} (h : Kept t) (a : Actor) (s : TunnelState) :
    Kept (t.sendStateWeak a s) := by
  unfold LkTunnel.sendStateWeak
  split
  · exact h.sendState a s
  · exact h

theorem Kept.emitEvent {t : LkTunnel} (h : Kept t) (kind : EventKind) (info : String) :
    Kept (t.emitEvent kind info) := { h with }

theorem Kept.goto {t : LkTunnel} (h : Kept t) (hpc : t.connectPc ≠ .storeSender) (pc : ConnectPc) :
    Kept (t.goto pc) :=
  { h with sender := fun hrun => .inl ((h.sender hrun).resolve_right hpc) }

theorem Kept.enter {t : LkTunnel} (h : Kept t) {c : Call} (hc : ∀ pc, c = .teardown pc → pc = .check) :
    Kept { t with calls := t.calls ++ [c] } where
  task := h.task
  sender := h.sender
  listener i l hi hl := (h.listener i l hi hl).imp_right fun hm => List.mem_append_left _ hm
  acceptor i hi := (h.acceptor i hi).imp_right fun hm => List.mem_append_left _ hm
  gone := h.gone
  ranked pc hpc := by
    obtain hpc | hpc := List.mem_append.mp hpc
    · exact h.ranked pc hpc
    · obtain rfl := hc pc (List.mem_singleton.mp hpc).symm
      exact Nat.zero_le _
  early pc hpc hearly := by
    obtain hpc | hpc := List.mem_append.mp hpc
    · exact h.early pc hpc hearly
    · obtain rfl := hc pc (List.mem_singleton.mp hpc).symm
      obtain hearly | hearly := hearly <;> cases hearly
  ahead hpos := by
    obtain ⟨pc, hpc, hrank⟩ := h.ahead hpos
    exact ⟨pc, List.mem_append_left _ hpc, hrank⟩

theorem sendStateWeak_connectPc (t : LkTunnel) (a : Actor) (s : TunnelState) :
    (t.sendStateWeak a s).connectPc = t.connectPc := by
  unfold LkTunnel.sendStateWeak
  split <;> rfl

theorem Kept.sends {t : LkTunnel} (h : Kept t) (hpc : t.connectPc ≠ .storeSender) (a : Actor)
    (s : TunnelState) (pc : ConnectPc) : Kept ((t.sendStateWeak a s).goto pc) :=
  (h.sendStateWeak a s).goto (by rw [sendStateWeak_connectPc]; exact hpc) pc

theorem Kept.emits {t : LkTunnel} (h : Kept t) (hpc : t.connectPc ≠ .storeSender) (kind : EventKind)
    (info : String) (pc : ConnectPc) : Kept ((t.emitEvent kind info).goto pc) :=
  (h.emitEvent kind info).goto hpc pc

theorem Kept.spawnSender {t : LkTunnel} (h : Kept t) (hb : t.before .abortSender) :
    Kept { t with sender := some .running, connectPc := .storeSender } :=
  { h with
    sender := fun _ => .inr rfl
    gone := fun pc hlt => by
      cases pc with
      | abortSender => exact absurd hlt (Nat.not_lt.mpr hb)
      | _ => exact h.gone _ hlt }

theorem Kept.connectStep {t : LkTunnel} (h : Kept t) {i : EngineInput}
    (htime : t.connectPc = .spawnSender ∨ t.connectPc = .storeSender → t.before .abortSender) :
    Kept (t.connectStep i) := by
  unfold LkTunnel.connectStep
  split
  · rename_i hstop
    refine h.goto ?_ .returned
    intro hpc
    simp [hpc, ConnectPc.awaits] at hstop
  · cases hpc : t.connectPc with
    | storeSender => exact { h with sender := fun _ => .inl rfl }
    | spawnSender => exact h.spawnSender (htime (.inl hpc))
    | dialing =>
      have hne : t.connectPc ≠ .storeSender := by simp [hpc]
      cases i with
      | dialed => exact h.goto hne _
      | dialFailed msg => exact h.goto hne _
      | _ => exact h
    | peerWait =>
      have hne : t.connectPc ≠ .storeSender := by simp [hpc]
      cases i with
      | timeout | closed | disconnected => exact h.goto hne _
      | peerJoined id => exact h.emits hne _ _ _
      | peerLeft id => exact h.emitEvent _ _
      | _ => exact h
    | mainLoop =>
      have hne : t.connectPc ≠ .storeSender := by simp [hpc]
      cases i with
      | closed => exact h.goto hne _
      | peerJoined id | peerLeft id => exact h.emitEvent _ _
      | disconnected msg => exact h.emits hne _ _ _
      | probe present =>
        cases present with
        | true => exact h
        | false => exact h.emits hne _ _ _
      | _ => exact h
    | warm =>
      have hne : t.connectPc ≠ .storeSender := by simp [hpc]
      simp only [LkTunnel.warmUp]
      split
      · have hwarm : Kept { t with calls := t.calls ++ [.ensureQuic] } := h.enter nofun
        exact hwarm.goto hne _
      · exact h.goto hne _
    | dialed =>
      have hne : t.connectPc ≠ .storeSender := by simp [hpc]
      simp only
      split
      · have hup : Kept { t with engine := true } := { h with }
        exact hup.goto hne _
      · exact h.goto hne _
    | joined =>
      have hup : Kept { t with connected := true } := { h with }
      exact hup.goto (by simp [hpc]) _
    | loopExit =>
      have hdown : Kept { t with connected := false } := { h with }
      exact hdown.goto (by simp [hpc]) _
    | dialFailed | waitLost | noPeer | joinedState | loopExitState =>
      exact h.sends (by simp [hpc]) _ _ _
    | dialError | dialGone | waitGone | noPeerError | joinedEvent =>
      exact h.emits (by simp [hpc]) _ _ _
    | returned => exact h

/-! ## Calls -/

theorem mem_set_of_ne {cs : List Call} {n : ℕ} {c c' x : Call} (hn : cs[n]? = some c) (hx : x ∈ cs)
    (hne : x ≠ c) : x ∈ cs.set n c' := by
  obtain ⟨i, hi⟩ := List.mem_iff_getElem?.mp hx
  have hni : n ≠ i := by
    rintro rfl
    rw [hn] at hi
    exact hne (Option.some.inj hi).symm
  exact List.mem_iff_getElem?.mpr ⟨i, by rw [List.getElem?_set_ne hni]; exact hi⟩

theorem mem_set_self {cs : List Call} {n : ℕ} {c : Call} (c' : Call) (hn : cs[n]? = some c) :
    c' ∈ cs.set n c' :=
  List.mem_set (List.getElem?_eq_some_iff.mp hn).1 c'

theorem Kept.replace {t : LkTunnel} (h : Kept t) {n : ℕ} {c c' : Call} (hn : t.calls[n]? = some c)
    (hc : ∀ pc, c ≠ .teardown pc) (hc' : ∀ pc, c' ≠ .teardown pc)
    (hl : ∀ i l, c = .enableSocks5Store i → t.listeners[i]? = some l → l.Live →
      t.socks5Handle = some i)
    (ha : ∀ i : ℕ, c = .acceptor (.store i) → t.acceptors[i]? = some .running →
      t.quicServerHandle = some i) :
    Kept { t with calls := t.calls.set n c' } where
  task := h.task
  sender := h.sender
  listener i l hi hlive := by
    by_cases hcase : c = .enableSocks5Store i
    · exact .inl (hl i l hcase hi hlive)
    · exact (h.listener i l hi hlive).imp_right fun hm => mem_set_of_ne hn hm (Ne.symm hcase)
  acceptor i hi := by
    by_cases hcase : c = .acceptor (.store i)
    · exact .inl (ha i hcase hi)
    · exact (h.acceptor i hi).imp_right fun hm => mem_set_of_ne hn hm (Ne.symm hcase)
  gone := h.gone
  ranked pc hpc := by
    obtain hpc | hpc := List.mem_or_eq_of_mem_set hpc
    · exact h.ranked pc hpc
    · exact absurd hpc.symm (hc' pc)
  early pc hpc := by
    obtain hpc | hpc := List.mem_or_eq_of_mem_set hpc
    · exact h.early pc hpc
    · exact absurd hpc.symm (hc' pc)
  ahead hpos := by
    obtain ⟨pc, hpc, hrank⟩ := h.ahead hpos
    exact ⟨pc, mem_set_of_ne hn hpc (Ne.symm (hc pc)), hrank⟩

theorem Kept.moves {t : LkTunnel} (h : Kept t) {n : ℕ} {c c' : Call} (hn : t.calls[n]? = some c)
    (hc : ∀ pc, c ≠ .teardown pc := by simp) (hc' : ∀ pc, c' ≠ .teardown pc := by simp)
    (hl : ∀ i, c ≠ .enableSocks5Store i := by simp)
    (ha : ∀ i, c ≠ .acceptor (.store i) := by simp) :
    Kept { t with calls := t.calls.set n c' } :=
  h.replace hn hc hc' (fun i _ hi => absurd hi (hl i)) fun i hi => absurd hi (ha i)

section Install

variable {t : LkTunnel} (h : Kept t)

include h

theorem Kept.slots {nat tun quicRxTx quicClient : Bool}
    (hnat : nat = true → t.nat = true ∨ t.before .takeNat)
    (htun : tun = true → t.tun = true ∨ t.before .takeTun)
    (hrx : quicRxTx = true → t.quicRxTx = true ∨ t.before .clearQuicRx)
    (hclient : quicClient = true → t.quicClient = true ∨ t.before .dropQuicClient) :
    Kept { t with nat, tun, quicRxTx, quicClient } := by
  have hstays {now was : Bool} {pc : TeardownPc} (hlt : pc.rank < t.progress)
      (hnow : now = true → was = true ∨ t.before pc) (hwas : was = false) : now = false := by
    by_contra hset
    rcases hnow (by simpa using hset) with hset | hb
    · rw [hwas] at hset
      cases hset
    · exact absurd hlt (Nat.not_lt.mpr hb)
  refine { h with gone := fun pc hlt => ?_ }
  have hgone := h.gone pc hlt
  cases pc with
  | takeNat => exact hstays hlt hnat hgone
  | takeTun => exact hstays hlt htun hgone
  | clearQuicRx => exact hstays hlt hrx hgone
  | dropQuicClient => exact hstays hlt hclient hgone
  | _ => exact hgone

theorem Kept.setNat (hb : t.before .takeNat) : Kept { t with nat := true } :=
  h.slots (fun _ => .inr hb) .inl .inl .inl

theorem Kept.setTun (hb : t.before .takeTun) : Kept { t with tun := true } :=
  h.slots .inl (fun _ => .inr hb) .inl .inl

theorem Kept.setRx (hb : t.before .clearQuicRx) : Kept { t with quicRxTx := true } :=
  h.slots .inl .inl (fun _ => .inr hb) .inl

theorem Kept.setClient (hb : t.before .dropQuicClient) : Kept { t with quicClient := true } :=
  h.slots .inl .inl .inl fun _ => .inr hb

theorem Kept.clearRx : Kept { t with quicRxTx := false } :=
  h.slots .inl .inl (by simp) .inl

theorem Kept.clearClient : Kept { t with quicClient := false } :=
  h.slots .inl .inl .inl (by simp)

theorem Kept.storeAcceptor (hb : t.before .abortQuicServer) (hempty : t.quicServerHandle = none)
    (i : ℕ) : Kept { t with quicServerHandle := some i } :=
  { h with
    acceptor := fun j hj => by
      obtain hslot | hcall := h.acceptor j hj
      · rw [hempty] at hslot
        cases hslot
      · exact .inr hcall
    gone := fun pc hlt => by
      cases pc with
      | abortQuicServer => exact absurd hlt (Nat.not_lt.mpr hb)
      | _ => exact h.gone _ hlt }

theorem Kept.addAcceptor (hmem : .acceptor (.store t.acceptors.length) ∈ t.calls) :
    Kept { t with acceptors := t.acceptors ++ [.running] } :=
  { h with
    acceptor := fun i hi => by
      by_cases hlt : i < t.acceptors.length
      · exact h.acceptor i (by rw [← List.getElem?_append_left hlt]; exact hi)
      · obtain ⟨hbound, -⟩ := List.getElem?_eq_some_iff.mp hi
        have hbound' : i < (t.acceptors ++ [TaskStatus.running]).length := hbound
        obtain rfl : i = t.acceptors.length := by
          rw [List.length_append, List.length_singleton] at hbound'
          omega
        exact .inr hmem }

theorem Kept.addListener (hmem : .enableSocks5Store t.listeners.length ∈ t.calls) :
    Kept { t with listeners := t.listeners ++ [{}] } :=
  { h with
    listener := fun i l hi hlive => by
      by_cases hlt : i < t.listeners.length
      · exact h.listener i l (by rw [← List.getElem?_append_left hlt]; exact hi) hlive
      · obtain ⟨hbound, -⟩ := List.getElem?_eq_some_iff.mp hi
        have hbound' : i < (t.listeners ++ [({} : Listener)]).length := hbound
        obtain rfl : i = t.listeners.length := by
          rw [List.length_append, List.length_singleton] at hbound'
          omega
        exact .inr hmem }

theorem Kept.modifyListener {f : Listener → Listener} (hf : ∀ l, (f l).Live → l.Live) (i : ℕ) :
    Kept (t.modifyListener i f) :=
  { h with
    listener := fun j l hj hlive => by
      have hj' : (t.listeners.modify i f)[j]? = some l := hj
      rw [List.getElem?_modify] at hj'
      obtain ⟨l₀, hl₀, hl⟩ := Option.map_eq_some_iff.mp hj'
      refine h.listener j l₀ hl₀ ?_
      split at hl
      · exact hf l₀ (hl ▸ hlive)
      · exact hl ▸ hlive }

theorem Kept.storeSocks5 (hb : t.before .abortSocks5) (hempty : t.socks5Handle = none) (i : ℕ) :
    Kept { t with socks5Handle := some i } :=
  { h with
    listener := fun j l hj hlive => by
      obtain hslot | hcall := h.listener j l hj hlive
      · rw [hempty] at hslot
        cases hslot
      · exact .inr hcall
    gone := fun pc hlt => by
      cases pc with
      | abortSocks5 => exact absurd hlt (Nat.not_lt.mpr hb)
      | _ => exact h.gone _ hlt }

end Install

theorem abort_ne_running (s : TaskStatus) : s.abort ≠ .running := by
  cases s <;> nofun

theorem discarded_not_live {l : Listener} (h : l.accepted = false) :
    ¬ ({ l with status := l.status.abort } : Listener).abortAllConns.Live := by
  rintro (hrun | hbusy)
  · exact abort_ne_running _ hrun
  · refine hbusy ⟨h, fun hconn => ?_⟩
    obtain ⟨s, -, hs⟩ := List.mem_map.mp hconn
    exact abort_ne_running s hs

theorem aborted_not_live {l : Listener} (h : l.Idle) :
    ¬ ({ l with status := l.status.abort } : Listener).Live := by
  rintro (hrun | hbusy)
  · exact abort_ne_running _ hrun
  · exact hbusy h

theorem Live.of_abort {l : Listener} (h : ({ l with status := l.status.abort } : Listener).Live) :
    l.Live := by
  obtain hrun | hbusy := h
  · exact absurd hrun (abort_ne_running _)
  · exact .inr hbusy

theorem Live.of_discard {l : Listener}
    (h : ({ l with status := l.status.abort } : Listener).abortAllConns.Live) : l.Live := by
  by_cases hacc : l.accepted = false
  · exact absurd h (discarded_not_live hacc)
  · exact .inr fun hidle => hacc hidle.1

/-- The end of `enable_socks5_server`: the listener is stored, or it lost the race and is idle. -/
theorem Kept.storeListener {t : LkTunnel} (h : Kept t) {n i : ℕ}
    (hn : t.calls[n]? = some (.enableSocks5Store i)) (htime : (Call.enableSocks5Store i).Timely t) :
    Kept { t.storeListener i with
      calls := (t.storeListener i).calls.set n .enableSocks5Returned } := by
  obtain ⟨hb, hidle⟩ := htime
  unfold LkTunnel.storeListener
  split
  · rename_i hsome
    have hmod : Kept (t.modifyListener i fun l =>
        ({ l with status := l.status.abort } : Listener).abortAllConns) :=
      h.modifyListener (fun _ => Live.of_discard) i
    refine hmod.replace hn (by simp) (by simp) (fun j l hj hget hlive => ?_) (by simp)
    obtain rfl : i = j := Call.enableSocks5Store.inj hj
    have hget' : (t.listeners.modify i fun l =>
        ({ l with status := l.status.abort } : Listener).abortAllConns)[i]? = some l := hget
    rw [List.getElem?_modify_eq] at hget'
    obtain ⟨l₀, hl₀, rfl⟩ := Option.map_eq_some_iff.mp hget'
    exact absurd hlive (discarded_not_live (hidle hsome l₀ hl₀))
  · rename_i hnone
    have hempty : t.socks5Handle = none := by simpa using hnone
    have hstored := (h.storeSocks5 hb hempty i).enter (c := .ensureQuic) nofun
    have hn' : (t.calls ++ [.ensureQuic])[n]? = some (Call.enableSocks5Store i) := by
      rw [List.getElem?_append_left (List.getElem?_eq_some_iff.mp hn).1]
      exact hn
    refine hstored.replace hn' (by simp) (by simp) (fun j l hj _ _ => ?_) (by simp)
    obtain rfl : i = j := Call.enableSocks5Store.inj hj
    rfl

theorem Kept.acceptorStep {t : LkTunnel} (h : Kept t) {n : ℕ} {pc : AcceptorPc} (ok : Bool)
    (hn : t.calls[n]? = some (.acceptor pc)) (htime : (Call.acceptor pc).Timely t) :
    Kept { (t.acceptorStep ok pc).1 with
      calls := (t.acceptorStep ok pc).1.calls.set n (.acceptor (t.acceptorStep ok pc).2) } := by
  cases pc with
  | checkSlot => exact h.moves hn
  | claim =>
    simp only [LkTunnel.acceptorStep]
    split
    · exact h.moves hn
    · exact (h.setRx htime).moves hn
  | build =>
    simp only [LkTunnel.acceptorStep]
    split
    · have hmoved : Kept { t with
          calls := t.calls.set n (.acceptor (.store t.acceptors.length)) } :=
        h.moves hn
      exact hmoved.addAcceptor (mem_set_self _ hn)
    · exact h.moves hn
  | store i =>
    refine (h.storeAcceptor htime.1 htime.2 i).replace hn (by simp) (by simp) (by simp) fun j hj _ => ?_
    obtain rfl : i = j := by
      injection hj with hj
      exact AcceptorPc.store.inj hj
    rfl
  | returned => exact h.moves hn

theorem Kept.installStep {t : LkTunnel} (h : Kept t) {n : ℕ} {c : Call} (ok : Bool)
    (hn : t.calls[n]? = some c) (hc : ∀ pc, c ≠ .teardown pc) (htime : c.Timely t) :
    Kept { (t.stepOf n ok c).1 with calls := (t.stepOf n ok c).1.calls.set n (t.stepOf n ok c).2 } := by
  cases c with
  | teardown pc => exact absurd rfl (hc pc)
  | acceptor pc => exact h.acceptorStep ok hn htime
  | enableSocks5Store i => exact h.storeListener hn htime
  | enableSocks5Returned | ensureQuicReturned =>
    simp only [LkTunnel.stepOf]
    exact h.moves hn
  | startServer | attachTun | attachTunPrecheck | enableSocks5 | ensureQuic =>
    simp only [LkTunnel.stepOf]
    split <;> exact h.moves hn
  | startServerInstall =>
    simp only [LkTunnel.stepOf]
    split
    · exact h.moves hn
    · exact (h.setNat htime).moves hn
  | attachTunInstall =>
    simp only [LkTunnel.stepOf]
    split
    · exact h.moves hn
    · exact (h.setTun htime).moves hn
  | enableSocks5Bind =>
    simp only [LkTunnel.stepOf]
    split
    · have hmoved : Kept { t with
          calls := t.calls.set n (.enableSocks5Store t.listeners.length) } :=
        h.moves hn
      exact hmoved.addListener (mem_set_self _ hn)
    · exact h.moves hn
  | ensureQuicLock | ensureQuicRecheck | ensureQuicConnected =>
    have hmoved : ∀ (b : Bool) (c' : Call), (∀ pc, c' ≠ .teardown pc) →
        Kept { t with connectLock := b, calls := t.calls.set n c' } := by
      intro b c' hc'
      have hlock : Kept { t with connectLock := b } := { h with }
      exact hlock.moves hn (by simp) hc'
    simp only [LkTunnel.stepOf]
    split <;> exact hmoved _ _ (by simp)
  | ensureQuicClaim =>
    simp only [LkTunnel.stepOf]
    split
    · exact h.moves hn
    · exact (h.setRx htime).moves hn
  | ensureQuicHandshake =>
    simp only [LkTunnel.stepOf]
    split
    · exact h.moves hn
    · exact h.clearRx.moves hn
  | ensureQuicInstall =>
    have hup : Kept { t with
        quicClient := true, connectLock := false, keepers := t.keepers ++ [.read] } :=
      { h.setClient htime with }
    simp only [LkTunnel.stepOf]
    exact hup.moves hn

/-! ## Teardown -/

theorem TeardownPc.eq_of_rank {pc pc' : TeardownPc} (h : pc.rank = pc'.rank) (hpos : 0 < pc.rank) :
    pc = pc' := by
  rcases pc with _ | (_ | _) | _ | _ | _ | _ | _ | _ | _ | _ | _ | _ | _ | (_ | _) <;>
    rcases pc' with _ | (_ | _) | _ | _ | _ | _ | _ | _ | _ | _ | _ | _ | _ | (_ | _) <;>
    first | rfl | exact absurd hpos (by decide) | cases h

/-- A teardown moves on by a rank at most, having done what it had to do at its program point. -/
theorem Kept.advance {t : LkTunnel} (h : Kept t) {n : ℕ} {pc pc' : TeardownPc}
    (hn : t.calls[n]? = some (.teardown pc)) (hle : pc.rank ≤ pc'.rank)
    (hstep : pc'.rank ≤ pc.rank + 1) (hdone : pc.Done t)
    (hearly : pc' = .send true ∨ pc' = .returned false → 0 < t.progress) :
    Kept { t with
      progress := max t.progress pc'.rank
      calls := t.calls.set n (.teardown pc') } where
  task := h.task
  sender := h.sender
  listener i l hi hlive := (h.listener i l hi hlive).imp_right fun hm => mem_set_of_ne hn hm nofun
  acceptor i hi := (h.acceptor i hi).imp_right fun hm => mem_set_of_ne hn hm nofun
  gone pc₁ hlt := by
    by_cases hold : pc₁.rank < t.progress
    · exact h.gone pc₁ hold
    · have hranked := h.ranked pc (List.mem_of_getElem? hn)
      have hlt' : pc₁.rank < max t.progress pc'.rank := hlt
      have heq : pc.rank = pc₁.rank := by omega
      by_cases hpos : 0 < pc.rank
      · exact TeardownPc.eq_of_rank heq hpos ▸ hdone
      · -- Rank zero: nothing to be done.
        have hzero : pc₁.rank = 0 := by omega
        cases pc₁ <;> trivial
  ranked pc₁ hpc₁ := by
    obtain hmem | heq := List.mem_or_eq_of_mem_set hpc₁
    · exact Nat.le_trans (h.ranked pc₁ hmem) (Nat.le_max_left _ _)
    · obtain rfl := Call.teardown.inj heq
      exact Nat.le_max_right _ _
  early pc₁ hpc₁ hcase := by
    obtain hmem | heq := List.mem_or_eq_of_mem_set hpc₁
    · exact Nat.lt_of_lt_of_le (h.early pc₁ hmem hcase) (Nat.le_max_left _ _)
    · obtain rfl := Call.teardown.inj heq
      exact Nat.lt_of_lt_of_le (hearly hcase) (Nat.le_max_left _ _)
  ahead hpos := by
    have hranked := h.ranked pc (List.mem_of_getElem? hn)
    by_cases hnew : t.progress ≤ pc'.rank
    · exact ⟨pc', mem_set_self _ hn, (Nat.max_eq_right hnew).symm⟩
    · have hmax : max t.progress pc'.rank = t.progress := by omega
      obtain ⟨pc₁, hpc₁, hrank⟩ := h.ahead (by omega)
      refine ⟨pc₁, mem_set_of_ne hn hpc₁ ?_, hrank.trans hmax.symm⟩
      intro heq
      obtain rfl := Call.teardown.inj heq
      omega

theorem Kept.abortTask {t : LkTunnel} (h : Kept t) :
    Kept { t with task := false, connectAborted := true } :=
  { h with
    task := fun _ => rfl
    gone := fun pc hlt => by
      cases pc with
      | abortTask => rfl
      | _ => exact h.gone _ hlt }

theorem map_abort_ne_running (o : Option TaskStatus) : o.map TaskStatus.abort ≠ some .running := by
  intro hrun
  obtain ⟨s, -, hs⟩ := Option.map_eq_some_iff.mp hrun
  exact abort_ne_running s hs

theorem Kept.abortSender {t : LkTunnel} (h : Kept t) :
    Kept { t with senderTask := false, sender := t.sender.map TaskStatus.abort } :=
  { h with
    sender := fun hrun => absurd hrun (map_abort_ne_running _)
    gone := fun pc hlt => by
      cases pc with
      | abortSender => exact map_abort_ne_running _
      | _ => exact h.gone _ hlt }

theorem Kept.abortListener {t : LkTunnel} (h : Kept t)
    (hidle : ∀ l ∈ t.socks5Handle.bind (t.listeners[·]?), l.Idle) :
    Kept t.abortListener ∧ t.abortListener.socks5Handle = none := by
  unfold LkTunnel.abortListener
  split
  · rename_i i hslot
    have hmod : Kept (t.modifyListener i fun l => { l with status := l.status.abort }) :=
      h.modifyListener (fun _ => Live.of_abort) i
    refine ⟨{ hmod with
      listener := fun j l hj hlive => ?_
      gone := fun pc hlt => ?_ }, rfl⟩
    · obtain hsame | hcall := hmod.listener j l hj hlive
      · -- The listener of the slot has just been aborted, with no connection open.
        have hsame' : t.socks5Handle = some j := hsame
        rw [hslot] at hsame'
        obtain rfl := Option.some.inj hsame'
        have hj' : (t.listeners.modify i fun l => { l with status := l.status.abort })[i]? = some l :=
          hj
        rw [List.getElem?_modify_eq] at hj'
        obtain ⟨l₀, hl₀, rfl⟩ := Option.map_eq_some_iff.mp hj'
        exact absurd hlive (aborted_not_live (hidle l₀ (by rw [hslot]; exact hl₀)))
      · exact .inr hcall
    · cases pc with
      | abortSocks5 => rfl
      | _ => exact hmod.gone _ hlt
  · rename_i hslot
    exact ⟨h, hslot⟩

theorem Kept.abortAcceptor {t : LkTunnel} (h : Kept t) :
    Kept t.abortAcceptor ∧ t.abortAcceptor.quicServerHandle = none := by
  unfold LkTunnel.abortAcceptor
  split
  · rename_i i hslot
    refine ⟨{ h with
      acceptor := fun j hj => ?_
      gone := fun pc hlt => ?_ }, rfl⟩
    · have hj' : (t.acceptors.modify i TaskStatus.abort)[j]? = some .running := hj
      rw [List.getElem?_modify] at hj'
      obtain ⟨s, hs, hrun⟩ := Option.map_eq_some_iff.mp hj'
      split at hrun
      · exact absurd hrun (abort_ne_running s)
      · rename_i hne
        obtain hsame | hcall := h.acceptor j (by rw [hs, hrun])
        · rw [hslot] at hsame
          exact absurd (Option.some.inj hsame) hne
        · exact .inr hcall
    · cases pc with
      | abortQuicServer => rfl
      | _ => exact h.gone _ hlt
  · rename_i hslot
    exact ⟨h, hslot⟩

theorem Kept.teardownStep {t : LkTunnel} (h : Kept t) (n : ℕ) {pc : TeardownPc}
    (htime : (Call.teardown pc).Timely t) :
    Kept (t.teardownStep n pc).1 ∧ pc.Done (t.teardownStep n pc).1 := by
  cases pc with
  | check | returned => exact ⟨h, trivial⟩
  | send done => exact ⟨h.sendState _ _, trivial⟩
  | pushEvent => exact ⟨h.emitEvent _ _, trivial⟩
  | disconnect | takeEngine => exact ⟨{ h with }, trivial⟩
  | abortTask =>
    simp only [LkTunnel.teardownStep]
    split
    · exact ⟨h.abortTask, rfl⟩
    · rename_i htask
      exact ⟨h, Bool.eq_false_iff.mpr htask⟩
  | abortSender =>
    simp only [LkTunnel.teardownStep]
    split
    · exact ⟨h.abortSender, map_abort_ne_running _⟩
    · rename_i hslot
      refine ⟨h, fun hrun => ?_⟩
      obtain hin | hpc := h.sender hrun
      · exact hslot hin
      · exact htime hpc
  | abortSocks5 => exact h.abortListener htime
  | abortQuicServer => exact h.abortAcceptor
  | dropQuicClient => exact ⟨h.clearClient, rfl⟩
  | clearQuicRx => exact ⟨h.clearRx, rfl⟩
  | takeNat =>
    refine ⟨{ h with gone := fun pc hlt => ?_ }, rfl⟩
    cases pc with
    | takeNat => rfl
    | _ => exact h.gone _ hlt
  | takeTun =>
    refine ⟨{ h with gone := fun pc hlt => ?_ }, rfl⟩
    cases pc with
    | takeTun => rfl
    | _ => exact h.gone _ hlt

theorem teardownStep_rank (t : LkTunnel) (n : ℕ) (pc : TeardownPc) :
    pc.rank ≤ (t.teardownStep n pc).2.rank ∧ (t.teardownStep n pc).2.rank ≤ pc.rank + 1 := by
  cases pc with
  | check =>
    simp only [LkTunnel.teardownStep]
    cases t.state.isTerminal <;> decide
  | send done => cases done <;> simp [LkTunnel.teardownStep, TeardownPc.rank]
  | returned released => exact ⟨Nat.le_refl _, Nat.le_succ _⟩
  | _ => simp [LkTunnel.teardownStep, TeardownPc.rank]

theorem teardownStep_progress (t : LkTunnel) (n : ℕ) (pc : TeardownPc) :
    (t.teardownStep n pc).1.progress = t.progress ∧ (t.teardownStep n pc).1.calls = t.calls := by
  cases pc with
  | abortTask | abortSender =>
    simp only [LkTunnel.teardownStep]
    split <;> exact ⟨rfl, rfl⟩
  | abortSocks5 =>
    simp only [LkTunnel.teardownStep, LkTunnel.abortListener]
    split <;> exact ⟨rfl, rfl⟩
  | abortQuicServer =>
    simp only [LkTunnel.teardownStep, LkTunnel.abortAcceptor]
    split <;> exact ⟨rfl, rfl⟩
  | _ => exact ⟨rfl, rfl⟩

/-- A teardown that returns early has been preceded by one that does not. -/
theorem Kept.teardown_early {t : LkTunnel} (h : Kept t) {n : ℕ} {pc : TeardownPc}
    (hn : t.calls[n]? = some (.teardown pc)) (htime : (Call.teardown pc).Timely t)
    (hcase : (t.teardownStep n pc).2 = .send true ∨ (t.teardownStep n pc).2 = .returned false) :
    0 < t.progress := by
  cases pc with
  | check =>
    obtain hlive | hpos := htime
    · simp [LkTunnel.teardownStep, hlive] at hcase
    · exact hpos
  | send done =>
    cases done with
    | true => exact h.early _ (List.mem_of_getElem? hn) (.inl rfl)
    | false => obtain hcase | hcase := hcase <;> cases hcase
  | returned released =>
    obtain hcase | hcase := hcase
    · cases hcase
    · exact h.early _ (List.mem_of_getElem? hn) (.inr hcase)
  | _ => obtain hcase | hcase := hcase <;> cases hcase

theorem Kept.callStep {t : LkTunnel} (h : Kept t) {n : ℕ} (ok : Bool)
    (htime : ∀ c ∈ t.calls[n]?, c.Timely t) : Kept (t.callStep n ok) := by
  unfold LkTunnel.callStep
  cases hn : t.calls[n]? with
  | none => exact h
  | some c =>
    have htime' := htime c hn
    by_cases hc : ∃ pc, c = .teardown pc
    · obtain ⟨pc, rfl⟩ := hc
      obtain ⟨hkept, hdone⟩ := h.teardownStep n htime'
      obtain ⟨hle, hstep⟩ := teardownStep_rank t n pc
      obtain ⟨hprog, hcalls⟩ := teardownStep_progress t n pc
      refine hkept.advance (hcalls ▸ hn) hle hstep hdone fun hcase => ?_
      rw [hprog]
      exact h.teardown_early hn htime' hcase
    · exact h.installStep ok hn (fun pc hpc => hc ⟨pc, hpc⟩) htime'

/-! ## Runs -/

theorem Kept.keeperMove {t : LkTunnel} (h : Kept t) {n : ℕ} (ok : Bool)
    (htime : ∀ pc ∈ t.keepers[n]?, (pc = .claim → t.before .clearQuicRx) ∧
      (pc = .install → t.before .dropQuicClient)) : Kept (t.keeperMove n ok) := by
  have hset : ∀ {t' : LkTunnel} (ks : List KeeperPc), Kept t' → Kept { t' with keepers := ks } :=
    fun _ h' => { h' with }
  unfold LkTunnel.keeperMove
  cases hn : t.keepers[n]? with
  | none => exact h
  | some pc =>
    obtain ⟨hclaim, hinstall⟩ := htime pc hn
    cases pc with
    | read | closed | checkConnected | recheck | returned => exact hset _ h
    | dropClient =>
      simp only [LkTunnel.keeperStep]
      split
      · exact hset _ h.clearClient
      · exact hset _ h
    | dropRx => exact hset _ h.clearRx
    | claim =>
      simp only [LkTunnel.keeperStep]
      split
      · exact hset _ h
      · exact hset _ (h.setRx (hclaim rfl))
    | handshake =>
      simp only [LkTunnel.keeperStep]
      split
      · exact hset _ h
      · exact hset _ h.clearRx
    | install =>
      simp only [LkTunnel.keeperStep]
      split
      · exact hset _ (h.setClient (hinstall rfl))
      · exact hset _ h
    | clear =>
      simp only [LkTunnel.keeperStep]
      split
      · exact hset _ h.clearRx
      · exact hset _ h

theorem finish_running {s : TaskStatus} : s.finish ≠ .running := by
  cases s <;> nofun

theorem Kept.step {t : LkTunnel} {m : Move} (htime : Timely t m) (h : Kept t) : Kept (t.step m) := by
  cases m with
  | connect i => exact h.connectStep htime
  | call n ok => exact h.callStep ok htime
  | keeper n ok => exact h.keeperMove ok htime
  | enter c =>
    refine h.enter fun pc hpc => ?_
    cases c with
    | disconnect => exact (Call.teardown.inj hpc).symm
    | _ => cases hpc
  | drop =>
    have hdead : Kept { t with alive := false } := { h with }
    exact hdead.enter fun pc hpc => (Call.teardown.inj hpc).symm
  | subscribe | unsubscribe => exact { h with }
  | senderEnds =>
    have hfin : t.sender.map TaskStatus.finish ≠ some .running := by
      intro hrun
      obtain ⟨s, -, hs⟩ := Option.map_eq_some_iff.mp hrun
      exact finish_running hs
    refine { h with sender := fun hrun => absurd hrun hfin, gone := fun pc hlt => ?_ }
    cases pc with
    | abortSender => exact hfin
    | _ => exact h.gone _ hlt
  | acceptorEnds i =>
    refine { h with acceptor := fun j hj => ?_ }
    have hj' : (t.acceptors.modify i TaskStatus.finish)[j]? = some .running := hj
    rw [List.getElem?_modify] at hj'
    obtain ⟨s, hs, hrun⟩ := Option.map_eq_some_iff.mp hj'
    split at hrun
    · exact absurd hrun finish_running
    · exact h.acceptor j (by rw [hs, hrun])
  | accept i =>
    refine h.modifyListener (fun l hlive => ?_) i
    by_cases hrun : l.status = .running
    · exact .inl hrun
    · rw [if_neg hrun] at hlive
      exact hlive
  | spawnConn i =>
    refine h.modifyListener (fun l hlive => ?_) i
    by_cases hacc : l.accepted = true
    · exact .inr fun hidle => by rw [hidle.1] at hacc; cases hacc
    · rw [if_neg hacc] at hlive
      exact hlive
  | connEnds i j =>
    refine h.modifyListener (fun l hlive => ?_) i
    obtain hrun | hbusy := hlive
    · exact .inl hrun
    · refine .inr fun hidle => hbusy ⟨hidle.1, fun hmem => hidle.2 ?_⟩
      obtain ⟨k, hk⟩ := List.mem_iff_getElem?.mp hmem
      rw [List.getElem?_modify] at hk
      obtain ⟨s, hs, hrun⟩ := Option.map_eq_some_iff.mp hk
      split at hrun
      · exact absurd hrun finish_running
      · exact List.mem_of_getElem? (hs.trans (congrArg some hrun))
  | listenerEnds i =>
    refine h.modifyListener (fun l hlive => ?_) i
    by_cases hacc : l.accepted = true
    · rw [if_pos hacc] at hlive
      exact hlive
    · rw [if_neg hacc] at hlive
      obtain hrun | hbusy := hlive
      · exact absurd hrun finish_running
      · exact .inr hbusy

/-- A teardown leaves nothing behind, in every run that stays clear of the gaps. -/
theorem teardown_releases (role : TunnelRole) {ms : List Move} (h : AllMoves Timely { role } ms) :
    TornDown (LkTunnel.run { role } ms) := by
  have hstart : Kept { role } :=
    ⟨nofun, nofun, nofun, nofun, fun _ => nofun, nofun, nofun, nofun⟩
  exact (run_invariant (fun _ _ => Kept.step) hstart h).tornDown

/-- The connect task up to its main loop. -/
def comesUp : List Move :=
  [.connect .dialed, .connect .closed, .connect .closed, .connect .closed,
    .connect (.peerJoined "p"), .connect .closed, .connect .closed, .connect .closed,
    .connect .closed]

/-- `k` steps of call `n`, with nothing failing. -/
def steps (n k : ℕ) : List Move := List.replicate k (.call n true)

/-- `start_server`, then `disconnect`. -/
def servedRun : List Move :=
  comesUp ++ [Move.enter .startServer] ++ steps 0 6 ++ [Move.enter .disconnect] ++ steps 1 13

theorem teardown_releases_server : Quiescent (LkTunnel.run { role := .server } servedRun) ∧
    Released (LkTunnel.run { role := .server } servedRun) := by
  have hquiet : Quiescent (LkTunnel.run { role := .server } servedRun) :=
    ⟨⟨.returned true, by decide +kernel⟩, by decide +kernel⟩
  exact ⟨hquiet, teardown_releases .server (by decide +kernel) hquiet⟩

/-- A client with a SOCKS5 connection open when `disconnect` is called. -/
def proxiedRun : List Move :=
  comesUp ++ steps 0 7 ++ [Move.enter .enableSocks5] ++ steps 1 3 ++ steps 2 1 ++
    [Move.accept 0, .spawnConn 0, .enter .disconnect] ++ steps 3 13

theorem socks5_connection_survives :
    ¬ ∀ (role : TunnelRole) (ms : List Move), TornDown (LkTunnel.run { role } ms) := by
  intro hall
  have hquiet : Quiescent (LkTunnel.run { role := .client } proxiedRun) :=
    ⟨⟨.returned true, by decide +kernel⟩, by decide +kernel⟩
  have hreleased := hall .client proxiedRun hquiet
  have hlistener := hreleased.listeners ⟨.aborted, false, [.running]⟩ (by decide +kernel)
  exact hlistener.2 (by decide)

end BaleVpn.Tunnel
