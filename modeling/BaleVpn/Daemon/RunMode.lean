import BaleVpn.Daemon.Sessions
import BaleVpn.Daemon.TokenStore

/-!
# The mode loop (`daemon.rs`, `ui.rs`, `config.rs`, `client.rs`)

`run_mode` waits for a token, brings the control channel up, reads the mode out of the live config and runs it
until it ends or until the watch channel `mode_tx` has news; then it tears the mode down and begins again. The
handlers of the HTTP interface change the live config under its lock and publish on the channel afterwards,
and nothing keeps the loop from reading the config in between. What is published is never looked at.

What other tasks and the network answer, and which updates of the config file fail, are inputs. The sessions
of a running server are in `Sessions`; the optional TUN of a client touches nothing that is shared.
-/

namespace BaleVpn.Daemon

open Lib

variable {P : Type}

/-! ## State -/

/-- What the loop and the handlers use of the live config. -/
structure Resolved where
  mode : Option String
  natMode : String
  peerId : Option String
  socks5Port : UInt16
  modePinnedByCli : Bool
  deriving DecidableEq, Repr

structure SetConfigBody where
  mode : Option String := none
  natMode : Option String := none
  serverPeerId : Option String := none
  socks5Port : Option UInt16 := none
  deriving DecidableEq, Repr

/-- A request, or another task that writes the token, at what it does next. -/
inductive Request
  /-- `set_config` -/
  | persist (body : SetConfigBody)
  | mirror (body : SetConfigBody)
  /-- `tunnel_disconnect` -/
  | forgetPeer
  | dropPeer
  /-- `logout` -/
  | signOut
  | clearToken
  | readPinned
  | unsetMode
  | forgetMode
  /-- The end of the three. -/
  | send (mode : Option String)
  /-- `TokenStore::save`, for a sign-in or for a token that was pasted. -/
  | signIn (token : List UInt8)
  | saveToken (token : List UInt8)
  /-- `on_token_expired` -/
  | expire
  | clearExpired
  | replied (reply : Except String Unit)

/-- `Inner` of `ClientState`. -/
structure Inner where
  tunnel : ℕ
  socks5Port : UInt16
  deriving DecidableEq, Repr

/-- The handler of incoming calls. -/
inductive Incoming
  | noop
  /-- That of a `ServerTunnelManager`, with or without the daemon's decider. -/
  | internal (admission : Bool)
  deriving DecidableEq, Repr

inductive PlaceCallError
  | rejected | noPeer | notAuthenticated
  | transport (s : String)
  deriving DecidableEq, Repr

/-- `run_client` after it has read the config. -/
inductive DialPc (P : Type)
  | resolve
  | place (peer : P)
  | join (peer : P)
  | socks5 (tunnel : ℕ)
  | publish (inner : Inner)
  | parked (inner : Inner)
  | clear (inner : Inner)
  deriving DecidableEq, Repr

inductive ClientPc (P : Type)
  | read
  | idle
  | dial (peerId : String) (socks5Port : UInt16) (pc : DialPc P)
  deriving DecidableEq, Repr

/-- `run_server` -/
inductive ServerPc
  | read
  | probe
  | install
  | setAdmission
  | parked
  deriving DecidableEq, Repr

/-- `teardown_mode` -/
inductive TeardownPc
  | client | server | handler
  deriving DecidableEq, Repr

inductive RunPc (P : Type)
  | subscribe
  | auth
  | connect
  | retry
  | handshake (tries : ℕ)
  | pick
  | unset
  | client (pc : ClientPc P)
  | server (pc : ServerPc)
  | ended (mode : String) (outcome : Except String Unit)
  | teardown (pc : TeardownPc)

structure Process (P : Type) where
  cfg : Resolved
  /-- The cache of the token store. -/
  token : Option (List UInt8)
  disk : Disk
  /-- The value of `mode_tx`. -/
  published : Option String
  /-- `mode_rx` has not seen it. -/
  unseen : Bool := false
  pc : RunPc P := .subscribe
  client : Option Inner := none
  handler : Option Incoming := none
  requests : List Request := []
  /-- The server has closed with 4401 since the last sign-in. -/
  revoked : Bool := false

/-! ## The handlers -/

/-- What `set_config` does to the config file. -/
def SetConfigBody.store (body : SetConfigBody) (c : Config) : Config :=
  { c with
    mode := body.mode.or c.mode
    natMode := body.natMode.or c.natMode
    peerId := body.serverPeerId.or c.peerId
    socks5Port := body.socks5Port.getD c.socks5Port }

/-- What it does to the live one. -/
def SetConfigBody.apply (body : SetConfigBody) (cfg : Resolved) : Resolved :=
  { cfg with
    mode := body.mode.or cfg.mode
    natMode := body.natMode.getD cfg.natMode
    peerId := body.serverPeerId.or cfg.peerId
    socks5Port := body.socks5Port.getD cfg.socks5Port }

/-- `should_restart`: the port and the NAT mode are not looked at. -/
def SetConfigBody.shouldRestart (body : SetConfigBody) (cfg : Resolved) : Bool :=
  body.mode.any (fun m => cfg.mode ≠ some m) || body.serverPeerId.any fun p => cfg.peerId ≠ some p

namespace Process

variable (json : SerdeJson)

/-- `watch::Sender::send`, which changes nothing as long as there is no receiver. -/
def send (s : Process P) (mode : Option String) : Process P :=
  match s.pc with
  | .subscribe => s
  | _ => { s with published := mode, unseen := true }

/-- `config_file.update` -/
def update (s : Process P) (mutate : Config → Config) (io : Faults) : Process P :=
  { s with disk := ConfigFile.step json s.disk ⟨mutate, io⟩ }

/-- `persist: {e}` -/
def persist (s : Process P) (mutate : Config → Config) (io : Faults) (next : Request) : Process P × Request :=
  (s.update json mutate io,
    if (ConfigFile.update json s.disk ⟨mutate, io⟩).1.isOk then next else .replied (.error "persist"))

/-- A request goes on; `io` says what the system does to an update of the config file. -/
def handle (s : Process P) (io : Faults) : Request → Process P × Request
  | .persist body => s.persist json body.store io (.mirror body)
  | .mirror body =>
    let s' := { s with cfg := body.apply s.cfg }
    (s', if body.shouldRestart s.cfg then .send s'.cfg.mode else .replied (.ok ()))
  | .forgetPeer => s.persist json (fun c => { c with peerId := none }) io .dropPeer
  | .dropPeer => ({ s with cfg := { s.cfg with peerId := none } }, .send s.cfg.mode)
  | .signOut => ({ s with token := none }, .clearToken)
  | .clearToken => (s.update json (TokenCall.clear.update io).mutate io, .readPinned)
  | .readPinned => (s, if s.cfg.modePinnedByCli then .send none else .unsetMode)
  | .unsetMode => ({ s with cfg := { s.cfg with mode := none } }, .forgetMode)
  | .forgetMode => (s.update json (fun c => { c with mode := none }) io, .send none)
  | .send mode => (s.send mode, .replied (.ok ()))
  | .signIn token => ({ s with token := some token, revoked := false }, .saveToken token)
  | .saveToken token => (s.update json ((TokenCall.save token).update io).mutate io, .replied (.ok ()))
  | .expire => ({ s with token := none, revoked := true }, .clearExpired)
  | .clearExpired => (s.update json (TokenCall.clear.update io).mutate io, .replied (.ok ()))
  | .replied reply => (s, .replied reply)

def request (s : Process P) (i : ℕ) (io : Faults) : Process P :=
  match s.requests[i]? with
  | some r => { (s.handle json io r).1 with requests := s.requests.set i (s.handle json io r).2 }
  | none => s

end Process

/-! ## `run_mode` -/

/-- What the calls come to that the loop makes. -/
structure Answers (P : Type) where
  isConnected : Bool := false
  resolvePeer : Option P := none
  placeCall : Except PlaceCallError Unit := .ok ()
  /-- The next event of the manager, while its stream lasts. -/
  event : Option (SessionEvent P) := none
  enableSocks5Server : Except String UInt16 := .ok 0
  openServerTun : Except String Unit := .ok ()

def PlaceCallError.text : PlaceCallError → String
  | .rejected => "call rejected by peer"
  | .noPeer => "peer never joined (timeout)"
  | .notAuthenticated => "not authenticated"
  | .transport s => "transport: " ++ s

/-- The future waits, so that `select!` may turn to the other branch. -/
def ClientPc.Waits : ClientPc P → Bool
  | .dial _ _ (.publish _) | .dial _ _ (.clear _) => false
  | _ => true

def ServerPc.Waits : ServerPc → Bool
  | .read | .parked => true
  | .probe | .install | .setAdmission => false

namespace Process

def go (s : Process P) (pc : RunPc P) : Process P := { s with pc }

/-- `BaleSignaling::connect` -/
def connects (s : Process P) : Bool := s.token.any fun bytes => (String.fromUTF8? ⟨bytes.toArray⟩).isSome

def fail (s : Process P) (mode text : String) : Process P := s.go (.ended mode (.error text))

section

variable [DecidableEq P]

def dialStep (s : Process P) (a : Answers P) (peerId : String) (port : UInt16) (pc : DialPc P) : Process P :=
  let next pc := s.go (.client (.dial peerId port pc))
  match pc with
  | .resolve =>
    match a.resolvePeer with
    | some peer => next (.place peer)
    | none => s.fail "client" "client: unknown peer (resolve_peer returned None)"
  | .place peer =>
    match a.placeCall with
    | .ok () => next (.join peer)
    | .error e => s.fail "client" e.text
  | .join peer =>
    match a.event with
    | some (.connected p tunnel) => if p = peer then next (.socks5 tunnel) else s
    | some (.failed p) => if p = peer then s.fail "client" "LK failed to connect" else s
    | some (.disconnected p) => if p = peer then s.fail "client" "LK disconnected before connect" else s
    | none => s.fail "client" "manager events stream closed"
  | .socks5 tunnel =>
    match a.enableSocks5Server with
    | .ok bound => next (.publish ⟨tunnel, bound⟩)
    | .error e => s.fail "client" e
  | .publish inner => { next (.parked inner) with client := some inner }
  | .parked inner => next (.clear inner)
  | .clear _ => { s.go (.ended "client" (.ok ())) with client := none }

def clientStep (s : Process P) (a : Answers P) : ClientPc P → Process P
  | .read =>
    match s.cfg.peerId with
    | some peerId => s.go (.client (.dial peerId s.cfg.socks5Port .resolve))
    | none => s.go (.client .idle)
  | .idle => s
  | .dial peerId port pc => s.dialStep a peerId port pc

def serverStep (s : Process P) (a : Answers P) : ServerPc → Process P
  | .read =>
    if s.cfg.natMode = "kernel" then s.go (.server .probe)
    else if s.cfg.natMode = "userspace" then s.go (.server .install)
    else s.fail "server" ("unknown --nat-mode: " ++ s.cfg.natMode)
  | .probe =>
    match a.openServerTun with
    | .ok () => s.go (.server .install)
    | .error e => s.fail "server" ("server: kernel TUN open failed (" ++ e ++ ")")
  | .install => { s.go (.server .setAdmission) with handler := some (.internal false) }
  | .setAdmission => { s.go (.server .parked) with handler := some (.internal true) }
  | .parked => s

/-- The loop goes on. -/
def loop (s : Process P) (a : Answers P) : Process P :=
  match s.pc with
  | .subscribe => { s.go .auth with unseen := false }
  | .auth => if s.token.isSome then s.go .connect else s
  | .connect => if s.connects then s.go (.handshake 0) else s.go .retry
  | .retry => s.go .auth
  | .handshake tries => if !a.isConnected && tries < 40 then s.go (.handshake (tries + 1)) else s.go .pick
  | .pick =>
    if s.cfg.mode = some "client" then s.go (.client .read)
    else if s.cfg.mode = some "server" then s.go (.server .read)
    else s.go .unset
  | .unset => if s.unseen then { s.go .auth with unseen := false } else s
  | .client pc => s.clientStep a pc
  | .server pc => s.serverStep a pc
  | .ended mode outcome =>
    match outcome with
    | .ok () => s.go (.teardown .client)
    | .error _ =>
      -- What a handler has written since the client has read it is lost here.
      if mode = "client" then { s.go (.teardown .client) with cfg := { s.cfg with peerId := none } }
      else s.go (.teardown .client)
  | .teardown .client => { s.go (.teardown .server) with client := none }
  | .teardown .server => s.go (.teardown .handler)
  | .teardown .handler => { s.go .auth with handler := some .noop }

end

/-- `select!` finds that the channel has news. -/
def restart (s : Process P) : Process P :=
  let waits := match s.pc with
    | .client pc => pc.Waits
    | .server pc => pc.Waits
    | _ => false
  if waits && s.unseen then { s.go (.teardown .client) with unseen := false } else s

end Process

inductive ProcessMove (P : Type)
  | arrive (r : Request)
  | request (i : ℕ) (io : Faults)
  | loop (a : Answers P)
  | restart

/-- What a request or a task of its own begins with. -/
def Request.Begins : Request → Bool
  | .persist _ | .forgetPeer | .signOut | .signIn _ | .expire => true
  | _ => false

namespace Process

variable (json : SerdeJson)

/-- `run_with_shutdown`, which forgets the peer of the last run. -/
def start (cfg : Resolved) (disk : Disk) (io : Faults) : Process P where
  cfg := { cfg with peerId := none }
  token := (FileTokenStore.new json disk io).cache
  disk
  published := cfg.mode

variable [DecidableEq P]

def step (s : Process P) : ProcessMove P → Process P
  | .arrive r => if r.Begins then { s with requests := s.requests ++ [r] } else s
  | .request i io => s.request json i io
  | .loop a => s.loop a
  | .restart => s.restart

def run (s : Process P) (ms : List (ProcessMove P)) : Process P := ms.foldl (step json) s

end Process

/-! ## The property -/

/-- The request goes on to publish. -/
def Request.Sends : Request → Bool
  | .dropPeer | .signOut | .clearToken | .readPinned | .unsetMode | .forgetMode | .send _ => true
  | _ => false

/-- The mode has begun with this peer, or with none. -/
def ClientPc.Follows (cfg : Resolved) : ClientPc P → Prop
  | .read => True
  | .idle => cfg.peerId = none
  | .dial peerId _ _ => cfg.peerId = some peerId

/-- Behind the check of the token. -/
def RunPc.NeedsToken : RunPc P → Bool
  | .connect | .handshake _ | .pick | .unset | .client _ | .server _ => true
  | _ => false

namespace Process

/-- The loop has news to look at, or a request is about to publish some. -/
def RestartComing (s : Process P) : Prop := s.unseen = true ∨ ∃ r ∈ s.requests, r.Sends = true

/-- The loop does what the live config says. -/
def Follows (s : Process P) : Prop :=
  match s.pc with
  | .unset => s.cfg.mode ≠ some "client" ∧ s.cfg.mode ≠ some "server"
  | .client pc => s.cfg.mode = some "client" ∧ pc.Follows s.cfg
  | .server _ => s.cfg.mode = some "server"
  | _ => True

/-- A tunnel is shown while a client has it, and until the teardown has begun. -/
def Shows (s : Process P) : Prop :=
  match s.pc with
  | .client (.dial _ _ (.parked inner)) | .client (.dial _ _ (.clear inner)) => s.client = some inner
  | .teardown .client => True
  | _ => s.client = none

/-- Calls are let in while a server runs, and until the teardown is done. -/
def Admits (s : Process P) : Prop :=
  match s.pc with
  | .server .setAdmission => s.handler = some (.internal false)
  | .server .parked => s.handler = some (.internal true)
  | .teardown _ => True
  | _ => ∀ admission, s.handler ≠ some (.internal admission)

structure KeepsUp (s : Process P) : Prop where
  follows : s.RestartComing ∨ s.Follows
  signedIn : s.pc.NeedsToken = true → s.token = none → s.revoked = true ∨ s.RestartComing
  shows : s.Shows
  admits : s.Admits

/-! ## Requests -/

/-- What one step of a request does to the rest. -/
structure Handled (s s' : Process P) (r r' : Request) : Prop where
  pc : s'.pc = s.pc
  client : s'.client = s.client
  handler : s'.handler = s.handler
  unseen : s.unseen = true → s'.unseen = true
  sends : r.Sends = true → r'.Sends = true ∨ s'.unseen = true ∨ s.pc = .subscribe
  cfg : r'.Sends = true ∨ s'.cfg.mode = s.cfg.mode ∧ s'.cfg.peerId = s.cfg.peerId
  token : s'.token = none →
    s'.revoked = true ∨ r'.Sends = true ∨ s.token = none ∧ s'.revoked = s.revoked

variable {json : SerdeJson} {s : Process P}

theorem shouldRestart_eq_false {body : SetConfigBody} {cfg : Resolved} (h : body.shouldRestart cfg = false) :
    (body.apply cfg).mode = cfg.mode ∧ (body.apply cfg).peerId = cfg.peerId := by
  obtain ⟨hmode, hpeer⟩ := Bool.or_eq_false_iff.mp h
  constructor
  · rcases hm : body.mode with - | m
    · simp [SetConfigBody.apply, hm]
    · simp only [hm, Option.any_some, decide_eq_false_iff_not, not_not] at hmode
      simp [SetConfigBody.apply, hm, hmode]
  · rcases hp : body.serverPeerId with - | p
    · simp [SetConfigBody.apply, hp]
    · simp only [hp, Option.any_some, decide_eq_false_iff_not, not_not] at hpeer
      simp [SetConfigBody.apply, hp, hpeer]

theorem Handled.of_same {s' : Process P} {r r' : Request} (hpc : s'.pc = s.pc) (hclient : s'.client = s.client)
    (hhandler : s'.handler = s.handler) (hunseen : s'.unseen = s.unseen) (hcfg : s'.cfg = s.cfg)
    (htoken : s'.token = s.token) (hrevoked : s'.revoked = s.revoked)
    (hsends : r.Sends = true → r'.Sends = true) : Handled s s' r r' where
  pc := hpc
  client := hclient
  handler := hhandler
  unseen := fun h => hunseen.trans h
  sends := fun h => .inl (hsends h)
  cfg := .inr ⟨by rw [hcfg], by rw [hcfg]⟩
  token := fun h => .inr (.inr ⟨htoken.symm.trans h, hrevoked⟩)

theorem persist_handled (mutate : Config → Config) (io : Faults) (next : Request) {r : Request}
    (hr : r.Sends = false) : Handled s (s.persist json mutate io next).1 r (s.persist json mutate io next).2 :=
  .of_same rfl rfl rfl rfl rfl rfl rfl fun h => absurd h (by simp [hr])

theorem handled (io : Faults) (r : Request) : Handled s (s.handle json io r).1 r (s.handle json io r).2 := by
  cases r with
  | persist body => exact persist_handled _ _ _ rfl
  | forgetPeer => exact persist_handled _ _ _ rfl
  | clearToken | forgetMode => exact .of_same rfl rfl rfl rfl rfl rfl rfl fun _ => rfl
  | saveToken token | clearExpired => exact .of_same rfl rfl rfl rfl rfl rfl rfl nofun
  | replied reply => exact .of_same rfl rfl rfl rfl rfl rfl rfl id
  | readPinned =>
    refine .of_same rfl rfl rfl rfl rfl rfl rfl fun _ => ?_
    simp only [handle]
    split <;> rfl
  | mirror body =>
    refine ⟨rfl, rfl, rfl, id, nofun, ?_, fun h => .inr (.inr ⟨h, rfl⟩)⟩
    rcases hrestart : body.shouldRestart s.cfg with - | -
    · exact .inr (shouldRestart_eq_false hrestart)
    · refine .inl ?_
      simp only [handle, hrestart]
      rfl
  | dropPeer => exact ⟨rfl, rfl, rfl, id, fun _ => .inl rfl, .inl rfl, fun _ => .inr (.inl rfl)⟩
  | signOut => exact ⟨rfl, rfl, rfl, id, fun _ => .inl rfl, .inl rfl, fun _ => .inr (.inl rfl)⟩
  | unsetMode => exact ⟨rfl, rfl, rfl, id, fun _ => .inl rfl, .inl rfl, fun _ => .inr (.inl rfl)⟩
  | signIn token => exact ⟨rfl, rfl, rfl, id, nofun, .inr ⟨rfl, rfl⟩, nofun⟩
  | expire => exact ⟨rfl, rfl, rfl, id, nofun, .inr ⟨rfl, rfl⟩, fun _ => .inl rfl⟩
  | send mode =>
    simp only [handle, send]
    split
    · next hpc => exact ⟨rfl, rfl, rfl, id, fun _ => .inr (.inr hpc), .inr ⟨rfl, rfl⟩, fun h => .inr (.inr ⟨h, rfl⟩)⟩
    · exact ⟨rfl, rfl, rfl, fun _ => rfl, fun _ => .inr (.inl rfl), .inr ⟨rfl, rfl⟩, fun h => .inr (.inr ⟨h, rfl⟩)⟩

/-! ## Steps -/

theorem RestartComing.of_unseen {s' : Process P} (hunseen : s'.unseen = s.unseen)
    (hrequests : s'.requests = s.requests) (h : s.RestartComing) : s'.RestartComing := by
  unfold RestartComing at h ⊢
  rwa [hunseen, hrequests]

theorem RestartComing.request {i : ℕ} {io : Faults} {r : Request} (hr : s.requests[i]? = some r)
    (hpc : s.pc ≠ .subscribe) (h : s.RestartComing) : (s.request json i io).RestartComing := by
  have hstep : Handled s (s.handle json io r).1 r (s.handle json io r).2 := handled io r
  have hi : i < s.requests.length := (List.getElem?_eq_some_iff.mp hr).1
  simp only [Process.request, hr]
  rcases h with hunseen | ⟨q, hq, hsends⟩
  · exact .inl (hstep.unseen hunseen)
  · obtain ⟨j, hj⟩ := List.mem_iff_getElem?.mp hq
    by_cases hij : i = j
    · subst hij
      obtain rfl : r = q := Option.some.inj (hr.symm.trans hj)
      rcases hstep.sends hsends with h' | h' | h'
      · exact .inr ⟨_, List.mem_set hi _, h'⟩
      · exact .inl h'
      · exact absurd h' hpc
    · refine .inr ⟨q, List.mem_iff_getElem?.mpr ⟨j, ?_⟩, hsends⟩
      rwa [List.getElem?_set_ne hij]

theorem follows_congr {s' : Process P} (hpc : s'.pc = s.pc) (hmode : s'.cfg.mode = s.cfg.mode)
    (hpeer : s'.cfg.peerId = s.cfg.peerId) (h : s.Follows) : s'.Follows := by
  unfold Follows at h ⊢
  rw [hpc, hmode]
  split at h
  · exact h
  · next pc _ =>
    refine ⟨h.1, ?_⟩
    have hpc' := h.2
    cases pc with
    | read => trivial
    | idle => exact hpeer.trans hpc'
    | dial => exact hpeer.trans hpc'
  · exact h
  · trivial

theorem KeepsUp.request (h : s.KeepsUp) (i : ℕ) (io : Faults) : (s.request json i io).KeepsUp := by
  rcases hr : s.requests[i]? with - | r
  · simpa only [Process.request, hr] using h
  have hstep : Handled s (s.handle json io r).1 r (s.handle json io r).2 := handled io r
  have hi : i < s.requests.length := (List.getElem?_eq_some_iff.mp hr).1
  have hcoming : s.pc ≠ .subscribe → s.RestartComing → (s.request json i io).RestartComing :=
    fun hpc => RestartComing.request hr hpc
  have hself : (s.handle json io r).2.Sends = true → (s.request json i io).RestartComing := by
    intro hsends
    simp only [Process.request, hr]
    exact .inr ⟨_, List.mem_set hi _, hsends⟩
  have hpc : (s.request json i io).pc = s.pc := by simpa only [Process.request, hr] using hstep.pc
  constructor
  · by_cases hsub : s.pc = .subscribe
    · refine .inr ?_
      unfold Follows
      rw [hpc, hsub]
      trivial
    · rcases h.follows with h' | h'
      · exact .inl (hcoming hsub h')
      · rcases hstep.cfg with hsends | ⟨hmode, hpeer⟩
        · exact .inl (hself hsends)
        · refine .inr (follows_congr hpc ?_ ?_ h')
          · simpa only [Process.request, hr] using hmode
          · simpa only [Process.request, hr] using hpeer
  · intro hneeds htoken
    rw [hpc] at hneeds
    have hsub : s.pc ≠ .subscribe := by
      intro hsub
      rw [hsub] at hneeds
      exact absurd hneeds Bool.false_ne_true
    have hnone : (s.handle json io r).1.token = none := by simpa only [Process.request, hr] using htoken
    rcases hstep.token hnone with h' | h' | ⟨h', hrevoked⟩
    · refine .inl ?_
      simpa only [Process.request, hr] using h'
    · exact .inr (hself h')
    · rcases h.signedIn hneeds h' with h'' | h''
      · refine .inl ?_
        simpa only [Process.request, hr] using hrevoked.trans h''
      · exact .inr (hcoming hsub h'')
  · have hshows := h.shows
    unfold Shows at hshows ⊢
    rw [hpc]
    simpa only [Process.request, hr, hstep.client] using hshows
  · have hadmits := h.admits
    unfold Admits at hadmits ⊢
    rw [hpc]
    simpa only [Process.request, hr, hstep.handler] using hadmits

theorem KeepsUp.arrive (h : s.KeepsUp) (r : Request) : { s with requests := s.requests ++ [r] }.KeepsUp := by
  have hcoming : s.RestartComing → { s with requests := s.requests ++ [r] }.RestartComing := by
    rintro (hunseen | ⟨q, hq, hsends⟩)
    · exact .inl hunseen
    · exact .inr ⟨q, List.mem_append_left _ hq, hsends⟩
  exact ⟨h.follows.imp hcoming id, fun hneeds htoken => (h.signedIn hneeds htoken).imp id hcoming, h.shows, h.admits⟩

theorem KeepsUp.quiet {s' : Process P} (h : s.KeepsUp) (hunseen : s'.unseen = s.unseen)
    (hrequests : s'.requests = s.requests) (htoken : s'.token = s.token) (hrevoked : s'.revoked = s.revoked)
    (hfollows : s.Follows → s'.Follows)
    (hneeds : s'.pc.NeedsToken = true → s.pc.NeedsToken = true ∨ s.token.isSome = true) (hshows : s'.Shows)
    (hadmits : s'.Admits) : s'.KeepsUp where
  follows := h.follows.imp (.of_unseen hunseen hrequests) hfollows
  signedIn hpc hnone := by
    rw [htoken] at hnone
    rcases hneeds hpc with h' | h'
    · rw [hrevoked]
      exact (h.signedIn h' hnone).imp id (.of_unseen hunseen hrequests)
    · simp [hnone] at h'
  shows := hshows
  admits := hadmits

theorem KeepsUp.of_begin {s' : Process P} (hpc : s'.pc = .auth ∧ s'.Shows ∧ s'.Admits ∨ s'.pc = .teardown .client) :
    s'.KeepsUp := by
  rcases hpc with ⟨hpc, hshows, hadmits⟩ | hpc
  · refine ⟨.inr ?_, fun h => ?_, hshows, hadmits⟩
    · simp only [Follows, hpc]
    · rw [hpc] at h
      exact absurd h Bool.false_ne_true
  · refine ⟨.inr ?_, fun h => ?_, ?_, ?_⟩
    · simp only [Follows, hpc]
    · rw [hpc] at h
      exact absurd h Bool.false_ne_true
    · simp only [Shows, hpc]
    · simp only [Admits, hpc]

/-- No tunnel is shown and no call let in. -/
structure Bare (s : Process P) : Prop where
  client : s.client = none
  handler : ∀ admission, s.handler ≠ some (.internal admission)

theorem KeepsUp.fail (h : s.KeepsUp) (hbare : s.Bare) (mode text : String) : (s.fail mode text).KeepsUp :=
  h.quiet rfl rfl rfl rfl (fun _ => trivial) (fun h => absurd h Bool.false_ne_true) hbare.client hbare.handler

theorem KeepsUp.go (h : s.KeepsUp) (hbare : s.Bare) {pc : RunPc P} (hfollows : s.Follows → (s.go pc).Follows)
    (hneeds : pc.NeedsToken = true → s.pc.NeedsToken = true ∨ s.token.isSome = true)
    (hshows : (s.go pc).Shows = (s.client = none))
    (hadmits : (s.go pc).Admits = ∀ admission, s.handler ≠ some (.internal admission)) : (s.go pc).KeepsUp :=
  h.quiet rfl rfl rfl rfl hfollows hneeds (hshows.mpr hbare.client) (hadmits.mpr hbare.handler)

theorem KeepsUp.restart (h : s.KeepsUp) : s.restart.KeepsUp := by
  unfold Process.restart
  dsimp only
  split_ifs
  · exact .of_begin (.inr rfl)
  · exact h

variable [DecidableEq P]

theorem KeepsUp.dial {a : Answers P} {peerId : String} {port : UInt16} {pc : DialPc P} (h : s.KeepsUp)
    (hpc : s.pc = .client (.dial peerId port pc)) : (s.dialStep a peerId port pc).KeepsUp := by
  have hshows := h.shows
  have hadmits := h.admits
  simp only [Shows, Admits, hpc] at hshows hadmits
  have hfollows : ∀ pc', s.Follows → (s.go (.client (.dial peerId port pc'))).Follows := by
    intro pc' hf
    simp only [Follows, hpc] at hf
    exact hf
  have hneeds : ∀ {pc' : RunPc P}, pc'.NeedsToken = true → s.pc.NeedsToken = true ∨ s.token.isSome = true := by
    intro pc' _
    rw [hpc]
    exact .inl rfl
  cases pc with
  | resolve =>
    have hbare : s.Bare := ⟨hshows, hadmits⟩
    simp only [dialStep]
    split
    · exact h.go hbare (hfollows _) hneeds rfl rfl
    · exact h.fail hbare _ _
  | place peer =>
    have hbare : s.Bare := ⟨hshows, hadmits⟩
    simp only [dialStep]
    split
    · exact h.go hbare (hfollows _) hneeds rfl rfl
    · exact h.fail hbare _ _
  | join peer =>
    have hbare : s.Bare := ⟨hshows, hadmits⟩
    simp only [dialStep]
    split
    · split_ifs
      · exact h.go hbare (hfollows _) hneeds rfl rfl
      · exact h
    · split_ifs
      · exact h.fail hbare _ _
      · exact h
    · split_ifs
      · exact h.fail hbare _ _
      · exact h
    · exact h.fail hbare _ _
  | socks5 tunnel =>
    have hbare : s.Bare := ⟨hshows, hadmits⟩
    simp only [dialStep]
    split
    · exact h.go hbare (hfollows _) hneeds rfl rfl
    · exact h.fail hbare _ _
  | publish inner => exact h.quiet rfl rfl rfl rfl (hfollows _) hneeds rfl hadmits
  | parked inner => exact h.quiet rfl rfl rfl rfl (hfollows _) hneeds hshows hadmits
  | clear inner =>
    exact h.quiet rfl rfl rfl rfl (fun _ => trivial) (fun h => absurd h Bool.false_ne_true) rfl hadmits

theorem KeepsUp.client {a : Answers P} {pc : ClientPc P} (h : s.KeepsUp) (hpc : s.pc = .client pc) :
    (s.clientStep a pc).KeepsUp := by
  cases pc with
  | read =>
    have hshows := h.shows
    have hadmits := h.admits
    simp only [Shows, Admits, hpc] at hshows hadmits
    have hneeds : ∀ {pc' : RunPc P}, pc'.NeedsToken = true → s.pc.NeedsToken = true ∨ s.token.isSome = true := by
      intro pc' _
      rw [hpc]
      exact .inl rfl
    simp only [clientStep]
    split
    · next peerId hpeer =>
      refine h.go ⟨hshows, hadmits⟩ (fun hf => ?_) hneeds rfl rfl
      simp only [Follows, hpc] at hf
      exact ⟨hf.1, hpeer⟩
    · next hpeer =>
      refine h.go ⟨hshows, hadmits⟩ (fun hf => ?_) hneeds rfl rfl
      simp only [Follows, hpc] at hf
      exact ⟨hf.1, hpeer⟩
  | idle => exact h
  | dial peerId port pc => exact h.dial hpc

omit [DecidableEq P] in
theorem KeepsUp.server {a : Answers P} {pc : ServerPc} (h : s.KeepsUp) (hpc : s.pc = .server pc) :
    (s.serverStep a pc).KeepsUp := by
  have hshows := h.shows
  have hadmits := h.admits
  simp only [Shows, Admits, hpc] at hshows hadmits
  have hfollows : ∀ pc', s.Follows → (s.go (.server pc')).Follows := by
    intro pc' hf
    simp only [Follows, hpc] at hf
    exact hf
  have hneeds : ∀ {pc' : RunPc P}, pc'.NeedsToken = true → s.pc.NeedsToken = true ∨ s.token.isSome = true := by
    intro pc' _
    rw [hpc]
    exact .inl rfl
  cases pc with
  | read =>
    simp only [serverStep]
    split_ifs
    · exact h.go ⟨hshows, hadmits⟩ (hfollows _) hneeds rfl rfl
    · exact h.go ⟨hshows, hadmits⟩ (hfollows _) hneeds rfl rfl
    · exact h.fail ⟨hshows, hadmits⟩ _ _
  | probe =>
    simp only [serverStep]
    split
    · exact h.go ⟨hshows, hadmits⟩ (hfollows _) hneeds rfl rfl
    · exact h.fail ⟨hshows, hadmits⟩ _ _
  | install => exact h.quiet rfl rfl rfl rfl (hfollows .setAdmission) hneeds hshows rfl
  | setAdmission => exact h.quiet rfl rfl rfl rfl (hfollows .parked) hneeds hshows rfl
  | parked => exact h

theorem KeepsUp.loop (h : s.KeepsUp) (a : Answers P) : (s.loop a).KeepsUp := by
  have hshows := h.shows
  have hadmits := h.admits
  unfold Process.loop
  split <;> rename_i hpc
  case h_8 pc => exact h.client hpc
  case h_9 pc => exact h.server hpc
  all_goals simp only [Shows, Admits, hpc] at hshows hadmits
  case h_1 => exact .of_begin (.inl ⟨rfl, hshows, hadmits⟩)
  case h_2 =>
    split_ifs with htoken
    · exact h.go ⟨hshows, hadmits⟩ (fun _ => trivial) (fun _ => .inr htoken) rfl rfl
    · exact h
  case h_3 =>
    split_ifs
    · exact h.go ⟨hshows, hadmits⟩ (fun _ => trivial) (fun _ => .inl (by rw [hpc]; rfl)) rfl rfl
    · exact h.go ⟨hshows, hadmits⟩ (fun _ => trivial) nofun rfl rfl
  case h_4 => exact .of_begin (.inl ⟨rfl, hshows, hadmits⟩)
  case h_5 =>
    split_ifs <;>
      exact h.go ⟨hshows, hadmits⟩ (fun _ => trivial) (fun _ => .inl (by rw [hpc]; rfl)) rfl rfl
  case h_6 =>
    have hneeds : s.pc.NeedsToken = true := by rw [hpc]; rfl
    split_ifs with hclient hserver
    · exact h.go ⟨hshows, hadmits⟩ (fun _ => ⟨hclient, trivial⟩) (fun _ => .inl hneeds) rfl rfl
    · exact h.go ⟨hshows, hadmits⟩ (fun _ => hserver) (fun _ => .inl hneeds) rfl rfl
    · exact h.go ⟨hshows, hadmits⟩ (fun _ => ⟨hclient, hserver⟩) (fun _ => .inl hneeds) rfl rfl
  case h_7 =>
    split_ifs
    · exact .of_begin (.inl ⟨rfl, hshows, hadmits⟩)
    · exact h
  case h_10 mode outcome =>
    split
    · exact .of_begin (.inr rfl)
    · split_ifs <;> exact .of_begin (.inr rfl)
  case h_11 => exact h.quiet rfl rfl rfl rfl (fun _ => trivial) nofun rfl trivial
  case h_12 => exact h.quiet rfl rfl rfl rfl (fun _ => trivial) nofun hshows trivial
  case h_13 => exact .of_begin (.inl ⟨rfl, hshows, nofun⟩)

theorem KeepsUp.step (h : s.KeepsUp) (m : ProcessMove P) : (s.step json m).KeepsUp := by
  cases m with
  | arrive r =>
    simp only [Process.step]
    split_ifs
    · exact h.arrive r
    · exact h
  | request i io => exact h.request i io
  | loop a => exact h.loop a
  | restart => exact h.restart

/-- In whatever order the loop and the requests take their steps, the loop follows the live config or is about
to be restarted, runs without a token only where the server has revoked it, shows the tunnel of the client that
it runs, and lets calls in only for its server. -/
theorem mode_loop_keeps_up (json : SerdeJson) (cfg : Resolved) (disk : Disk) (io : Faults)
    (ms : List (ProcessMove P)) : ((start json cfg disk io).run json ms).KeepsUp := by
  refine foldl_invariant (I := KeepsUp) (fun _ m h => h.step m) ms ?_
  exact ⟨.inr trivial, fun h => absurd h Bool.false_ne_true, rfl, nofun⟩

end Process

end BaleVpn.Daemon
