import BaleVpn.Socks.Sides

/-!
# What a proxied connection delivers (`socks5_quic.rs`)

Up to the first failure the two ends close only behind what was sent: `Clean` says this of each side, and
each side keeps it whatever the other does. With the invariants of `Sides` the connection is a pipe
from the application, behind its request, to the host that the request names, and one back, behind the
reply.
-/

namespace BaleVpn.Socks

open Lib Net

namespace Exchange

variable {parseIp : String → Option StdIpAddr} {net : Dialer} {s s' : Exchange}

/-! ## The order of the ends -/

def ClientClean (s : Exchange) : Prop :=
  match s.client with
  | .relay _ => Pipe.Follows s.fromApp s.up ∧ Pipe.Follows s.down s.toApp
  | .closed none => s.up.ended = false
  | .closed (some a) => s.up.sent = encodeTarget a.target ∧
      ∃ status, status ≠ REP_SUCCEEDED ∧ s.down.got = [status] ∧
        s.toApp.sent = a.proto.greeting ++ a.proto.reply status
  | _ => True

variable (net) in
def ServerClean (s : Exchange) : Prop :=
  match s.server with
  | .relay _ => Pipe.Follows s.up s.toHost ∧ Pipe.Follows s.fromHost s.down
  | .closed none => False
  | .closed (some t) => s.toHost.ended = false ∧
      ∃ status, status ≠ REP_SUCCEEDED ∧ (dialTarget true net t).status = some status ∧
        s.down.sent = [status]
  | _ => True

theorem ClientClean.of_view (h : s.ClientClean) (hview : s'.clientView = s.clientView)
    (hdown : s.down.Drained → s'.down.Drained) : s'.ClientClean := by
  simp only [clientView, ClientView.mk.injEq] at hview
  obtain ⟨hc, hfrom, hto, hsent, hend, hgot⟩ := hview
  unfold ClientClean at h ⊢
  rw [hc]
  split at h
  · refine ⟨fun hup => ?_, fun happ => ?_⟩
    · rw [hfrom]
      exact h.1 (hend ▸ hup)
    · exact hdown (h.2 (hto ▸ happ))
  · exact hend.trans h
  · rw [hsent, hgot, hto]
    exact h
  · trivial

theorem ServerClean.of_view (h : s.ServerClean net) (hview : s'.serverView = s.serverView)
    (hup : s.up.Drained → s'.up.Drained) : s'.ServerClean net := by
  simp only [serverView, ServerView.mk.injEq] at hview
  obtain ⟨hs, hgot, hsent, hend, hto, hfrom⟩ := hview
  unfold ServerClean at h ⊢
  rw [hs]
  split at h
  · refine ⟨fun hhost => ?_, fun hdown => ?_⟩
    · exact hup (h.1 (hto ▸ hhost))
    · rw [hfrom]
      exact h.2 (hend ▸ hdown)
  · exact h
  · rw [hto, hsent]
    exact h
  · trivial

/-! ## What one side knows of the other -/

/-- What went up so far: nothing, or the envelope of the target and what was relayed behind it. -/
theorem up_sent (h : s.clientView.Ok parseIp) :
    s.up.sent = [] ∨ ∃ a x, s.client.asked = some a ∧ Parsed parseIp a ∧
      s.up.sent = encodeTarget a.target ++ x ∧ s.fromApp.got = a.head ++ x := by
  unfold ClientView.Ok at h
  unfold clientView at h
  simp only at h
  split at h
  · exact .inl h.asked
  · exact .inl h.asked
  · exact .inl h.1.asked
  · obtain ⟨c, methods, -, -, hbefore⟩ := h
    exact .inl hbefore.asked
  · exact .inl h.2.asked
  · rename_i a hc
    obtain ⟨hparsed, hbefore⟩ := h
    refine .inr ⟨a, [], by rw [hc]; rfl, hparsed, ?_, ?_⟩
    · exact hbefore.asked.trans (List.append_nil _).symm
    · exact hbefore.taken.trans (List.append_nil _).symm
  · rename_i a hc
    obtain ⟨hparsed, ⟨x, hgot, hsent⟩, -⟩ := h
    exact .inr ⟨a, x, by rw [hc]; rfl, hparsed, hsent, hgot⟩
  · exact .inl h
  · rename_i a hc
    obtain ⟨hparsed, hgot, hsent | hsent, -⟩ := h
    · exact .inl hsent
    · refine .inr ⟨a, [], by rw [hc]; rfl, hparsed, ?_, ?_⟩
      · exact hsent.trans (List.append_nil _).symm
      · exact hgot.trans (List.append_nil _).symm

theorem up_open (h : s.clientView.Ok parseIp) (hclean : s.ClientClean) (hnil : s.up.sent = []) :
    s.up.ended = false := by
  have hne {t : Target} (x : Bytes) : encodeTarget t ++ x ≠ [] := by
    cases t with
    | ip ip port => cases ip <;> exact List.cons_ne_nil _ _
    | domain d port => exact List.cons_ne_nil _ _
  unfold ClientView.Ok at h
  unfold clientView at h
  simp only at h
  split at h
  · exact h.upOpen
  · exact h.upOpen
  · exact h.1.upOpen
  · obtain ⟨c, methods, -, -, hbefore⟩ := h
    exact hbefore.upOpen
  · exact h.2.upOpen
  · exact h.2.upOpen
  · obtain ⟨-, ⟨x, -, hsent⟩, -⟩ := h
    exact absurd (hsent.symm.trans hnil) (hne x)
  · rename_i hc
    simpa only [ClientClean, hc] using hclean
  · rename_i a hc
    simp only [ClientClean, hc] at hclean
    exact absurd ((List.append_nil _).trans (hclean.1.symm.trans hnil)) (hne [])

theorem envelope_sent (h : s.clientView.Ok parseIp) {c : Bytes} {t : Target} (henv : Envelope c t)
    (hc : c <+: s.up.sent) :
    ∃ a x, s.client.asked = some a ∧ a.target = t ∧ Parsed parseIp a ∧ c = encodeTarget t ∧
      s.up.sent = c ++ x ∧ s.fromApp.got = a.head ++ x := by
  obtain ⟨rest, hrest⟩ := hc
  rcases up_sent h with hnil | ⟨a, x, ha, hparsed, hsent, hgot⟩
  · rw [hnil] at hrest
    obtain ⟨rfl, -⟩ := List.append_eq_nil_iff.mp hrest
    exact absurd (henv []) (by simp [readTarget, readExact, bind, Except.bind])
  · have hread : readTarget s.up.sent = .ok (a.target, x) := by
      rw [hsent]
      exact readTarget_encodeTarget hparsed.1 x
    obtain ⟨rfl, rfl⟩ := Incremental.unique hread hrest.symm henv
    have hsame : c = encodeTarget a.target := List.append_cancel_right (hrest.trans hsent)
    exact ⟨a, x, ha, rfl, hparsed, hsame, hrest.symm, hgot⟩

theorem not_drained (h : s.serverView.Ok net) (hclean : s.ServerClean net) (hgot : s.down.got = []) :
    ¬ s.down.Drained := by
  intro hdrained
  have hsent : s.down.sent = [] := hdrained.sent.trans hgot
  unfold ServerView.Ok at h
  unfold serverView at h
  simp only at h
  split at h
  · exact absurd hdrained.1 (by simp [h.2.2.1])
  · exact absurd hdrained.1 (by simp [h.2.2.1])
  · exact absurd (hsent.symm.trans h.2.2) (List.cons_ne_nil _ _).symm
  · rename_i hs
    simp only [ServerClean, hs] at hclean
  · rename_i t hs
    simp only [ServerClean, hs] at hclean
    obtain ⟨-, status, -, -, hstatus⟩ := hclean
    exact absurd (hsent.symm.trans hstatus) (List.cons_ne_nil _ _).symm

theorem dialTarget_status (enabled : Bool) (net : Dialer) (t : Target) :
    ∃ status, (dialTarget enabled net t).status = some status := by
  unfold dialTarget
  split
  · exact ⟨_, rfl⟩
  · split
    · exact ⟨_, rfl⟩
    · split
      · exact ⟨_, rfl⟩
      · exact ⟨_, rfl⟩

/-! ## Every step without a failure -/

theorem clean_answer {a : Asked} {status : UInt8} (happ : s.toApp.ended = false) (hup : s.up.ended = false)
    (hto : s.toApp.sent = a.proto.greeting) (hsent : s.up.sent = encodeTarget a.target)
    (hgot : s.down.got = [status]) : (s.answer a status).ClientClean := by
  unfold answer
  split
  · refine ⟨fun hend => ?_, fun hend => ?_⟩
    · exact absurd (hup.symm.trans hend) (by decide)
    · exact absurd (happ.symm.trans (Pipe.ended_send.symm.trans hend)) (by decide)
  · rename_i hstatus
    refine ⟨hsent, status, fun heq => hstatus (beq_of_eq heq), hgot, ?_⟩
    exact (Pipe.sent_send happ).trans (congrArg (· ++ _) hto)

theorem clean_stepClient (h : s.Ok parseIp net) (hclient : s.ClientClean) (hserver : s.ServerClean net) :
    (s.stepClient parseIp).ClientClean := by
  obtain ⟨hok, hsok⟩ := h
  unfold stepClient
  simp only [ClientView.Ok, clientView] at hok
  cases hc : s.client with
  | peek =>
    simp only [hc] at hok ⊢
    split
    · rename_i b bs hq
      by_cases hb : b = SOCKS_VER
      · simp [ClientClean, hb]
      · simp [ClientClean, hb]
    · split
      · exact hok.upOpen
      · exact hclient
  | greeting =>
    simp only [hc] at hok ⊢
    split
    · split
      · trivial
      · exact hok.upOpen
    · split
      · exact hclient
      · exact hok.upOpen
  | request =>
    obtain ⟨c, methods, -, -, hbefore⟩ := hc ▸ hok
    simp only
    split
    · trivial
    · split
      · exact hclient
      · exact hbefore.upOpen
  | httpHead =>
    simp only [hc] at hok ⊢
    split
    · trivial
    · split
      · exact hclient
      · exact hok.1.upOpen
  | dispatch a => trivial
  | await a =>
    obtain ⟨hparsed, hbefore⟩ := hc ▸ hok
    have hgot : s.down.got = [] := hbefore.nothing
    simp only
    split
    · rename_i status q hq
      refine clean_answer hbefore.toAppOpen hbefore.upOpen hbefore.answered hbefore.asked ?_
      simp [Pipe.skip, hq, hgot]
    · rename_i hq
      split
      · rename_i hend
        exact absurd ⟨hend, hq⟩ (not_drained hsok hserver hgot)
      · exact hclient
  | relay a => exact hclient
  | closed a => exact hclient

theorem clean_stepServer (h : s.Ok parseIp net) (hclient : s.ClientClean) (hserver : s.ServerClean net) :
    (s.stepServer net).ServerClean net := by
  obtain ⟨hok, hsok⟩ := h
  unfold stepServer
  simp only [ServerView.Ok, serverView] at hsok
  cases hs : s.server with
  | reading =>
    simp only [hs] at hsok ⊢
    have hqueue : s.up.sent = s.up.queue := congrArg (· ++ s.up.queue) hsok.1
    split
    · trivial
    · rename_i e hread
      rcases up_sent hok with hnil | ⟨a, x, -, hparsed, hsent, -⟩
      · have hopen := up_open hok hclient hnil
        rw [← hqueue, hnil] at hread
        cases hread
        rw [if_pos (by simp [hopen])]
        exact hserver
      · rw [← hqueue, hsent, readTarget_encodeTarget hparsed.1] at hread
        cases hread
  | dial t =>
    obtain ⟨-, hbefore, hopen, hhost⟩ := hs ▸ hsok
    have hnil : s.down.sent = [] := hbefore.answered
    simp only
    split
    · refine ⟨fun hend => ?_, fun hend => ?_⟩
      · exact absurd (hhost.symm.trans hend) (by decide)
      · exact absurd (hopen.symm.trans (Pipe.ended_send.symm.trans hend)) (by decide)
    · rename_i hstatus
      obtain ⟨status, hcode⟩ := dialTarget_status true net t
      refine ⟨hhost, status, ?_, hcode, ?_⟩
      · rintro rfl
        exact hstatus (by rw [hcode]; rfl)
      · rw [Pipe.sent_finish, Pipe.sent_send hopen, hnil, hcode]
        rfl
  | relay t => exact hserver
  | closed t => exact hserver

theorem drained_up_answer (a : Asked) (status : UInt8) (h : s.up.Drained) :
    (s.answer a status).up.Drained := by
  unfold answer
  split
  · exact h
  · exact h.finish

theorem drained_up_stepClient (h : s.up.Drained) : (s.stepClient parseIp).up.Drained := by
  unfold stepClient
  split
  · split
    · exact h
    · split <;> exact h
  · split
    · split <;> exact h
    · split <;> exact h
  · split
    · exact h
    · split <;> exact h
  · split
    · exact h
    · split <;> exact h
  · exact h.send _
  · split
    · exact drained_up_answer _ _ h
    · split
      · exact drained_up_answer _ _ h
      · exact h
  · exact h
  · exact h

theorem drained_down_stepServer (h : s.down.Drained) : (s.stepServer net).down.Drained := by
  unfold stepServer
  split
  · split
    · exact h
    · split
      · exact h
      · exact h.finish
  · simp only
    split
    · exact h.send _
    · exact (h.send _).finish
  · exact h
  · exact h

variable (parseIp net) in
/-- Both sides are in order, and clean up to the first failure. -/
def Sound (s : Exchange) : Prop :=
  s.Ok parseIp net ∧ (s.failed = false → s.ClientClean ∧ s.ServerClean net)

theorem clean_fromApp {fromApp : Pipe UInt8} (hdrained : s.fromApp.Drained → fromApp.Drained)
    (h : s.ClientClean) : ({ s with fromApp } : Exchange).ClientClean := by
  unfold ClientClean at h ⊢
  simp only
  split at h
  · exact ⟨fun hup => hdrained (h.1 hup), h.2⟩
  · exact h
  · exact h
  · trivial

theorem clean_fromHost {fromHost : Pipe UInt8} (hdrained : s.fromHost.Drained → fromHost.Drained)
    (h : s.ServerClean net) : ({ s with fromHost } : Exchange).ServerClean net := by
  unfold ServerClean at h ⊢
  simp only
  split at h
  · exact ⟨h.1, fun hdown => hdrained (h.2 hdown)⟩
  · exact h
  · exact h
  · trivial

theorem clean_copy {leg : Leg} (n : ℕ) (hrun : s.copies leg = true) (hclient : s.ClientClean)
    (hserver : s.ServerClean net) : (s.copy n leg).ClientClean ∧ (s.copy n leg).ServerClean net := by
  simp only [copies] at hrun
  cases leg with
  | toQuic =>
    simp only at hrun
    split at hrun
    · rename_i a hc
      simp only [ClientClean, hc] at hclient
      constructor
      · simp only [ClientClean, copy, hc]
        exact ⟨hclient.1.copy n, hclient.2⟩
      · exact hserver.of_view (by simp [serverView, copy, Pipe.got_copy]) fun h => h.copy_right n _
    · cases hrun
  | fromQuic =>
    simp only at hrun
    split at hrun
    · rename_i a hc
      simp only [ClientClean, hc] at hclient
      constructor
      · simp only [ClientClean, copy, hc]
        exact ⟨hclient.1, hclient.2.copy n⟩
      · exact hserver.of_view (by simp [serverView, copy, Pipe.sent_copy, Pipe.ended_copy]) id
    · cases hrun
  | toHost =>
    simp only at hrun
    split at hrun
    · rename_i t hs
      simp only [ServerClean, hs] at hserver
      constructor
      · exact hclient.of_view (by simp [clientView, copy, Pipe.sent_copy, Pipe.ended_copy]) id
      · simp only [ServerClean, copy, hs]
        exact ⟨hserver.1.copy n, hserver.2⟩
    · cases hrun
  | fromHost =>
    simp only at hrun
    split at hrun
    · rename_i t hs
      simp only [ServerClean, hs] at hserver
      constructor
      · exact hclient.of_view (by simp [clientView, copy, Pipe.got_copy]) fun h => h.copy_right n _
      · simp only [ServerClean, copy, hs]
        exact ⟨hserver.1, hserver.2.copy n⟩
    · cases hrun

theorem failed_answer (a : Asked) (status : UInt8) : (s.answer a status).failed = s.failed := by
  unfold answer
  split <;> rfl

theorem failed_stepClient : (s.stepClient parseIp).failed = s.failed := by
  unfold stepClient
  split
  · split
    · rfl
    · split <;> rfl
  · split
    · split <;> rfl
    · split <;> rfl
  · split
    · rfl
    · split <;> rfl
  · split
    · rfl
    · split <;> rfl
  · rfl
  · split
    · exact failed_answer _ _
    · split
      · exact failed_answer _ _
      · rfl
  · rfl
  · rfl

theorem failed_stepServer : (s.stepServer net).failed = s.failed := by
  unfold stepServer
  split
  · split
    · rfl
    · split <;> rfl
  · simp only
    split <;> rfl
  · rfl
  · rfl

theorem failed_copy (leg : Leg) (n : ℕ) : (s.copy n leg).failed = s.failed := by
  cases leg <;> rfl

theorem failClient_cases : s.failClient = s ∨ s.failClient.failed = true := by
  unfold failClient
  split
  · split
    · exact .inl rfl
    · exact .inr rfl
  · exact .inl rfl
  · exact .inl rfl
  · exact .inr rfl

theorem resetClient_cases : s.resetClient = s ∨ s.resetClient.failed = true := by
  unfold resetClient
  split
  · exact .inr (failed_answer _ _)
  · exact .inl rfl

theorem failServer_cases : s.failServer = s ∨ s.failServer.failed = true := by
  unfold failServer
  split
  · exact .inr rfl
  · exact .inr rfl
  · exact .inl rfl
  · exact .inl rfl

/-- One move from a state in order: the sides stay in order, and clean as long as nothing fails. -/
theorem Sound.step (s : Exchange) (m : Move) (h : s.Sound parseIp net) :
    (s.step parseIp net m).Sound parseIp net := by
  refine ⟨ok_step s m h.1, fun hfailed => ?_⟩
  have hor {s' : Exchange} (hcases : s' = s ∨ s'.failed = true) (hs' : s'.failed = false) :
      s'.ClientClean ∧ s'.ServerClean net := by
    rcases hcases with rfl | htrue
    · exact h.2 hs'
    · exact absurd (hs'.symm.trans htrue) (by decide)
  cases m with
  | appSends bs =>
    obtain ⟨hclient, hserver⟩ := h.2 hfailed
    exact ⟨clean_fromApp (fun hd => hd.send bs) hclient, hserver⟩
  | appCloses =>
    obtain ⟨hclient, hserver⟩ := h.2 hfailed
    exact ⟨clean_fromApp (fun hd => hd.finish) hclient, hserver⟩
  | hostSends bs =>
    simp only [Exchange.step] at hfailed ⊢
    split at hfailed
    · rename_i hrun
      rw [if_pos hrun]
      obtain ⟨hclient, hserver⟩ := h.2 hfailed
      exact ⟨hclient, clean_fromHost (fun hd => hd.send bs) hserver⟩
    · rename_i hrun
      rw [if_neg hrun]
      exact h.2 hfailed
  | hostCloses =>
    simp only [Exchange.step] at hfailed ⊢
    split at hfailed
    · rename_i hrun
      rw [if_pos hrun]
      obtain ⟨hclient, hserver⟩ := h.2 hfailed
      exact ⟨hclient, clean_fromHost (fun hd => hd.finish) hserver⟩
    · rename_i hrun
      rw [if_neg hrun]
      exact h.2 hfailed
  | client =>
    obtain ⟨hclient, hserver⟩ := h.2 (failed_stepClient.symm.trans hfailed)
    refine ⟨clean_stepClient h.1 hclient hserver, ?_⟩
    exact hserver.of_view serverView_stepClient drained_up_stepClient
  | clientFails => exact hor failClient_cases hfailed
  | clientReset => exact hor resetClient_cases hfailed
  | server =>
    obtain ⟨hclient, hserver⟩ := h.2 (failed_stepServer.symm.trans hfailed)
    refine ⟨?_, clean_stepServer h.1 hclient hserver⟩
    exact hclient.of_view clientView_stepServer drained_down_stepServer
  | serverFails => exact hor failServer_cases hfailed
  | copy leg n =>
    simp only [Exchange.step] at hfailed ⊢
    split at hfailed
    · rename_i hrun
      rw [if_pos hrun]
      obtain ⟨hclient, hserver⟩ := h.2 ((failed_copy leg n).symm.trans hfailed)
      exact clean_copy n hrun hclient hserver
    · rename_i hrun
      rw [if_neg hrun]
      exact h.2 hfailed
  | copyFails leg =>
    refine hor ?_ hfailed
    simp only [Exchange.step]
    split
    · right
      cases leg <;> rfl
    · exact .inl rfl

theorem Sound.run (ms : List Move) : (run parseIp net ms).Sound parseIp net :=
  foldl_invariant Sound.step ms ⟨ok_initial, fun _ => ⟨trivial, trivial⟩⟩

/-! ## The connection as a whole -/

/-- What the application sent behind its request. -/
def payload (s : Exchange) : Bytes :=
  match s.client.asked with
  | some a => s.fromApp.sent.drop a.head.length
  | none => []

/-- An address of the target that the policy lets through was connected to. -/
def Connected (net : Dialer) (t : Target) : Prop :=
  ∃ addr ∈ candidates net t, isBlockedDst addr.ip = false ∧ net.connect addr = .ok ()

/-- The application hears one reply, and the host behind a success only. -/
def Heard (net : Dialer) (s : Exchange) (a : Asked) : Prop :=
  ∃ status, s.toApp.sent <+: a.proto.greeting ++ a.proto.reply status ++ s.fromHost.sent ∧
    (status = REP_SUCCEEDED → Connected net a.target) ∧
    (status ≠ REP_SUCCEEDED →
      s.toApp.sent <+: a.proto.greeting ++ a.proto.reply status ∧ s.toHost.sent = [])

variable (parseIp net) in
structure Faithful (s : Exchange) : Prop where
  /-- What a front-end has read is the request that the application's whole stream begins with. -/
  asked : ∀ a, s.client.asked = some a → pumpRequest parseIp s.fromApp.sent =
    .ok ((a.proto, a.target), s.payload)
  /-- The server dials the target that was asked for. -/
  target : ∀ t, s.server.target = some t → ∃ a, s.client.asked = some a ∧ a.target = t
  /-- A host hears and says something only if it is an allowed one of that target. -/
  connected : s.toHost.sent ≠ [] ∨ s.fromHost.sent ≠ [] →
    ∃ a, s.client.asked = some a ∧ Connected net a.target
  forward : s.toHost.sent <+: s.payload
  back : ∀ a, s.client.asked = some a → s.Heard net a
  /-- Up to a failure the host's end closes behind all that the application sent before it closed. -/
  forwardAll : s.failed = false → s.toHost.ended = true →
    s.fromApp.ended = true ∧ s.toHost.sent = s.payload
  backAll : s.failed = false → ∀ a, s.client = .relay a → s.toApp.ended = true →
    s.fromHost.ended = true ∧
      s.toApp.sent = a.proto.greeting ++ a.proto.reply REP_SUCCEEDED ++ s.fromHost.sent
  /-- Up to a failure a refusal is the one of the dial. -/
  refused : s.failed = false → ∀ a, s.client = .closed (some a) → ∃ status,
    status ≠ REP_SUCCEEDED ∧ (dialTarget true net a.target).status = some status ∧
      s.toApp.sent = a.proto.greeting ++ a.proto.reply status

theorem ioErrToSocks5Rep_ne (e : ErrorKind) : ioErrToSocks5Rep e ≠ REP_SUCCEEDED := by
  cases e <;> decide

theorem mem_candidates_of_resolve {t : Target} {addr : SocketAddr} (h : resolve true net t = .ok addr) :
    addr ∈ candidates net t := by
  cases t with
  | ip ip port =>
    cases h
    exact List.mem_singleton_self _
  | domain name port =>
    simp only [resolve, candidates] at h ⊢
    cases haddrs : net.lookupHost name port with
    | error e =>
      simp only [haddrs] at h
      cases h
    | ok addrs =>
      simp only [haddrs] at h ⊢
      split at h
      · rename_i a ha
        cases h
        exact List.mem_of_mem_filter (List.mem_of_mem_head? ha)
      · cases h

theorem connected_of_status {t : Target} (h : (dialTarget true net t).status = some REP_SUCCEEDED) :
    Connected net t := by
  have hfailed {dialed : List SocketAddr} {e : ErrorKind} :
      (Served.failed dialed e).status ≠ some REP_SUCCEEDED :=
    fun heq => ioErrToSocks5Rep_ne e (Option.some.inj heq)
  unfold dialTarget at h
  split at h
  · exact absurd h hfailed
  · rename_i addr haddr
    split at h
    · exact absurd h hfailed
    · rename_i hallowed
      split at h
      · rename_i hconnect
        refine ⟨addr, mem_candidates_of_resolve haddr, ?_, hconnect⟩
        simpa [ssrfBlocked] using hallowed
      · exact absurd h hfailed

theorem asked_parsed (h : s.clientView.Ok parseIp) {a : Asked} (ha : s.client.asked = some a) :
    Parsed parseIp a ∧ a.head <+: s.fromApp.got := by
  unfold ClientView.Ok at h
  unfold clientView at h
  simp only at h
  split at h <;> rename_i hc <;> rw [hc] at ha <;> cases ha
  · exact ⟨h.1, [], (List.append_nil _).trans h.2.taken.symm⟩
  · exact ⟨h.1, [], (List.append_nil _).trans h.2.taken.symm⟩
  · obtain ⟨hparsed, ⟨x, hgot, -⟩, -⟩ := h
    exact ⟨hparsed, x, hgot.symm⟩
  · exact ⟨h.1, [], (List.append_nil _).trans h.2.1.symm⟩

theorem payload_eq {a : Asked} (ha : s.client.asked = some a) {x : Bytes} (hgot : s.fromApp.got = a.head ++ x) :
    s.payload = x ++ s.fromApp.queue := by
  simp only [payload, ha]
  rw [Pipe.sent, hgot, List.append_assoc, List.drop_left]

theorem target_envelope (h : s.serverView.Ok net) {t : Target} (ht : s.server.target = some t) :
    ∃ c, Envelope c t ∧ c <+: s.up.got := by
  unfold ServerView.Ok at h
  unfold serverView at h
  simp only at h
  split at h <;> rename_i hs <;> rw [hs] at ht <;> cases ht
  · exact ⟨_, h.1, List.prefix_refl _⟩
  · obtain ⟨-, ⟨c, henv, hgot⟩, -⟩ := h
    exact ⟨c, henv, hgot ▸ List.prefix_append _ _⟩
  · exact ⟨_, h.1, List.prefix_refl _⟩

theorem host_silent_or (h : s.serverView.Ok net) :
    (s.toHost.sent = [] ∧ s.fromHost.sent = []) ∨ ∃ t, s.server = .relay t ∧
      (dialTarget true net t).status = some REP_SUCCEEDED ∧
      (∃ c, Envelope c t ∧ s.up.got = c ++ s.toHost.sent) ∧
      s.down.sent = REP_SUCCEEDED :: s.fromHost.got := by
  unfold ServerView.Ok at h
  unfold serverView at h
  simp only at h
  split at h
  · exact .inl ⟨h.2.1.toHost, h.2.1.fromHost⟩
  · exact .inl ⟨h.2.1.toHost, h.2.1.fromHost⟩
  · rename_i t hs
    exact .inr ⟨t, hs, h⟩
  · exact .inl ⟨h.toHost, h.fromHost⟩
  · obtain ⟨-, hbefore | ⟨status, -, hbefore⟩⟩ := h
    · exact .inl ⟨hbefore.toHost, hbefore.fromHost⟩
    · exact .inl ⟨hbefore.toHost, hbefore.fromHost⟩

theorem relay_of_success (h : s.serverView.Ok net) {y : Bytes} (hgot : s.down.got = REP_SUCCEEDED :: y) :
    ∃ t, s.server = .relay t ∧ (dialTarget true net t).status = some REP_SUCCEEDED ∧
      s.down.sent = REP_SUCCEEDED :: s.fromHost.got := by
  have hsent : s.down.sent = REP_SUCCEEDED :: (y ++ s.down.queue) := by
    rw [Pipe.sent, hgot, List.cons_append]
  have hne : s.down.sent ≠ [] := hsent ▸ List.cons_ne_nil _ _
  unfold ServerView.Ok at h
  unfold serverView at h
  simp only at h
  split at h
  · exact absurd h.2.1.answered hne
  · exact absurd h.2.1.answered hne
  · rename_i t hs
    exact ⟨t, hs, h.1, h.2.2⟩
  · exact absurd h.answered hne
  · obtain ⟨-, hbefore | ⟨status, hstatus, hbefore⟩⟩ := h
    · exact absurd hbefore.answered hne
    · exact absurd (List.cons.inj (hbefore.answered.symm.trans hsent)).1 hstatus

theorem toHost_part (h : s.serverView.Ok net) {c x : Bytes} {t : Target} (henv : Envelope c t)
    (hsent : s.up.sent = c ++ x) : s.toHost.sent <+: x := by
  rcases host_silent_or h with hnone | ⟨t', -, -, ⟨c', henv', hgot⟩, -⟩
  · rw [hnone.1]
    exact List.nil_prefix
  · have hprefix : c' ++ s.toHost.sent <+: c ++ x := by
      rw [← hgot, ← hsent]
      exact Pipe.got_prefix_sent _
    obtain ⟨rest, hrest⟩ := hprefix
    rw [List.append_assoc] at hrest
    obtain ⟨-, rfl⟩ := Incremental.unique (henv x) hrest.symm henv'
    exact List.prefix_append _ _

theorem silent_of_envelope (h : s.serverView.Ok net) {a : Asked} (hfits : a.target.Fits)
    (hsent : s.up.sent = [] ∨ s.up.sent = encodeTarget a.target) : s.toHost.sent = [] := by
  have henv : Envelope (encodeTarget a.target) a.target := readTarget_encodeTarget hfits
  rcases hsent with hnil | hsent
  · rcases host_silent_or h with hnone | ⟨t, -, -, ⟨c, henv', hgot⟩, -⟩
    · exact hnone.1
    · have hboth := (List.append_eq_nil_iff.mp hnil).1
      exact (List.append_eq_nil_iff.mp (hgot.symm.trans hboth)).2
  · exact List.prefix_nil.mp (toHost_part h henv (hsent.trans (List.append_nil _).symm))

theorem connected_of_relay (h : s.Ok parseIp net) {t : Target} (hs : s.server = .relay t)
    (hstatus : (dialTarget true net t).status = some REP_SUCCEEDED) :
    ∃ a, s.client.asked = some a ∧ a.target = t ∧ Connected net a.target := by
  obtain ⟨c, henv, hc⟩ := target_envelope h.2 (by rw [hs]; rfl : s.server.target = some t)
  obtain ⟨a, x, ha, rfl, -⟩ := envelope_sent h.1 henv (hc.trans (Pipe.got_prefix_sent _))
  exact ⟨a, ha, rfl, connected_of_status hstatus⟩

theorem Sound.back (h : s.Sound parseIp net) {a : Asked} (ha : s.client.asked = some a) :
    s.Heard net a := by
  obtain ⟨⟨hclient, hserver⟩, -⟩ := h
  have hok := hclient
  -- an application that has heard no success
  have hrefused (status : UInt8) (hstatus : status ≠ REP_SUCCEEDED) (hfits : a.target.Fits)
      (hsent : s.up.sent = [] ∨ s.up.sent = encodeTarget a.target)
      (hto : s.toApp.sent <+: a.proto.greeting ++ a.proto.reply status) : s.Heard net a := by
    have hsilent := silent_of_envelope hserver hfits hsent
    exact ⟨status, hto.trans (List.prefix_append _ s.fromHost.sent), fun heq => absurd heq hstatus,
      fun _ => ⟨hto, hsilent⟩⟩
  unfold ClientView.Ok at hclient
  unfold clientView at hclient
  simp only at hclient
  split at hclient <;> rename_i hc <;> rw [hc] at ha <;> cases ha
  · obtain ⟨hparsed, hbefore⟩ := hclient
    refine hrefused REP_GENERAL_FAILURE (by decide) hparsed.1 (.inl hbefore.asked) ?_
    exact hbefore.answered ▸ List.prefix_append _ _
  · obtain ⟨hparsed, hbefore⟩ := hclient
    refine hrefused REP_GENERAL_FAILURE (by decide) hparsed.1 (.inr hbefore.asked) ?_
    exact hbefore.answered ▸ List.prefix_append _ _
  · obtain ⟨-, -, y, hgot, hto⟩ := hclient
    obtain ⟨t, hs, hstatus, hsent⟩ := relay_of_success hserver hgot
    obtain ⟨a', ha', -, hconnected⟩ := connected_of_relay ⟨hok, hserver⟩ hs hstatus
    rw [hc] at ha'
    cases ha'
    refine ⟨REP_SUCCEEDED, ?_, fun _ => hconnected, fun hne => absurd rfl hne⟩
    have hy : REP_SUCCEEDED :: y <+: REP_SUCCEEDED :: s.fromHost.got := by
      rw [← hgot, ← hsent]
      exact Pipe.got_prefix_sent _
    rw [hto]
    exact (List.prefix_append_right_inj _).mpr
      ((List.prefix_cons_inj _).mp hy |>.trans (Pipe.got_prefix_sent _))
  · obtain ⟨hparsed, -, hsent, status, hstatus, hto⟩ := hclient
    exact hrefused status hstatus hparsed.1 hsent hto

theorem Sound.forwardAll (h : s.Sound parseIp net) (hfailed : s.failed = false)
    (hend : s.toHost.ended = true) : s.fromApp.ended = true ∧ s.toHost.sent = s.payload := by
  obtain ⟨⟨hclient, hserver⟩, hclean⟩ := h
  obtain ⟨hcclean, hsclean⟩ := hclean hfailed
  unfold ServerView.Ok at hserver
  unfold serverView at hserver
  simp only at hserver
  unfold ServerClean at hsclean
  split at hserver <;> rename_i hs <;> simp only [hs] at hsclean
  · exact absurd (hserver.2.2.2.symm.trans hend) (by decide)
  · exact absurd (hserver.2.2.2.symm.trans hend) (by decide)
  · -- the stream is at its end, so the client's copy has ended it
    rename_i t
    obtain ⟨-, ⟨c, henv, hgot⟩, hdown⟩ := hserver
    have hup : s.up.Drained := hsclean.1 hend
    have hc : c <+: s.up.got := ⟨s.toHost.sent, hgot.symm⟩
    obtain ⟨a, x, ha, rfl, -, -, hsent, hfrom⟩ :=
      envelope_sent hclient henv (hc.trans (Pipe.got_prefix_sent _))
    have hx : s.toHost.sent = x := List.append_cancel_left (hgot.symm.trans (hup.sent.symm.trans hsent))
    have happ : s.fromApp.Drained := by
      unfold ClientView.Ok at hclient
      unfold clientView at hclient
      simp only at hclient
      split at hclient <;> rename_i hc <;> rw [hc] at ha <;> cases ha
      · exact absurd (hclient.2.upOpen.symm.trans hup.1) (by decide)
      · exact absurd (hclient.2.upOpen.symm.trans hup.1) (by decide)
      · simp only [ClientClean, hc] at hcclean
        exact hcclean.1 hup.1
      · simp only [ClientClean, hc] at hcclean
        obtain ⟨-, status, hstatus, hstatusGot, -⟩ := hcclean
        have hprefix := Pipe.got_prefix_sent s.down
        rw [hstatusGot, hdown] at hprefix
        exact absurd (List.cons_prefix_cons.mp hprefix).1 hstatus
    refine ⟨happ.1, ?_⟩
    rw [payload_eq ha hfrom, happ.2, List.append_nil, hx]
  · exact absurd (hsclean.1.symm.trans hend) (by decide)

theorem Sound.backAll (h : s.Sound parseIp net) (hfailed : s.failed = false) {a : Asked}
    (ha : s.client = .relay a) (hend : s.toApp.ended = true) : s.fromHost.ended = true ∧
      s.toApp.sent = a.proto.greeting ++ a.proto.reply REP_SUCCEEDED ++ s.fromHost.sent := by
  obtain ⟨⟨hclient, hserver⟩, hclean⟩ := h
  obtain ⟨hcclean, hsclean⟩ := hclean hfailed
  simp only [ClientView.Ok, clientView, ha] at hclient
  simp only [ClientClean, ha] at hcclean
  obtain ⟨-, -, y, hgot, hto⟩ := hclient
  obtain ⟨t, hs, -, hsent⟩ := relay_of_success hserver hgot
  simp only [ServerClean, hs] at hsclean
  have hdown : s.down.Drained := hcclean.2 hend
  have hhost : s.fromHost.Drained := hsclean.2 hdown.1
  have hy : REP_SUCCEEDED :: y = REP_SUCCEEDED :: s.fromHost.got :=
    hgot.symm.trans (hdown.sent.symm.trans hsent)
  refine ⟨hhost.1, ?_⟩
  rw [hto, (List.cons.inj hy).2, hhost.sent]

theorem Sound.refused (h : s.Sound parseIp net) (hfailed : s.failed = false) {a : Asked}
    (ha : s.client = .closed (some a)) : ∃ status, status ≠ REP_SUCCEEDED ∧
      (dialTarget true net a.target).status = some status ∧
      s.toApp.sent = a.proto.greeting ++ a.proto.reply status := by
  obtain ⟨⟨hclient, hserver⟩, hclean⟩ := h
  obtain ⟨hcclean, hsclean⟩ := hclean hfailed
  simp only [ClientClean, ha] at hcclean
  obtain ⟨-, status, hstatus, hgot, hto⟩ := hcclean
  have hprefix := Pipe.got_prefix_sent s.down
  rw [hgot] at hprefix
  have hne : s.down.sent ≠ [] := by
    intro hnil
    rw [hnil] at hprefix
    exact absurd (List.prefix_nil.mp hprefix) (List.cons_ne_nil _ _)
  unfold ServerView.Ok at hserver
  unfold serverView at hserver
  simp only at hserver
  unfold ServerClean at hsclean
  split at hserver <;> rename_i hs <;> simp only [hs] at hsclean
  · exact absurd hserver.2.1.answered hne
  · exact absurd hserver.2.1.answered hne
  · rw [hserver.2.2] at hprefix
    exact absurd (List.cons_prefix_cons.mp hprefix).1 hstatus
  · rename_i t
    obtain ⟨-, status', -, hdial, hsent⟩ := hsclean
    rw [hsent] at hprefix
    obtain ⟨rfl, -⟩ := List.cons_prefix_cons.mp hprefix
    obtain ⟨a', x, ha', rfl, -⟩ := envelope_sent hclient hserver.1 (Pipe.got_prefix_sent _)
    rw [ha] at ha'
    cases ha'
    exact ⟨status, hstatus, hdial, hto⟩

theorem Sound.faithful (h : s.Sound parseIp net) : s.Faithful parseIp net where
  asked a ha := by
    obtain ⟨hparsed, x, hgot⟩ := asked_parsed h.1.1 ha
    rw [payload_eq ha hgot.symm, Pipe.sent, ← hgot, List.append_assoc]
    exact hparsed.2 _
  target t ht := by
    obtain ⟨c, henv, hc⟩ := target_envelope h.1.2 ht
    obtain ⟨a, x, ha, rfl, -⟩ := envelope_sent h.1.1 henv (hc.trans (Pipe.got_prefix_sent _))
    exact ⟨a, ha, rfl⟩
  connected hsaid := by
    rcases host_silent_or h.1.2 with ⟨hto, hfrom⟩ | ⟨t, hs, hstatus, -⟩
    · rcases hsaid with hsaid | hsaid
      · exact absurd hto hsaid
      · exact absurd hfrom hsaid
    · obtain ⟨a, ha, -, hconnected⟩ := connected_of_relay h.1 hs hstatus
      exact ⟨a, ha, hconnected⟩
  forward := by
    rcases host_silent_or h.1.2 with ⟨hto, -⟩ | ⟨t, hs, -, ⟨c, henv, hgot⟩, -⟩
    · rw [hto]
      exact List.nil_prefix
    · have hc : c <+: s.up.got := ⟨s.toHost.sent, hgot.symm⟩
      obtain ⟨a, x, ha, rfl, -, -, hsent, hfrom⟩ :=
        envelope_sent h.1.1 henv (hc.trans (Pipe.got_prefix_sent _))
      rw [payload_eq ha hfrom]
      exact (toHost_part h.1.2 henv hsent).trans (List.prefix_append _ _)
  back _ ha := h.back ha
  forwardAll := h.forwardAll
  backAll hfailed _ ha := h.backAll hfailed ha
  refused hfailed _ ha := h.refused hfailed ha

/-- In whatever order and chunks the application, the two tasks, the four copies and the host go on, and
whatever fails, the connection carries what its two ends send. -/
theorem exchange_faithful (parseIp : String → Option StdIpAddr) (net : Dialer) (ms : List Move) :
    (run parseIp net ms).Faithful parseIp net :=
  (Sound.run ms).faithful

end Exchange

end BaleVpn.Socks
