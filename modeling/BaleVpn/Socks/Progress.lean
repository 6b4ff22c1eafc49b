import BaleVpn.Socks.Delivery

/-!
# A proxied connection does not stall (`socks5_quic.rs`)

The client waits for a status that the server writes once it has the envelope, and each copy waits for
the one before it. Once the application and the host have closed, a connection in which neither task and
no copy has anything left to do is over at both ends.
-/

namespace BaleVpn.Socks

open Lib Net

namespace Exchange

variable {parseIp : String → Option StdIpAddr} {net : Dialer} {s : Exchange}

/-- A client that has returned has dropped the application's socket, and the stream if it had one. -/
def ClientReleased (s : Exchange) : Prop :=
  ∀ a, s.client = .closed a → s.toApp.ended = true ∧ (a = none ∨ s.up.sent = [] ∨ s.up.ended = true)

/-- A server that has returned has let its side of the stream go. -/
def ServerReleased (s : Exchange) : Prop := ∀ t, s.server = .closed t → s.down.ended = true

theorem clientReleased_of (h : ∀ a, s.client ≠ .closed a) : s.ClientReleased :=
  fun a ha => absurd ha (h a)

theorem serverReleased_of (h : ∀ t, s.server ≠ .closed t) : s.ServerReleased :=
  fun t ht => absurd ht (h t)

theorem released_answer (a : Asked) (status : UInt8) : (s.answer a status).ClientReleased := by
  unfold answer
  split
  · exact clientReleased_of fun _ => Client.noConfusion
  · exact fun _ _ => ⟨rfl, .inr (.inr rfl)⟩

theorem released_none (h : s.client = .closed none) (happ : s.toApp.ended = true) : s.ClientReleased := by
  intro a ha
  rw [h] at ha
  cases ha
  exact ⟨happ, .inl rfl⟩

theorem released_stepClient (h : s.ClientReleased) : (s.stepClient parseIp).ClientReleased := by
  unfold stepClient
  split
  · split
    · split
      · exact clientReleased_of fun _ => Client.noConfusion
      · exact clientReleased_of fun _ => Client.noConfusion
    · split
      · exact released_none rfl rfl
      · exact h
  · split
    · split
      · exact clientReleased_of fun _ => Client.noConfusion
      · exact released_none rfl rfl
    · split
      · exact h
      · exact released_none rfl rfl
  · split
    · exact clientReleased_of fun _ => Client.noConfusion
    · split
      · exact h
      · exact released_none rfl rfl
  · split
    · exact clientReleased_of fun _ => Client.noConfusion
    · split
      · exact h
      · exact released_none rfl rfl
  · exact clientReleased_of fun _ => Client.noConfusion
  · split
    · exact released_answer _ _
    · split
      · exact released_answer _ _
      · exact h
  · exact h
  · exact h

theorem released_failClient (hok : s.clientView.Ok parseIp) (h : s.ClientReleased) :
    s.failClient.ClientReleased := by
  unfold failClient
  cases hc : s.client with
  | peek => exact released_none rfl rfl
  | greeting => exact released_none rfl rfl
  | request => exact released_none rfl rfl
  | httpHead => exact released_none rfl rfl
  | dispatch a =>
    simp only [ClientView.Ok, clientView, hc] at hok
    exact fun _ _ => ⟨rfl, .inr (.inl hok.2.asked)⟩
  | await a =>
    simp only
    split
    · exact h
    · exact fun _ _ => ⟨rfl, .inr (.inr rfl)⟩
  | relay a => exact h
  | closed a => exact h

theorem released_resetClient (h : s.ClientReleased) : s.resetClient.ClientReleased := by
  unfold resetClient
  split
  · exact released_answer _ _
  · exact h

theorem released_stepServer (h : s.ServerReleased) : (s.stepServer net).ServerReleased := by
  unfold stepServer
  split
  · split
    · exact serverReleased_of fun _ => Server.noConfusion
    · split
      · exact h
      · exact fun _ _ => rfl
  · simp only
    split
    · exact serverReleased_of fun _ => Server.noConfusion
    · exact fun _ _ => rfl
  · exact h
  · exact h

theorem released_failServer (h : s.ServerReleased) : s.failServer.ServerReleased := by
  unfold failServer
  split
  · exact fun _ _ => rfl
  · exact fun _ _ => rfl
  · exact h
  · exact h

theorem ClientReleased.of_view {s' : Exchange} (h : s.ClientReleased) (hview : s'.clientView = s.clientView) :
    s'.ClientReleased := by
  simp only [clientView, ClientView.mk.injEq] at hview
  obtain ⟨hclient, -, happ, hsent, hend, -⟩ := hview
  intro a ha
  rw [happ, hsent, hend]
  exact h a (hclient.symm.trans ha)

theorem ServerReleased.of_view {s' : Exchange} (h : s.ServerReleased) (hview : s'.serverView = s.serverView) :
    s'.ServerReleased := by
  simp only [serverView, ServerView.mk.injEq] at hview
  obtain ⟨hserver, -, -, hend, -⟩ := hview
  intro t ht
  rw [hend]
  exact h t (hserver.symm.trans ht)

theorem released_copy {leg : Leg} (n : ℕ) (hrun : s.copies leg = true) (hclient : s.ClientReleased)
    (hserver : s.ServerReleased) : (s.copy n leg).ClientReleased ∧ (s.copy n leg).ServerReleased := by
  cases leg with
  | toQuic =>
    refine ⟨clientReleased_of fun a ha => ?_, hserver⟩
    have ha' : s.client = .closed a := ha
    simp [copies, ha'] at hrun
  | fromQuic =>
    refine ⟨clientReleased_of fun a ha => ?_, fun t ht => ?_⟩
    · have ha' : s.client = .closed a := ha
      simp [copies, ha'] at hrun
    · exact (Pipe.ended_copy n s.down s.toApp).trans (hserver t ht)
  | toHost =>
    refine ⟨hclient.of_view ?_, serverReleased_of fun t ht => ?_⟩
    · simp [clientView, copy, Pipe.sent_copy, Pipe.ended_copy]
    · have ht' : s.server = .closed t := ht
      simp [copies, ht'] at hrun
  | fromHost =>
    refine ⟨hclient.of_view ?_, serverReleased_of fun t ht => ?_⟩
    · simp [clientView, copy, Pipe.got_copy]
    · have ht' : s.server = .closed t := ht
      simp [copies, ht'] at hrun

theorem released_failCopy {leg : Leg} (hclient : s.ClientReleased) (hserver : s.ServerReleased) :
    (s.failCopy leg).ClientReleased ∧ (s.failCopy leg).ServerReleased := by
  cases leg with
  | toQuic =>
    refine ⟨fun a ha => ?_, hserver⟩
    obtain ⟨happ, -⟩ := hclient a ha
    exact ⟨happ, .inr (.inr rfl)⟩
  | fromQuic =>
    refine ⟨fun a ha => ?_, hserver⟩
    obtain ⟨-, hup⟩ := hclient a ha
    exact ⟨rfl, hup⟩
  | toHost => exact ⟨hclient, hserver⟩
  | fromHost => exact ⟨hclient, fun _ _ => rfl⟩

theorem released_step (m : Move) (hok : s.Ok parseIp net) (hclient : s.ClientReleased)
    (hserver : s.ServerReleased) :
    (s.step parseIp net m).ClientReleased ∧ (s.step parseIp net m).ServerReleased := by
  cases m with
  | appSends bs => exact ⟨hclient, hserver⟩
  | appCloses => exact ⟨hclient, hserver⟩
  | hostSends bs =>
    simp only [step]
    split
    · exact ⟨hclient, hserver⟩
    · exact ⟨hclient, hserver⟩
  | hostCloses =>
    simp only [step]
    split
    · exact ⟨hclient, hserver⟩
    · exact ⟨hclient, hserver⟩
  | client => exact ⟨released_stepClient hclient, hserver.of_view serverView_stepClient⟩
  | clientFails => exact ⟨released_failClient hok.1 hclient, hserver.of_view serverView_failClient⟩
  | clientReset => exact ⟨released_resetClient hclient, hserver.of_view serverView_resetClient⟩
  | server => exact ⟨hclient.of_view clientView_stepServer, released_stepServer hserver⟩
  | serverFails => exact ⟨hclient.of_view clientView_failServer, released_failServer hserver⟩
  | copy leg n =>
    simp only [step]
    split
    · rename_i hrun
      exact released_copy n hrun hclient hserver
    · exact ⟨hclient, hserver⟩
  | copyFails leg =>
    simp only [step]
    split
    · exact released_failCopy hclient hserver
    · exact ⟨hclient, hserver⟩

theorem released_run (ms : List Move) :
    (run parseIp net ms).ClientReleased ∧ (run parseIp net ms).ServerReleased := by
  let I (s : Exchange) : Prop := s.Ok parseIp net ∧ s.ClientReleased ∧ s.ServerReleased
  have hstep : ∀ s m, I s → I (s.step parseIp net m) :=
    fun s m h => ⟨ok_step s m h.1, released_step m h.1 h.2.1 h.2.2⟩
  have hstart : I {} :=
    ⟨ok_initial, clientReleased_of fun _ => Client.noConfusion, serverReleased_of fun _ => Server.noConfusion⟩
  exact (foldl_invariant hstep ms hstart).2

/-! ## Nothing left to do -/

variable (parseIp net) in
/-- Both ends have closed, and no task and no copy has anything to do. -/
structure Idle (s : Exchange) : Prop where
  app : s.fromApp.ended = true
  host : ∀ t, s.server = .relay t → s.fromHost.ended = true
  client : s.stepClient parseIp = s
  server : s.stepServer net = s
  copies : ∀ leg, s.copies leg = true → s.copy 1 leg = s

theorem waits_of_ended {e : RequestError} {p : Pipe UInt8} (h : p.ended = true) : waits e p = false := by
  rw [waits, h]
  exact Bool.and_false _

/-- A client with nothing to do waits for a status, or is in its copies or done. -/
theorem client_of_idle (hidle : s.Idle parseIp net) :
    (∃ a, s.client = .await a ∧ s.down.queue = [] ∧ s.down.ended = false) ∨
      (∃ a, s.client = .relay a) ∨ ∃ a, s.client = .closed a := by
  have hstep := congrArg Exchange.client hidle.client
  unfold stepClient at hstep
  cases hc : s.client with
  | peek =>
    simp only [hc, hidle.app, if_true] at hstep
    split at hstep
    · split at hstep <;> cases hstep
    · cases hstep
  | greeting =>
    simp only [hc, waits_of_ended hidle.app] at hstep
    split at hstep
    · split at hstep <;> cases hstep
    · cases hstep
  | request =>
    simp only [hc, waits_of_ended hidle.app] at hstep
    split at hstep <;> cases hstep
  | httpHead =>
    simp only [hc, waits_of_ended hidle.app] at hstep
    split at hstep <;> cases hstep
  | dispatch a =>
    simp only [hc] at hstep
    cases hstep
  | await a =>
    have hanswer (status : UInt8) (s' : Exchange) : (s'.answer a status).client ≠ .await a := by
      unfold answer
      split <;> exact Client.noConfusion
    simp only [hc] at hstep
    split at hstep
    · exact absurd hstep (hanswer _ _)
    · rename_i hq
      split at hstep
      · exact absurd hstep (hanswer _ _)
      · rename_i hend
        exact .inl ⟨a, rfl, hq, Bool.eq_false_iff.mpr hend⟩
  | relay a => exact .inr (.inl ⟨a, rfl⟩)
  | closed a => exact .inr (.inr ⟨a, rfl⟩)

/-- A server with nothing to do waits for the rest of an envelope, or is in its copies or done. -/
theorem server_of_idle (hidle : s.Idle parseIp net) :
    (s.server = .reading ∧ (∃ e, readTarget s.up.queue = .error e) ∧ s.up.ended = false) ∨
      (∃ t, s.server = .relay t) ∨ ∃ t, s.server = .closed t := by
  have hstep := congrArg Exchange.server hidle.server
  unfold stepServer at hstep
  cases hs : s.server with
  | reading =>
    simp only [hs] at hstep
    split at hstep
    · cases hstep
    · rename_i e he
      split at hstep
      · rename_i hwait
        refine .inl ⟨rfl, ⟨e, he⟩, ?_⟩
        rw [Bool.and_eq_true, Bool.not_eq_true'] at hwait
        exact hwait.2
      · cases hstep
  | dial t =>
    simp only [hs] at hstep
    split at hstep <;> cases hstep
  | relay t => exact .inr (.inl ⟨t, rfl⟩)
  | closed t => exact .inr (.inr ⟨t, rfl⟩)

theorem down_of_idle (hidle : s.Idle parseIp net) (hreleased : s.ServerReleased)
    (hreading : s.server ≠ .reading) : s.down.ended = true := by
  rcases server_of_idle hidle with ⟨hs, -⟩ | ⟨t, hs⟩ | ⟨t, hs⟩
  · exact absurd hs hreading
  · have hcopy : Pipe.copy 1 s.fromHost s.down = (s.fromHost, s.down) := by
      have hself := hidle.copies .fromHost (by simp [copies, hs])
      exact Prod.ext (congrArg Exchange.fromHost hself) (congrArg Exchange.down hself)
    rcases Pipe.ended_or_waits_of_copy hcopy with hend | ⟨-, hopen⟩
    · exact hend
    · exact absurd ((hidle.host t hs).symm.trans hopen) (by decide)
  · exact hreleased t hs

theorem not_await_of_idle (h : s.Ok parseIp net) (hreleased : s.ServerReleased) (hidle : s.Idle parseIp net)
    {a : Asked} (ha : s.client = .await a) (hopen : s.down.ended = false) : False := by
  have hreading : s.server ≠ .reading := by
    intro hs
    obtain ⟨hclient, hserver⟩ := h
    simp only [ClientView.Ok, clientView, ha] at hclient
    simp only [ServerView.Ok, serverView, hs] at hserver
    obtain ⟨hparsed, hbefore⟩ := hclient
    have hread : readTarget s.up.queue = .ok (a.target, []) := by
      have hsent : s.up.sent = s.up.queue := congrArg (· ++ s.up.queue) hserver.1
      rw [← hsent, show s.up.sent = _ from hbefore.asked, ← List.append_nil (encodeTarget a.target)]
      exact readTarget_encodeTarget hparsed.1 []
    rcases server_of_idle hidle with ⟨-, ⟨e, he⟩, -⟩ | ⟨t, ht⟩ | ⟨t, ht⟩
    · rw [hread] at he
      cases he
    · exact Server.noConfusion (hs.symm.trans ht)
    · exact Server.noConfusion (hs.symm.trans ht)
  exact absurd ((down_of_idle hidle hreleased hreading).symm.trans hopen) (by decide)

theorem app_over_of_idle (h : s.Ok parseIp net) (hclient : s.ClientReleased) (hserver : s.ServerReleased)
    (hidle : s.Idle parseIp net) : s.toApp.ended = true := by
  rcases client_of_idle hidle with ⟨a, ha, -, hopen⟩ | ⟨a, ha⟩ | ⟨a, ha⟩
  · exact (not_await_of_idle h hserver hidle ha hopen).elim
  · have hcopy : Pipe.copy 1 s.down s.toApp = (s.down, s.toApp) := by
      have hself := hidle.copies .fromQuic (by simp [copies, ha])
      exact Prod.ext (congrArg Exchange.down hself) (congrArg Exchange.toApp hself)
    rcases Pipe.ended_or_waits_of_copy hcopy with hend | ⟨-, hopen⟩
    · exact hend
    · have hok := h.1
      simp only [ClientView.Ok, clientView, ha] at hok
      obtain ⟨-, -, y, hgot, -⟩ := hok
      obtain ⟨t, hs, -⟩ := relay_of_success h.2 hgot
      have hreading : s.server ≠ .reading := by
        rw [hs]
        exact Server.noConfusion
      exact absurd ((down_of_idle hidle hserver hreading).symm.trans hopen) (by decide)
  · exact (hclient a ha).1

theorem up_over_of_idle (h : s.Ok parseIp net) (hclient : s.ClientReleased) (hserver : s.ServerReleased)
    (hidle : s.Idle parseIp net) {t : Target} (hs : s.server = .relay t) : s.up.ended = true := by
  have htarget : s.server.target = some t := by rw [hs]; rfl
  obtain ⟨c, henv, hc⟩ := target_envelope h.2 htarget
  obtain ⟨a, x, hasked, -, -, hcenv, hsent, -⟩ := envelope_sent h.1 henv (hc.trans (Pipe.got_prefix_sent _))
  rcases client_of_idle hidle with ⟨a', ha', -, hopen⟩ | ⟨a', ha'⟩ | ⟨a', ha'⟩
  · exact (not_await_of_idle h hserver hidle ha' hopen).elim
  · have hcopy : Pipe.copy 1 s.fromApp s.up = (s.fromApp, s.up) := by
      have hself := hidle.copies .toQuic (by simp [copies, ha'])
      exact Prod.ext (congrArg Exchange.fromApp hself) (congrArg Exchange.up hself)
    rcases Pipe.ended_or_waits_of_copy hcopy with hend | ⟨-, hopen⟩
    · exact hend
    · exact absurd (hidle.app.symm.trans hopen) (by decide)
  · obtain ⟨-, hnone | hnil | hend⟩ := hclient a' ha'
    · rw [ha', hnone] at hasked
      cases hasked
    · rw [hnil] at hsent
      have hcnil := (List.append_eq_nil_iff.mp hsent.symm).1
      rw [hcnil] at henv
      exact absurd (henv []) (by simp [readTarget, readExact, bind, Except.bind])
    · exact hend

theorem host_over_of_idle (h : s.Ok parseIp net) (hclient : s.ClientReleased) (hserver : s.ServerReleased)
    (hidle : s.Idle parseIp net) {t : Target} (hs : s.server = .relay t) : s.toHost.ended = true := by
  have hcopy : Pipe.copy 1 s.up s.toHost = (s.up, s.toHost) := by
    have hself := hidle.copies .toHost (by simp [copies, hs])
    exact Prod.ext (congrArg Exchange.up hself) (congrArg Exchange.toHost hself)
  rcases Pipe.ended_or_waits_of_copy hcopy with hend | ⟨-, hopen⟩
  · exact hend
  · exact absurd ((up_over_of_idle h hclient hserver hidle hs).symm.trans hopen) (by decide)

theorem relay_of_relay (h : s.Sound parseIp net) (hfailed : s.failed = false) (hserver : s.ServerReleased)
    (hidle : s.Idle parseIp net) {t : Target} (hs : s.server = .relay t)
    (hstatus : (dialTarget true net t).status = some REP_SUCCEEDED) : ∃ a, s.client = .relay a := by
  obtain ⟨a, hasked, rfl, -⟩ := connected_of_relay h.1 hs hstatus
  rcases client_of_idle hidle with ⟨a', ha', -, hopen⟩ | hrelay | ⟨a', ha'⟩
  · exact (not_await_of_idle h.1 hserver hidle ha' hopen).elim
  · exact hrelay
  · rw [ha'] at hasked
    obtain rfl : a' = some a := hasked
    obtain ⟨status, hne, hdial, -⟩ := h.refused hfailed ha'
    exact absurd (Option.some.inj (hdial.symm.trans hstatus)) hne

/-- A connection that has come to rest, whatever failed on the way, is closed at both ends; if nothing
failed and a host was connected to, all of both streams has arrived. -/
theorem exchange_over_of_idle (parseIp : String → Option StdIpAddr) (net : Dialer) (ms : List Move) :
    let s := run parseIp net ms
    s.Idle parseIp net → s.toApp.ended = true ∧ ∀ t, s.server = .relay t → s.toHost.ended = true ∧
      (s.failed = false → ∃ a, s.client = .relay a ∧ s.toHost.sent = s.payload ∧
        s.toApp.sent = a.proto.greeting ++ a.proto.reply REP_SUCCEEDED ++ s.fromHost.sent) := by
  intro s hidle
  have h : s.Sound parseIp net := Sound.run ms
  obtain ⟨hclient, hserver⟩ : s.ClientReleased ∧ s.ServerReleased := released_run ms
  have happ := app_over_of_idle h.1 hclient hserver hidle
  refine ⟨happ, fun t hs => ?_⟩
  have hhost := host_over_of_idle h.1 hclient hserver hidle hs
  refine ⟨hhost, fun hfailed => ?_⟩
  have hok := h.1.2
  simp only [ServerView.Ok, serverView, hs] at hok
  obtain ⟨a, ha⟩ := relay_of_relay h hfailed hserver hidle hs hok.1
  exact ⟨a, ha, (h.forwardAll hfailed hhost).2, (h.backAll hfailed ha happ).2⟩

/-- A SOCKS5 client asks for 8.8.8.8:80, one byte goes each way, and both close. -/
def shortTalk : List Move :=
  [.appSends [5, 1, 0], .client, .client, .appSends [5, 1, 0, 1, 8, 8, 8, 8, 0, 80, 7], .appCloses,
    .client, .client, .server, .server, .client, .hostSends [9], .hostCloses, .copy .toQuic 1, .copy .toQuic 1,
    .copy .toHost 1, .copy .toHost 1, .copy .fromHost 1, .copy .fromHost 1, .copy .fromQuic 1,
    .copy .fromQuic 1]

theorem exchange_over_shortTalk : (run (fun _ => none) plainDialer shortTalk).toApp.ended = true :=
  (exchange_over_of_idle (fun _ => none) plainDialer shortTalk
    { app := rfl
      host := fun _ _ => rfl
      client := rfl
      server := rfl
      copies := fun leg _ => by cases leg <;> rfl }).1

end Exchange

end BaleVpn.Socks
