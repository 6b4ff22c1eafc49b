import BaleVpn.Socks.Exchange

/-!
# The two sides of a proxied connection (`socks5_quic.rs`)

The client's side and the server's share only the stream between them. Each has its own invariant, over
what it sees of the pipes, and neither sees the other's steps: of the stream, the client sees what it has
written and what it has read, and so does the server.
-/

namespace BaleVpn.Socks

open Lib Net

namespace Exchange

variable (parseIp : String → Option StdIpAddr) (net : Dialer)

/-! ## What each side has done -/

/-- `pump_conn` on a whole stream. -/
def pumpRequest (s : Bytes) : Except RequestError ((FrontProto × Target) × Bytes) :=
  if s.head? = some SOCKS_VER then (readSocks5Request true s).1.map fun r => ((.socks5, r.1), r.2)
  else (readHttpConnectRequest parseIp s).map fun r => ((.httpConnect, r.1), r.2)

/-- The head is a request, whatever follows it. -/
def Parsed (a : Asked) : Prop :=
  a.target.Fits ∧ ∀ x, pumpRequest parseIp (a.head ++ x) = .ok ((a.proto, a.target), x)

/-- What the client's side sees. -/
structure ClientView where
  client : Client
  fromApp : Pipe UInt8
  toApp : Pipe UInt8
  upSent : Bytes
  upEnded : Bool
  downGot : Bytes

def clientView (s : Exchange) : ClientView :=
  ⟨s.client, s.fromApp, s.toApp, s.up.sent, s.up.ended, s.down.got⟩

structure ServerView where
  server : Server
  upGot : Bytes
  downSent : Bytes
  downEnded : Bool
  toHost : Pipe UInt8
  fromHost : Pipe UInt8

def serverView (s : Exchange) : ServerView :=
  ⟨s.server, s.up.got, s.down.sent, s.down.ended, s.toHost, s.fromHost⟩

/-- Before the copies: what was taken from the application, what it was answered and what went up. -/
structure ClientView.Before (v : ClientView) (taken answered asked : Bytes) : Prop where
  taken : v.fromApp.got = taken
  answered : v.toApp.sent = answered
  toAppOpen : v.toApp.ended = false
  asked : v.upSent = asked
  upOpen : v.upEnded = false
  nothing : v.downGot = []

theorem ClientView.Before.goto {v : ClientView} {taken answered asked : Bytes}
    (h : v.Before taken answered asked) (c : Client) :
    ({ v with client := c } : ClientView).Before taken answered asked :=
  ⟨h.taken, h.answered, h.toAppOpen, h.asked, h.upOpen, h.nothing⟩

def ClientView.Ok (v : ClientView) : Prop :=
  match v.client with
  | .peek => v.Before [] [] []
  | .greeting => v.Before [] [] []
  | .httpHead => v.Before [] [] [] ∧ ∃ b bs, v.fromApp.queue = b :: bs ∧ b ≠ SOCKS_VER
  | .request => ∃ c methods, (∀ x, readGreeting (c ++ x) = .ok (methods, x)) ∧
      methods.contains METHOD_NO_AUTH = true ∧ v.Before c FrontProto.socks5.greeting []
  | .dispatch a => Parsed parseIp a ∧ v.Before a.head a.proto.greeting []
  | .await a => Parsed parseIp a ∧ v.Before a.head a.proto.greeting (encodeTarget a.target)
  | .relay a => Parsed parseIp a ∧
      (∃ x, v.fromApp.got = a.head ++ x ∧ v.upSent = encodeTarget a.target ++ x) ∧
      ∃ y, v.downGot = REP_SUCCEEDED :: y ∧
        v.toApp.sent = a.proto.greeting ++ a.proto.reply REP_SUCCEEDED ++ y
  | .closed none => v.upSent = []
  | .closed (some a) => Parsed parseIp a ∧ v.fromApp.got = a.head ∧
      (v.upSent = [] ∨ v.upSent = encodeTarget a.target) ∧
      ∃ status, status ≠ REP_SUCCEEDED ∧ v.toApp.sent <+: a.proto.greeting ++ a.proto.reply status

/-- Before a host is connected to. -/
structure ServerView.Before (v : ServerView) (answered : Bytes) : Prop where
  answered : v.downSent = answered
  toHost : v.toHost.sent = []
  fromHost : v.fromHost.sent = []

/-- The bytes the target was read from. -/
def Envelope (c : Bytes) (t : Target) : Prop := ∀ x, readTarget (c ++ x) = .ok (t, x)

def ServerView.Ok (v : ServerView) : Prop :=
  match v.server with
  | .reading => v.upGot = [] ∧ v.Before [] ∧ v.downEnded = false ∧ v.toHost.ended = false
  | .dial t => Envelope v.upGot t ∧ v.Before [] ∧ v.downEnded = false ∧ v.toHost.ended = false
  | .relay t => (dialTarget true net t).status = some REP_SUCCEEDED ∧
      (∃ c, Envelope c t ∧ v.upGot = c ++ v.toHost.sent) ∧
      v.downSent = REP_SUCCEEDED :: v.fromHost.got
  | .closed none => v.Before []
  | .closed (some t) => Envelope v.upGot t ∧
      (v.Before [] ∨ ∃ status, status ≠ REP_SUCCEEDED ∧ v.Before [status])

variable {parseIp net} {s : Exchange}

/-! ### The request -/

theorem head?_of_readGreeting {c methods rest : Bytes} (h : readGreeting c = .ok (methods, rest)) :
    c.head? = some SOCKS_VER := by
  unfold readGreeting at h
  obtain ⟨⟨hdr, s₁⟩, hhdr, h⟩ := ok_of_bind h
  unfold takeExact readExact at hhdr
  split at hhdr
  · cases hhdr
  · rename_i hlen
    obtain ⟨rfl, rfl⟩ := Prod.mk.inj (Except.ok.inj hhdr)
    rcases c with _ | ⟨b, c⟩
    · exact absurd (by decide) hlen
    · simp only at h
      split at h
      · cases h
      · rename_i hver
        simpa using hver

theorem parsed_socks5 {c methods c' : Bytes} {t : Target} (hgreet : ∀ x, readGreeting (c ++ x) = .ok (methods, x))
    (hmethods : methods.contains METHOD_NO_AUTH = true) (hreq : ∀ x, readRequest (c' ++ x) = .ok (t, x)) :
    Parsed parseIp ⟨.socks5, t, c ++ c'⟩ := by
  refine ⟨fits_of_readRequest (hreq []), fun x => ?_⟩
  have hgreet' := hgreet (c' ++ x)
  rw [← List.append_assoc] at hgreet'
  rw [pumpRequest, if_pos (head?_of_readGreeting hgreet'), readSocks5Request, hgreet']
  simp only [hmethods, hreq x]
  rfl

theorem parsed_http {c : Bytes} {t : Target} {b : UInt8} {bs rest : Bytes}
    (hreq : ∀ x, readHttpConnectRequest parseIp (c ++ x) = .ok (t, x)) (hc : c ++ rest = b :: bs)
    (hb : b ≠ SOCKS_VER) : Parsed parseIp ⟨.httpConnect, t, c⟩ := by
  refine ⟨(readHttpConnectRequest_spec (hreq [])).1, fun x => ?_⟩
  have hhead : ¬ (c ++ x).head? = some SOCKS_VER := by
    rcases c with _ | ⟨b', c⟩
    · exact absurd (hreq []) (by simp [readHttpConnectRequest, readHead, bind, Except.bind])
    · rw [List.cons_append, List.head?_cons, Option.some.injEq, (List.cons.inj hc).1]
      exact hb
  rw [pumpRequest, if_neg hhead, hreq x]
  rfl

/-! ### The client -/

theorem ok_refuse {proto : FrontProto} {e : RequestError} (h : s.up.sent = []) :
    (s.refuse proto e).clientView.Ok parseIp := h

theorem ok_answer {a : Asked} {status : UInt8} (hparsed : Parsed parseIp a) (hfrom : s.fromApp.got = a.head)
    (hto : s.toApp.sent = a.proto.greeting) (hopen : s.toApp.ended = false)
    (hup : s.up.sent = encodeTarget a.target) (hdown : status = REP_SUCCEEDED → s.down.got = [status]) :
    (s.answer a status).clientView.Ok parseIp := by
  have hsent : (s.toApp.send (a.proto.reply status)).sent = a.proto.greeting ++ a.proto.reply status := by
    rw [Pipe.sent_send hopen, hto]
  unfold answer
  split
  · rename_i hstatus
    obtain rfl := eq_of_beq hstatus
    refine ⟨hparsed, ⟨[], ?_, ?_⟩, [], hdown rfl, ?_⟩
    · rw [List.append_nil]
      exact hfrom
    · rw [List.append_nil]
      exact hup
    · rw [List.append_nil]
      exact hsent
  · rename_i hstatus
    refine ⟨hparsed, hfrom, .inr hup, status, fun heq => hstatus (beq_of_eq heq), ?_⟩
    exact hsent ▸ List.prefix_refl _

theorem ok_stepClient (h : s.clientView.Ok parseIp) : (s.stepClient parseIp).clientView.Ok parseIp := by
  unfold stepClient
  cases hc : s.client with
  | peek =>
    have hbefore : s.clientView.Before [] [] [] := by simpa [ClientView.Ok, clientView, hc] using h
    simp only
    split
    · rename_i b bs hq
      by_cases hb : b = SOCKS_VER
      · simp only [hb, beq_self_eq_true, if_true]
        exact hbefore.goto .greeting
      · simp only [beq_iff_eq, hb, if_false]
        exact ⟨hbefore.goto .httpHead, b, bs, hq, hb⟩
    · split
      · exact hbefore.asked
      · exact h
  | greeting =>
    have hbefore : s.clientView.Before [] [] [] := by simpa [ClientView.Ok, clientView, hc] using h
    simp only
    split
    · rename_i methods rest hread
      obtain ⟨c, hq, hgreet⟩ := incremental_readGreeting _ _ _ hread
      split
      · rename_i hmethods
        refine ⟨c, methods, hgreet, hmethods, ?_, ?_, ?_, ?_, ?_, ?_⟩
        · exact (Pipe.got_skipTo hq).trans (congrArg (· ++ c) hbefore.taken)
        · exact (Pipe.sent_send hbefore.toAppOpen).trans (congrArg (· ++ _) hbefore.answered)
        · exact Pipe.ended_send.trans hbefore.toAppOpen
        · exact hbefore.asked
        · exact hbefore.upOpen
        · exact hbefore.nothing
      · exact ok_refuse hbefore.asked
    · split
      · exact h
      · exact ok_refuse hbefore.asked
  | request =>
    have hreq : ∃ c methods, (∀ x, readGreeting (c ++ x) = .ok (methods, x)) ∧
        methods.contains METHOD_NO_AUTH = true ∧ s.clientView.Before c FrontProto.socks5.greeting [] := by
      simpa [ClientView.Ok, clientView, hc] using h
    obtain ⟨c, methods, hgreet, hmethods, hbefore⟩ := hreq
    simp only
    split
    · rename_i t rest hread
      obtain ⟨c', hq, hreq⟩ := incremental_readRequest _ _ _ hread
      have hgot : (s.fromApp.skipTo rest).got = c ++ c' :=
        (Pipe.got_skipTo hq).trans (congrArg (· ++ c') hbefore.taken)
      refine ⟨?_, rfl, hbefore.answered, hbefore.toAppOpen, hbefore.asked, hbefore.upOpen, hbefore.nothing⟩
      rw [hgot]
      exact parsed_socks5 hgreet hmethods hreq
    · split
      · exact h
      · exact ok_refuse hbefore.asked
  | httpHead =>
    have hhead : s.clientView.Before [] [] [] ∧ ∃ b bs, s.fromApp.queue = b :: bs ∧ b ≠ SOCKS_VER := by
      simpa [ClientView.Ok, clientView, hc] using h
    obtain ⟨hbefore, b, bs, hq, hb⟩ := hhead
    simp only
    split
    · rename_i t rest hread
      obtain ⟨c, hqc, hreq⟩ := incremental_readHttpConnectRequest parseIp _ _ _ hread
      have hgot : (s.fromApp.skipTo rest).got = c :=
        (Pipe.got_skipTo hqc).trans (congrArg (· ++ c) hbefore.taken)
      refine ⟨?_, rfl, hbefore.answered, hbefore.toAppOpen, hbefore.asked, hbefore.upOpen, hbefore.nothing⟩
      rw [hgot]
      exact parsed_http hreq (hqc.symm.trans hq) hb
    · split
      · exact h
      · exact ok_refuse hbefore.asked
  | dispatch a =>
    have hdisp : Parsed parseIp a ∧ s.clientView.Before a.head a.proto.greeting [] := by
      simpa [ClientView.Ok, clientView, hc] using h
    obtain ⟨hparsed, hbefore⟩ := hdisp
    refine ⟨hparsed, hbefore.taken, hbefore.answered, hbefore.toAppOpen, ?_, ?_, hbefore.nothing⟩
    · exact (Pipe.sent_send hbefore.upOpen).trans (congrArg (· ++ _) hbefore.asked)
    · exact Pipe.ended_send.trans hbefore.upOpen
  | await a =>
    have hawait : Parsed parseIp a ∧ s.clientView.Before a.head a.proto.greeting (encodeTarget a.target) := by
      simpa [ClientView.Ok, clientView, hc] using h
    obtain ⟨hparsed, hbefore⟩ := hawait
    simp only
    split
    · rename_i status q hq
      have hgot : s.down.got = [] := hbefore.nothing
      refine ok_answer hparsed hbefore.taken hbefore.answered hbefore.toAppOpen hbefore.asked fun _ => ?_
      simp [Pipe.skip, hq, hgot]
    · split
      · exact ok_answer hparsed hbefore.taken hbefore.answered hbefore.toAppOpen hbefore.asked
          fun heq => absurd heq (by decide)
      · exact h
  | relay a => exact h
  | closed a => exact h

theorem ok_closed {a : Asked} (hparsed : Parsed parseIp a) (hfrom : s.fromApp.got = a.head)
    (hup : s.up.sent = [] ∨ s.up.sent = encodeTarget a.target) (hto : s.toApp.sent = a.proto.greeting)
    (hclient : s.client = .closed (some a)) : s.clientView.Ok parseIp := by
  have hprefix : s.toApp.sent <+: a.proto.greeting ++ a.proto.reply REP_GENERAL_FAILURE :=
    hto ▸ List.prefix_append _ _
  simpa only [ClientView.Ok, clientView, hclient] using
    ⟨hparsed, hfrom, hup, REP_GENERAL_FAILURE, by decide, hprefix⟩

theorem ok_failClient (h : s.clientView.Ok parseIp) : s.failClient.clientView.Ok parseIp := by
  have hok := h
  unfold failClient
  simp only [ClientView.Ok, clientView] at h
  cases hc : s.client with
  | peek => simpa [ClientView.Ok, clientView, Client.asked, hc] using (hc ▸ h).asked
  | greeting => simpa [ClientView.Ok, clientView, Client.asked, hc] using (hc ▸ h).asked
  | request =>
    obtain ⟨c, methods, -, -, hbefore⟩ := hc ▸ h
    exact hbefore.asked
  | httpHead => exact (hc ▸ h).1.asked
  | dispatch a =>
    obtain ⟨hparsed, hbefore⟩ := hc ▸ h
    exact ok_closed hparsed hbefore.taken (.inl hbefore.asked) hbefore.answered rfl
  | await a =>
    obtain ⟨hparsed, hbefore⟩ := hc ▸ h
    simp only
    split
    · exact hok
    · exact ok_closed hparsed hbefore.taken (.inr hbefore.asked) hbefore.answered rfl
  | relay a => exact hok
  | closed a => exact hok

theorem ok_resetClient (h : s.clientView.Ok parseIp) : s.resetClient.clientView.Ok parseIp := by
  unfold resetClient
  split
  · rename_i a hc
    simp only [ClientView.Ok, clientView, hc] at h
    obtain ⟨hparsed, hbefore⟩ := h
    exact ok_answer hparsed hbefore.taken hbefore.answered hbefore.toAppOpen hbefore.asked
      fun heq => absurd heq (by decide)
  · exact h

theorem ok_appSends {fromApp : Pipe UInt8} (hgot : fromApp.got = s.fromApp.got)
    (hqueue : s.fromApp.queue <+: fromApp.queue) (h : s.clientView.Ok parseIp) :
    ({ s with fromApp } : Exchange).clientView.Ok parseIp := by
  have hbefore {taken answered asked : Bytes} (hb : s.clientView.Before taken answered asked) :
      ({ s with fromApp } : Exchange).clientView.Before taken answered asked :=
    ⟨hgot.trans hb.taken, hb.answered, hb.toAppOpen, hb.asked, hb.upOpen, hb.nothing⟩
  unfold ClientView.Ok at h ⊢
  unfold clientView at h ⊢
  simp only at h ⊢
  split at h
  · exact hbefore h
  · exact hbefore h
  · obtain ⟨hb, b, bs, hq, hver⟩ := h
    obtain ⟨more, hmore⟩ := hqueue
    exact ⟨hbefore hb, b, bs ++ more, by rw [← hmore, hq, List.cons_append], hver⟩
  · obtain ⟨c, methods, hgreet, hmethods, hb⟩ := h
    exact ⟨c, methods, hgreet, hmethods, hbefore hb⟩
  · exact ⟨h.1, hbefore h.2⟩
  · exact ⟨h.1, hbefore h.2⟩
  · rw [hgot]
    exact h
  · exact h
  · rw [hgot]
    exact h

/-! ### The server -/

theorem ok_stepServer (h : s.serverView.Ok net) : (s.stepServer net).serverView.Ok net := by
  unfold stepServer
  cases hs : s.server with
  | reading =>
    have hread : s.up.got = [] ∧ s.serverView.Before [] ∧ s.down.ended = false ∧ s.toHost.ended = false := by
      simpa [ServerView.Ok, serverView, hs] using h
    obtain ⟨hgot, hbefore, hopen, hhost⟩ := hread
    simp only
    split
    · rename_i t rest ht
      obtain ⟨c, hq, henv⟩ := incremental_readTarget _ _ _ ht
      refine ⟨?_, ⟨hbefore.answered, hbefore.toHost, hbefore.fromHost⟩, hopen, hhost⟩
      change Envelope (s.up.skipTo rest).got t
      rw [Pipe.got_skipTo hq, hgot, List.nil_append]
      exact henv
    · split
      · exact h
      · exact ⟨hbefore.answered, hbefore.toHost, hbefore.fromHost⟩
  | dial t =>
    have hdial : Envelope s.up.got t ∧ s.serverView.Before [] ∧ s.down.ended = false ∧
        s.toHost.ended = false := by
      simpa [ServerView.Ok, serverView, hs] using h
    obtain ⟨henv, hbefore, hopen, hhost⟩ := hdial
    have hsent (bs : Bytes) : (s.down.send bs).sent = bs := by
      rw [Pipe.sent_send hopen, show s.down.sent = [] from hbefore.answered, List.nil_append]
    have hto : s.toHost.sent = [] := hbefore.toHost
    have hfrom : s.fromHost.sent = [] := hbefore.fromHost
    simp only
    split
    · rename_i hstatus
      have hstatus' := eq_of_beq hstatus
      refine ⟨hstatus', ⟨s.up.got, henv, ?_⟩, ?_⟩
      · exact ((congrArg (s.up.got ++ ·) hto).trans (List.append_nil _)).symm
      · have hnone : s.fromHost.got = [] := (List.append_eq_nil_iff.mp hfrom).1
        simp only [serverView, hsent, hstatus', hnone]
        rfl
    · rename_i hstatus
      refine ⟨henv, ?_⟩
      cases hcode : (dialTarget true net t).status with
      | none =>
        left
        exact ⟨by simp [serverView, hsent], hto, hfrom⟩
      | some status =>
        right
        refine ⟨status, ?_, by simp [serverView, hsent], hto, hfrom⟩
        rintro rfl
        exact hstatus (by rw [hcode]; rfl)
  | relay t => exact h
  | closed t => exact h

theorem ok_failServer (h : s.serverView.Ok net) : s.failServer.serverView.Ok net := by
  unfold failServer
  cases hs : s.server with
  | reading =>
    have hread : s.up.got = [] ∧ s.serverView.Before [] ∧ s.down.ended = false ∧ s.toHost.ended = false := by
      simpa [ServerView.Ok, serverView, hs] using h
    obtain ⟨-, hbefore, -⟩ := hread
    exact ⟨hbefore.answered, hbefore.toHost, hbefore.fromHost⟩
  | dial t =>
    have hdial : Envelope s.up.got t ∧ s.serverView.Before [] ∧ s.down.ended = false ∧
        s.toHost.ended = false := by
      simpa [ServerView.Ok, serverView, hs] using h
    obtain ⟨henv, hbefore, -⟩ := hdial
    exact ⟨henv, .inl ⟨hbefore.answered, hbefore.toHost, hbefore.fromHost⟩⟩
  | relay t => exact h
  | closed t => exact h

/-! ### Neither sees the other's steps -/

theorem serverView_answer (a : Asked) (status : UInt8) : (s.answer a status).serverView = s.serverView := by
  unfold answer
  split
  · rfl
  · simp [serverView]

theorem serverView_stepClient : (s.stepClient parseIp).serverView = s.serverView := by
  unfold stepClient
  split
  · split
    · rfl
    · split <;> rfl
  · split
    · split <;> rfl
    · split <;> rfl
  · split
    · rfl
    · split <;> rfl
  · split
    · rfl
    · split <;> rfl
  · simp [serverView]
  · split
    · rw [serverView_answer]
      simp [serverView]
    · split
      · exact serverView_answer _ _
      · rfl
  · rfl
  · rfl

theorem serverView_failClient : s.failClient.serverView = s.serverView := by
  unfold failClient
  split
  · split
    · rfl
    · simp [serverView]
  · rfl
  · rfl
  · rfl

theorem serverView_resetClient : s.resetClient.serverView = s.serverView := by
  unfold resetClient
  split
  · exact serverView_answer _ _
  · rfl

theorem clientView_stepServer : (s.stepServer net).clientView = s.clientView := by
  unfold stepServer
  split
  · split
    · simp [clientView]
    · split <;> rfl
  · simp only
    split <;> simp [clientView]
  · rfl
  · rfl

theorem clientView_failServer : s.failServer.clientView = s.clientView := by
  unfold failServer
  split <;> rfl

/-! ### Every step -/

variable (parseIp net) in
/-- Both sides are in order. -/
def Ok (s : Exchange) : Prop := s.clientView.Ok parseIp ∧ s.serverView.Ok net

theorem ok_toQuic (n : ℕ) (hrun : s.copies .toQuic = true) (h : s.Ok parseIp net) :
    (s.copy n .toQuic).Ok parseIp net := by
  constructor
  · simp only [copies] at hrun
    split at hrun
    · rename_i a hc
      obtain ⟨hclient, -⟩ := h
      simp only [ClientView.Ok, clientView, hc] at hclient
      obtain ⟨hparsed, hcarried, hdown⟩ := hclient
      simp only [ClientView.Ok, clientView, copy, hc]
      exact ⟨hparsed, Pipe.Carried.copy hcarried n, hdown⟩
    · cases hrun
  · have hview : (s.copy n .toQuic).serverView = s.serverView := by simp [serverView, copy, Pipe.got_copy]
    rw [hview]
    exact h.2

theorem ok_fromQuic (n : ℕ) (hrun : s.copies .fromQuic = true) (h : s.Ok parseIp net) :
    (s.copy n .fromQuic).Ok parseIp net := by
  constructor
  · simp only [copies] at hrun
    split at hrun
    · rename_i a hc
      obtain ⟨hclient, -⟩ := h
      simp only [ClientView.Ok, clientView, hc] at hclient
      obtain ⟨hparsed, hup, hcarried⟩ := hclient
      simp only [ClientView.Ok, clientView, copy, hc]
      have hback : Pipe.Carried s.down s.toApp [REP_SUCCEEDED]
          (a.proto.greeting ++ a.proto.reply REP_SUCCEEDED) := hcarried
      exact ⟨hparsed, hup, hback.copy n⟩
    · cases hrun
  · have hview : (s.copy n .fromQuic).serverView = s.serverView := by
      simp [serverView, copy, Pipe.sent_copy, Pipe.ended_copy]
    rw [hview]
    exact h.2

theorem ok_toHost (n : ℕ) (hrun : s.copies .toHost = true) (h : s.Ok parseIp net) :
    (s.copy n .toHost).Ok parseIp net := by
  constructor
  · have hview : (s.copy n .toHost).clientView = s.clientView := by
      simp [clientView, copy, Pipe.sent_copy, Pipe.ended_copy]
    rw [hview]
    exact h.1
  · simp only [copies] at hrun
    split at hrun
    · rename_i t hs
      obtain ⟨-, hserver⟩ := h
      simp only [ServerView.Ok, serverView, hs] at hserver
      obtain ⟨hstatus, ⟨c, henv, hgot⟩, hdown⟩ := hserver
      simp only [ServerView.Ok, serverView, copy, hs]
      have hcarried : Pipe.Carried s.up s.toHost c [] := ⟨_, hgot, rfl⟩
      obtain ⟨x, hx, hsent⟩ := hcarried.copy n
      exact ⟨hstatus, ⟨c, henv, by rw [hx, hsent, List.nil_append]⟩, hdown⟩
    · cases hrun

theorem ok_fromHost (n : ℕ) (hrun : s.copies .fromHost = true) (h : s.Ok parseIp net) :
    (s.copy n .fromHost).Ok parseIp net := by
  constructor
  · have hview : (s.copy n .fromHost).clientView = s.clientView := by simp [clientView, copy, Pipe.got_copy]
    rw [hview]
    exact h.1
  · simp only [copies] at hrun
    split at hrun
    · rename_i t hs
      obtain ⟨-, hserver⟩ := h
      simp only [ServerView.Ok, serverView, hs] at hserver
      obtain ⟨hstatus, hup, hdown⟩ := hserver
      simp only [ServerView.Ok, serverView, copy, hs]
      have hcarried : Pipe.Carried s.fromHost s.down [] [REP_SUCCEEDED] := ⟨_, rfl, hdown⟩
      obtain ⟨x, hx, hsent⟩ := hcarried.copy n
      exact ⟨hstatus, hup, by rw [hsent, hx]; rfl⟩
    · cases hrun

theorem ok_failCopy {leg : Leg} (h : s.Ok parseIp net) (hrun : s.copies leg = true) :
    (s.failCopy leg).Ok parseIp net := by
  obtain ⟨hclient, hserver⟩ := h
  simp only [copies] at hrun
  cases leg with
  | toQuic =>
    simp only at hrun
    split at hrun
    · rename_i a hc
      simp only [ClientView.Ok, clientView, hc] at hclient
      exact ⟨by simpa [ClientView.Ok, clientView, failCopy, hc] using hclient, hserver⟩
    · cases hrun
  | fromQuic =>
    simp only at hrun
    split at hrun
    · rename_i a hc
      simp only [ClientView.Ok, clientView, hc] at hclient
      exact ⟨by simpa [ClientView.Ok, clientView, failCopy, hc] using hclient, hserver⟩
    · cases hrun
  | toHost =>
    simp only at hrun
    split at hrun
    · rename_i t hs
      simp only [ServerView.Ok, serverView, hs] at hserver
      exact ⟨hclient, by simpa [ServerView.Ok, serverView, failCopy, hs] using hserver⟩
    · cases hrun
  | fromHost =>
    simp only at hrun
    split at hrun
    · rename_i t hs
      simp only [ServerView.Ok, serverView, hs] at hserver
      exact ⟨hclient, by simpa [ServerView.Ok, serverView, failCopy, hs] using hserver⟩
    · cases hrun

theorem ok_hostSends {fromHost : Pipe UInt8} (hgot : fromHost.got = s.fromHost.got)
    (hrun : s.copies .fromHost = true) (h : s.Ok parseIp net) :
    ({ s with fromHost } : Exchange).Ok parseIp net := by
  refine ⟨h.1, ?_⟩
  obtain ⟨-, hserver⟩ := h
  simp only [copies] at hrun
  split at hrun
  · rename_i t hs
    simp only [ServerView.Ok, serverView, hs] at hserver
    simpa only [ServerView.Ok, serverView, hs, hgot] using hserver
  · cases hrun

theorem ok_step (s : Exchange) (m : Move) (h : s.Ok parseIp net) : (s.step parseIp net m).Ok parseIp net := by
  have hserver {s' : Exchange} (hview : s'.serverView = s.serverView) : s'.serverView.Ok net :=
    hview ▸ h.2
  have hclient {s' : Exchange} (hview : s'.clientView = s.clientView) : s'.clientView.Ok parseIp :=
    hview ▸ h.1
  cases m with
  | appSends bs =>
    refine ⟨ok_appSends Pipe.got_send ?_ h.1, h.2⟩
    unfold Pipe.send
    split
    · exact List.prefix_refl _
    · exact List.prefix_append _ _
  | appCloses => exact ⟨ok_appSends rfl (List.prefix_refl _) h.1, h.2⟩
  | hostSends bs =>
    simp only [step]
    split
    · rename_i hrun
      exact ok_hostSends Pipe.got_send hrun h
    · exact h
  | hostCloses =>
    simp only [step]
    split
    · rename_i hrun
      exact ok_hostSends rfl hrun h
    · exact h
  | client => exact ⟨ok_stepClient h.1, hserver serverView_stepClient⟩
  | clientFails => exact ⟨ok_failClient h.1, hserver serverView_failClient⟩
  | clientReset => exact ⟨ok_resetClient h.1, hserver serverView_resetClient⟩
  | server => exact ⟨hclient clientView_stepServer, ok_stepServer h.2⟩
  | serverFails => exact ⟨hclient clientView_failServer, ok_failServer h.2⟩
  | copy leg n =>
    simp only [step]
    split
    · rename_i hrun
      cases leg with
      | toQuic => exact ok_toQuic n hrun h
      | fromQuic => exact ok_fromQuic n hrun h
      | toHost => exact ok_toHost n hrun h
      | fromHost => exact ok_fromHost n hrun h
    · exact h
  | copyFails leg =>
    simp only [step]
    split
    · rename_i hrun
      exact ok_failCopy h hrun
    · exact h

theorem ok_initial : ({} : Exchange).Ok parseIp net :=
  ⟨⟨rfl, rfl, rfl, rfl, rfl, rfl⟩, rfl, ⟨rfl, rfl, rfl⟩, rfl, rfl⟩

end Exchange

end BaleVpn.Socks
