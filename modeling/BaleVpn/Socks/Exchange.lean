import BaleVpn.Lib.Machine
import BaleVpn.Lib.Pipe
import BaleVpn.Socks.FrontEnds

/-!
# A proxied connection, end to end (`socks5_quic.rs`)

`pump_conn` on the peer that the application connects to and `handle_quic_stream` on the other one, over
the two directions of a QUIC stream, with the application at one end and the host at the other. A move
lets the application or the host write or close, lets one of the two tasks go on, lets one of the four
byte copies move a chunk, or makes the operation that a task or a copy is at fail; the moves come in any
order. A read that has not got its bytes waits, and the bytes of one read are taken together. A stream
that cannot be opened and one whose envelope cannot be written are the same.
-/

namespace BaleVpn.Socks

open Lib Net

/-! ## The handshake is incremental -/

theorem incremental_readExact (n : ℕ) : Incremental (readExact n) := by
  intro s a rest h
  unfold readExact at h
  split at h
  · cases h
  · rename_i hlen
    obtain ⟨rfl, rfl⟩ := Prod.mk.inj (Except.ok.inj h)
    refine ⟨s.take n, (List.take_append_drop n s).symm, fun x => readExact_append ?_ x⟩
    rw [List.length_take]
    omega

theorem incremental_takeExact (n : ℕ) : Incremental (takeExact n) :=
  (incremental_readExact n).mapError _

theorem incremental_readGreeting : Incremental readGreeting := by
  unfold readGreeting
  apply (incremental_takeExact 2).bind
  intro hdr
  apply Incremental.ite
  · exact Incremental.throw _
  · exact incremental_takeExact _

theorem incremental_domain {ε : Type} (name : Bytes) (port : UInt16) (e : ε) : Incremental fun s : Bytes =>
    match String.fromUTF8? ⟨name.toArray⟩ with
    | some domain => (.ok (Target.domain domain port, s) : Except ε (Target × Bytes))
    | none => .error e := by
  cases String.fromUTF8? ⟨name.toArray⟩ with
  | none => exact Incremental.throw _
  | some domain => exact Incremental.pure _

theorem incremental_readRequest : Incremental readRequest := by
  unfold readRequest
  apply (incremental_takeExact 4).bind
  intro req
  apply Incremental.ite
  · exact Incremental.throw _
  apply Incremental.ite
  · exact Incremental.throw _
  apply Incremental.ite
  · exact (incremental_takeExact 4).bind fun _ => (incremental_takeExact 2).bind fun _ => Incremental.pure _
  apply Incremental.ite
  · exact (incremental_takeExact 16).bind fun _ => (incremental_takeExact 2).bind fun _ => Incremental.pure _
  apply Incremental.ite
  · exact (incremental_takeExact 1).bind fun _ => (incremental_takeExact _).bind fun name =>
      (incremental_takeExact 2).bind fun p => incremental_domain name (be16 p) _
  · exact Incremental.throw _

theorem incremental_readTarget : Incremental readTarget := by
  unfold readTarget
  apply (incremental_readExact 1).bind
  intro atyp
  apply Incremental.ite
  · exact (incremental_readExact 4).bind fun _ => (incremental_readExact 2).bind fun _ => Incremental.pure _
  apply Incremental.ite
  · exact (incremental_readExact 16).bind fun _ => (incremental_readExact 2).bind fun _ => Incremental.pure _
  apply Incremental.ite
  · exact (incremental_readExact 1).bind fun _ => (incremental_readExact _).bind fun name =>
      (incremental_readExact 2).bind fun p => incremental_domain name (be16 p) _
  · exact Incremental.throw _

theorem incremental_readHead (head : Bytes) : Incremental (readHead head) := by
  intro s a rest h
  induction s generalizing head with
  | nil => cases h
  | cons b s ih =>
    rw [readHead] at h
    split at h
    · rename_i hend
      obtain ⟨rfl, rfl⟩ := Prod.mk.inj (Except.ok.inj h)
      refine ⟨[b], rfl, fun x => ?_⟩
      rw [List.singleton_append, readHead, if_pos hend]
    · rename_i hnot
      split at h
      · cases h
      · rename_i hsmall
        obtain ⟨c, rfl, hc⟩ := ih _ h
        refine ⟨b :: c, rfl, fun x => ?_⟩
        rw [List.cons_append, readHead, if_neg hnot, if_neg hsmall]
        exact hc x

theorem incremental_readHttpConnectRequest (parseIp : String → Option StdIpAddr) :
    Incremental (readHttpConnectRequest parseIp) := by
  unfold readHttpConnectRequest
  apply (incremental_readHead []).bind
  intro head s t rest h
  obtain ⟨t', ht', h⟩ := ok_of_bind h
  cases h
  refine ⟨[], rfl, fun x => ?_⟩
  simp only [ht']
  rfl

/-! ## The two tasks -/

inductive FrontProto
  | socks5 | httpConnect
  deriving DecidableEq, Repr

def asciiBytes (s : String) : Bytes := s.toUTF8.data.toList

def httpConnectReply (status : UInt8) : Bytes :=
  if status == REP_SUCCEEDED then asciiBytes "HTTP/1.1 200 Connection Established\r\n\r\n"
  else if status == REP_RULESET_BLOCKED then
    asciiBytes "HTTP/1.1 403 Forbidden\r\nConnection: close\r\n\r\n"
  else if status == REP_NETWORK_UNREACHABLE || status == REP_HOST_UNREACHABLE then
    asciiBytes "HTTP/1.1 504 Gateway Timeout\r\nConnection: close\r\n\r\n"
  else asciiBytes "HTTP/1.1 502 Bad Gateway\r\nConnection: close\r\n\r\n"

def FrontProto.reply (p : FrontProto) (status : UInt8) : Bytes :=
  match p with
  | .socks5 => [SOCKS_VER, status, RSV, ATYP_IPV4, 0, 0, 0, 0, 0, 0]
  | .httpConnect => httpConnectReply status

/-- What a front-end has written when it has read a request. -/
def FrontProto.greeting : FrontProto → Bytes
  | .socks5 => [SOCKS_VER, METHOD_NO_AUTH]
  | .httpConnect => []

/-- What a front-end writes when it gives up on a request: `read_socks5_request` before it returns the
error, and its caller. -/
def FrontProto.refusal (p : FrontProto) (e : RequestError) : Bytes :=
  match p with
  | .socks5 =>
    (match e with
      | .noAcceptableMethod => [SOCKS_VER, METHOD_NO_ACCEPTABLE]
      | .onlyConnect => [SOCKS_VER, REP_COMMAND_NOT_SUPPORTED, RSV, ATYP_IPV4, 0, 0, 0, 0, 0, 0]
      | _ => []) ++ FrontProto.socks5.reply REP_GENERAL_FAILURE
  | .httpConnect => asciiBytes "HTTP/1.1 400 Bad Request\r\nConnection: close\r\n\r\n"

/-- A request that a front-end has read: `head` is what it consumed of the application's stream. -/
structure Asked where
  proto : FrontProto
  target : Target
  head : Bytes

/-- Where `pump_conn` is. -/
inductive Client
  | peek | greeting | request | httpHead
  /-- `dispatch_target`, before the stream is opened. -/
  | dispatch (a : Asked)
  /-- At the read of the status byte. -/
  | await (a : Asked)
  /-- In the two copies. -/
  | relay (a : Asked)
  | closed (a : Option Asked)

def Client.asked : Client → Option Asked
  | .dispatch a | .await a | .relay a => some a
  | .closed a => a
  | _ => none

/-- Where `handle_quic_stream` is. -/
inductive Server
  | reading | dial (t : Target) | relay (t : Target) | closed (t : Option Target)

def Server.target : Server → Option Target
  | .dial t | .relay t => some t
  | .closed t => t
  | .reading => none

structure Exchange where
  client : Client := .peek
  server : Server := .reading
  fromApp : Pipe UInt8 := {}
  toApp : Pipe UInt8 := {}
  /-- The stream, from the client to the server. -/
  up : Pipe UInt8 := {}
  down : Pipe UInt8 := {}
  toHost : Pipe UInt8 := {}
  fromHost : Pipe UInt8 := {}
  /-- A read, a write or a stream has failed. -/
  failed : Bool := false

namespace Exchange

variable (parseIp : String → Option StdIpAddr) (net : Dialer)

/-- A reader that has not got its bytes yet. -/
def waits (e : RequestError) (p : Pipe UInt8) : Bool := e == .unexpectedEof && !p.ended

/-- The socket of the application is dropped. -/
def refuse (proto : FrontProto) (e : RequestError) (s : Exchange) : Exchange :=
  { s with toApp := (s.toApp.send (proto.refusal e)).finish, client := .closed none }

/-- The status goes to the application in its own dialect. -/
def answer (a : Asked) (status : UInt8) (s : Exchange) : Exchange :=
  if status == REP_SUCCEEDED then
    { s with toApp := s.toApp.send (a.proto.reply status), client := .relay a }
  else
    { s with
      toApp := (s.toApp.send (a.proto.reply status)).finish
      up := s.up.finish
      client := .closed (some a) }

def stepClient (s : Exchange) : Exchange :=
  match s.client with
  | .peek =>
    match s.fromApp.queue with
    | b :: _ => { s with client := if b == SOCKS_VER then .greeting else .httpHead }
    | [] => if s.fromApp.ended then { s with toApp := s.toApp.finish, client := .closed none } else s
  | .greeting =>
    match readGreeting s.fromApp.queue with
    | .ok (methods, rest) =>
      if methods.contains METHOD_NO_AUTH then
        { s with
          fromApp := s.fromApp.skipTo rest
          toApp := s.toApp.send FrontProto.socks5.greeting
          client := .request }
      else s.refuse .socks5 .noAcceptableMethod
    | .error e => if waits e s.fromApp then s else s.refuse .socks5 e
  | .request =>
    match readRequest s.fromApp.queue with
    | .ok (target, rest) =>
      let fromApp := s.fromApp.skipTo rest
      { s with fromApp, client := .dispatch ⟨.socks5, target, fromApp.got⟩ }
    | .error e => if waits e s.fromApp then s else s.refuse .socks5 e
  | .httpHead =>
    match readHttpConnectRequest parseIp s.fromApp.queue with
    | .ok (target, rest) =>
      let fromApp := s.fromApp.skipTo rest
      { s with fromApp, client := .dispatch ⟨.httpConnect, target, fromApp.got⟩ }
    | .error e => if waits e s.fromApp then s else s.refuse .httpConnect e
  | .dispatch a => { s with up := s.up.send (encodeTarget a.target), client := .await a }
  | .await a =>
    match s.down.queue with
    | status :: _ => answer a status { s with down := s.down.skip 1 }
    | [] => if s.down.ended then s.answer a REP_GENERAL_FAILURE else s
  | .relay _ | .closed _ => s

/-- The client's read or write fails: a handshake and a stream that does not open end the connection, a
status that has come is read but its reply does not go out. -/
def failClient (s : Exchange) : Exchange :=
  match s.client with
  | .await a =>
    if s.down.queue.isEmpty && !s.down.ended then s
    else
      { s with
        down := s.down.skip 1
        toApp := s.toApp.finish
        up := s.up.finish
        client := .closed (some a)
        failed := true }
  | .relay _ | .closed _ => s
  | c => { s with toApp := s.toApp.finish, client := .closed c.asked, failed := true }

/-- The stream is reset while the client waits for the status. -/
def resetClient (s : Exchange) : Exchange :=
  match s.client with
  | .await a => answer a REP_GENERAL_FAILURE { s with failed := true }
  | _ => s

def stepServer (s : Exchange) : Exchange :=
  match s.server with
  | .reading =>
    match readTarget s.up.queue with
    | .ok (target, rest) => { s with up := s.up.skipTo rest, server := .dial target }
    | .error e =>
      if e == .unexpectedEof && !s.up.ended then s
      else { s with down := s.down.finish, server := .closed none }
  | .dial target =>
    let served := dialTarget true net target
    let down := s.down.send served.status.toList
    if served.status == some REP_SUCCEEDED then { s with down, server := .relay target }
    else { s with down := down.finish, server := .closed (some target) }
  | .relay _ | .closed _ => s

/-- The server's read fails, or its status does not go out; a host that it has connected to is let go. -/
def failServer (s : Exchange) : Exchange :=
  match s.server with
  | .reading => { s with down := s.down.finish, server := .closed none, failed := true }
  | .dial target =>
    { s with
      down := s.down.finish
      toHost := s.toHost.finish
      server := .closed (some target)
      failed := true }
  | .relay _ | .closed _ => s

inductive Leg
  | toQuic | fromQuic | toHost | fromHost
  deriving DecidableEq, Repr

/-- The copies of a side run once its task has reached them. -/
def copies (s : Exchange) : Leg → Bool
  | .toQuic | .fromQuic => match s.client with
    | .relay _ => true
    | _ => false
  | .toHost | .fromHost => match s.server with
    | .relay _ => true
    | _ => false

/-- One turn of `tokio::io::copy`; at the end of the source its target is finished or shut down. -/
def copy (n : ℕ) (leg : Leg) (s : Exchange) : Exchange :=
  match leg with
  | .toQuic =>
    let r := Pipe.copy n s.fromApp s.up
    { s with fromApp := r.1, up := r.2 }
  | .fromQuic =>
    let r := Pipe.copy n s.down s.toApp
    { s with down := r.1, toApp := r.2 }
  | .toHost =>
    let r := Pipe.copy n s.up s.toHost
    { s with up := r.1, toHost := r.2 }
  | .fromHost =>
    let r := Pipe.copy n s.fromHost s.down
    { s with fromHost := r.1, down := r.2 }

/-- A copy that fails finishes its target as well. -/
def failCopy (leg : Leg) (s : Exchange) : Exchange :=
  match leg with
  | .toQuic => { s with up := s.up.finish, failed := true }
  | .fromQuic => { s with toApp := s.toApp.finish, failed := true }
  | .toHost => { s with toHost := s.toHost.finish, failed := true }
  | .fromHost => { s with down := s.down.finish, failed := true }

inductive Move
  | appSends (bs : Bytes) | appCloses
  | hostSends (bs : Bytes) | hostCloses
  | client | clientFails | clientReset
  | server | serverFails
  | copy (leg : Leg) (n : ℕ) | copyFails (leg : Leg)

def step (s : Exchange) : Move → Exchange
  | .appSends bs => { s with fromApp := s.fromApp.send bs }
  | .appCloses => { s with fromApp := s.fromApp.finish }
  | .hostSends bs => if s.copies .fromHost then { s with fromHost := s.fromHost.send bs } else s
  | .hostCloses => if s.copies .fromHost then { s with fromHost := s.fromHost.finish } else s
  | .client => s.stepClient parseIp
  | .clientFails => s.failClient
  | .clientReset => s.resetClient
  | .server => s.stepServer net
  | .serverFails => s.failServer
  | .copy leg n => if s.copies leg then s.copy n leg else s
  | .copyFails leg => if s.copies leg then s.failCopy leg else s

def run (ms : List Move) : Exchange := ms.foldl (step parseIp net) {}

end Exchange

end BaleVpn.Socks
