import BaleVpn.Lib.Machine
import BaleVpn.Carrier.SendLoop

/-!
# The sending side of a tunnel (`lib.rs`)

Callers of `send_ip` and `send_raw_frame`, callers of `on_send_drained`, the sender task and the
carrier, in atomic steps and any order. The tunnel is connected or not for the whole run, and the
sender task runs. The carrier loses nothing: frames reach the peer in the order the track took them.

Of `tokio`'s channel: a send first takes one of the `SEND_QUEUE_CAP` slots and then puts its message
into the queue; a receive takes the message out and then frees the slot; `capacity` counts the slots
that are free. When the track's own queue takes a frame and when callers run are inputs. Counters
are left out.
-/

namespace BaleVpn.Carrier

open Net Lib

def SEND_QUEUE_CAP : ℕ := 64

def FRAME_TYPE_IP : UInt8 := 0x49

def FRAME_TYPE_QUIC : UInt8 := 0x51

inductive SendError
  | invalid | notConnected | backpressure
  deriving DecidableEq, Repr

/-! ## The peer -/

/-- Where `dispatch_payload` hands a payload on. -/
inductive Plane
  | ip (packet : Bytes)
  | quic (datagram : Bytes)
  deriving DecidableEq, Repr

def dispatchPayload : Bytes → Option Plane
  | [] => none
  | tag :: rest =>
    if tag = FRAME_TYPE_IP then some (.ip rest)
    else if tag = FRAME_TYPE_QUIC then some (.quic rest)
    else none

/-! ## State -/

/-- The sender task. In `first` and `next` it has taken a packet out of the queue and its slot is
not free yet; in `retry` it flushes to make room for a packet. -/
inductive SenderPc
  | recv
  | first (packet : Bytes)
  | tryRecv
  | next (packet : Bytes)
  | retry (packet : Bytes)
  | flush
  | drain
  | fire (callbacks : List ℕ)
  deriving DecidableEq, Repr

/-- A call of `on_send_drained`; it holds the lock of the waiters in `check` and `park`. -/
inductive WaiterPc
  | lock | check | park | fire | returned
  deriving DecidableEq, Repr

structure Outbound where
  connected : Bool := true
  /-- Messages of sends that have their slot. -/
  sending : List Bytes := []
  queue : List Bytes := []
  /-- Frames whose call has returned `Ok(())`. -/
  accepted : List Bytes := []
  pc : SenderPc := .recv
  packer : Packer := {}
  /-- How many frames the peer has received. -/
  received : ℕ := 0
  /-- The payloads the peer's `dispatch_payload` was called with. -/
  dispatched : List Bytes := []
  /-- What it handed on. -/
  handed : List Plane := []
  /-- `drain_waiters`; a callback is named by its call. -/
  waiters : List ℕ := []
  lock : Option ℕ := none
  calls : List WaiterPc := []
  fired : List ℕ := []
  deriving DecidableEq, Repr

namespace Outbound

/-- The slot of the packet the sender has just taken. -/
def held (s : Outbound) : ℕ :=
  match s.pc with
  | .first _ | .next _ => 1
  | _ => 0

def capacity (s : Outbound) : ℕ := SEND_QUEUE_CAP - (s.sending.length + s.queue.length + s.held)

/-! ## Sending -/

/-- `send_raw_frame` up to the slot. -/
def sendRawFrame (s : Outbound) (buf : Bytes) : Except SendError Outbound :=
  if buf.isEmpty || buf.length > 65536 then .error .invalid
  else if !s.connected then .error .notConnected
  else if s.capacity = 0 then .error .backpressure
  else .ok { s with sending := s.sending ++ [buf] }

def sendIp (s : Outbound) (ip : Bytes) : Except SendError Outbound :=
  if ip.isEmpty || ip.length > 65535 then .error .invalid
  else if !s.connected then .error .notConnected
  else s.sendRawFrame (FRAME_TYPE_IP :: ip)

/-- The message of send `i` goes into the queue, and the call returns. -/
def land (s : Outbound) (i : ℕ) : Outbound :=
  match s.sending[i]? with
  | some buf =>
    { s with
      sending := s.sending.eraseIdx i, queue := s.queue ++ [buf], accepted := s.accepted ++ [buf] }
  | none => s

/-! ## The sender task -/

/-- One step; `taken` says whether the track's queue takes a frame that is flushed. -/
def senderStep (s : Outbound) (taken : Bool) : Outbound :=
  match s.pc with
  | .recv =>
    match s.queue with
    | packet :: queue => { s with queue, pc := .first packet }
    | [] => s
  | .first packet => { s with packer := (s.packer.push packet).2, pc := .tryRecv }
  | .tryRecv =>
    match s.queue with
    | packet :: queue => { s with queue, pc := .next packet }
    | [] => { s with pc := .flush }
  | .next packet =>
    match s.packer.push packet with
    | (true, packer) => { s with packer, pc := .tryRecv }
    | (false, packer) => { s with packer, pc := .retry packet }
  | .retry packet =>
    if s.packer.batch.isEmpty || taken then
      { s with packer := (s.packer.flush.push packet).2, pc := .tryRecv }
    else s
  | .flush =>
    if s.packer.batch.isEmpty || taken then { s with packer := s.packer.flush, pc := .drain } else s
  | .drain => if s.lock = none then { s with waiters := [], pc := .fire s.waiters } else s
  | .fire (callback :: rest) => { s with fired := s.fired ++ [callback], pc := .fire rest }
  | .fire [] => { s with pc := .recv }

/-! ## Waiting for a slot -/

def waiterStep (s : Outbound) (n : ℕ) : WaiterPc → Outbound × WaiterPc
  | .lock => if s.lock = none then ({ s with lock := some n }, .check) else (s, .lock)
  | .check => if s.capacity > 0 then ({ s with lock := none }, .fire) else (s, .park)
  | .park => ({ s with waiters := s.waiters ++ [n], lock := none }, .returned)
  | .fire => ({ s with fired := s.fired ++ [n] }, .returned)
  | .returned => (s, .returned)

def callStep (s : Outbound) (n : ℕ) : Outbound :=
  match s.calls[n]? with
  | some pc =>
    let (s, pc) := s.waiterStep n pc
    { s with calls := s.calls.set n pc }
  | none => s

/-- The next frame reaches the peer, which unpacks it. -/
def deliver (s : Outbound) : Outbound :=
  match s.packer.frames[s.received]? with
  | some frame =>
    { s with
      received := s.received + 1
      dispatched := s.dispatched ++ unpack frame
      handed := s.handed ++ (unpack frame).filterMap dispatchPayload }
  | none => s

end Outbound

/-! ## Runs -/

inductive SendMove
  | sendIp (ip : Bytes)
  | sendRawFrame (buf : Bytes)
  | land (i : ℕ)
  | sender (taken : Bool)
  | onSendDrained
  | call (n : ℕ)
  | deliver
  deriving DecidableEq, Repr

namespace Outbound

def step (s : Outbound) : SendMove → Outbound
  | .sendIp ip => (s.sendIp ip).toOption.getD s
  | .sendRawFrame buf => (s.sendRawFrame buf).toOption.getD s
  | .land i => s.land i
  | .sender taken => s.senderStep taken
  | .onSendDrained => { s with calls := s.calls ++ [.lock] }
  | .call n => s.callStep n
  | .deliver => s.deliver

def run (s : Outbound) (ms : List SendMove) : Outbound := ms.foldl step s

/-! ## What a send changes -/

theorem sendRawFrame_ok {s s' : Outbound} {buf : Bytes} (h : s.sendRawFrame buf = .ok s') :
    buf ≠ [] ∧ s' = { s with sending := s.sending ++ [buf] } := by
  unfold sendRawFrame at h
  split at h
  · cases h
  rename_i hvalid
  split at h
  · cases h
  split at h
  · cases h
  refine ⟨?_, (Except.ok.inj h).symm⟩
  rintro rfl
  simp at hvalid

theorem sendIp_ok {s s' : Outbound} {ip : Bytes} (h : s.sendIp ip = .ok s') :
    s' = { s with sending := s.sending ++ [FRAME_TYPE_IP :: ip] } := by
  unfold sendIp at h
  split at h
  · cases h
  split at h
  · cases h
  exact (sendRawFrame_ok h).2

theorem getD_cases {s : Outbound} {r : Except SendError Outbound} {buf : Bytes}
    (h : ∀ s', r = .ok s' → buf ≠ [] ∧ s' = { s with sending := s.sending ++ [buf] }) :
    r.toOption.getD s = s ∨
      buf ≠ [] ∧ r.toOption.getD s = { s with sending := s.sending ++ [buf] } := by
  cases r with
  | error e => exact .inl rfl
  | ok s' => exact .inr (h s' rfl)

theorem step_sendRawFrame (s : Outbound) (buf : Bytes) : s.step (.sendRawFrame buf) = s ∨
    buf ≠ [] ∧ s.step (.sendRawFrame buf) = { s with sending := s.sending ++ [buf] } :=
  getD_cases fun _ => sendRawFrame_ok

theorem step_sendIp (s : Outbound) (ip : Bytes) : s.step (.sendIp ip) = s ∨
    FRAME_TYPE_IP :: ip ≠ [] ∧
      s.step (.sendIp ip) = { s with sending := s.sending ++ [FRAME_TYPE_IP :: ip] } :=
  getD_cases fun _ h => ⟨by simp, sendIp_ok h⟩

end Outbound

end BaleVpn.Carrier
