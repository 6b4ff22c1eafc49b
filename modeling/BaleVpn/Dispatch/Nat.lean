import BaleVpn.Dispatch.Fragment
import BaleVpn.Tcp.Dispatcher
import BaleVpn.Tcp.Emissions

/-!
# The userspace NAT (`nat/dispatcher.rs`, `nat/udp_session.rs`)

`NatDispatcher` with its three tables: `process`, the host-socket events and `sweep_idle`. A UDP
session is its key and the time it was last active; the replies of its socket and the counters are
left out. No host socket is connected to a destination that `is_blocked_dst` refuses.
-/

namespace BaleVpn.Dispatch

open Net Tcp

/-! ## UDP -/

structure UdpSession where
  key : FlowKey
  lastActiveMs : UInt32
  deriving DecidableEq

/-- Result of `connect` on a UDP socket. -/
inductive UdpConnect
  | ok | wouldBlock | err
  deriving DecidableEq, Repr

/-- What one packet gets from the outside: an `Oracle`, the choice between equally old fragment
streams, and the results of `bind` and `connect` for a UDP socket. -/
structure NatOracle extends Oracle where
  tie : ℕ := 0
  udpBind : Bool := true
  udpConnect : UdpConnect := .ok

/-- The outside once one reading of the clock is used. -/
def NatOracle.later (o : NatOracle) : NatOracle := { o with clock := fun i => o.clock (i + 1) }

inductive UdpAction
  | connect (k : FlowKey)
  | send (k : FlowKey) (payload : Bytes)
  deriving DecidableEq

/-- `UdpSession::open`. A `connect` that would block counts as done. -/
def UdpSession.openHost (s : UdpSession) (o : NatOracle) : Bool × List UdpAction :=
  if !s.key.dst.isV4 then (false, [])
  else if isBlockedDst (.v4 s.key.dst.toIpv4) then (false, [])
  else if !o.udpBind then (false, [])
  else (o.udpConnect != .err, [.connect s.key])

def UdpSession.send (s : UdpSession) (payload : Bytes) (now : UInt32) : UdpSession × UdpAction :=
  ({ s with lastActiveMs := now }, .send s.key payload)

abbrev UdpTable := FlowKey → Option UdpSession

def handleUdp (t : UdpTable) (k : FlowKey) (payload : Bytes) (o : NatOracle) :
    Bool × UdpTable × List UdpAction :=
  match t k with
  | some s =>
    let (s, a) := s.send payload (o.clock 0)
    (true, Function.update t k (some s), [a])
  | none =>
    let s : UdpSession := ⟨k, o.clock 0⟩
    let (ok, acts) := s.openHost o
    if !ok then (false, t, acts)
    else
      let (s, a) := s.send payload (o.clock 1)
      (true, Function.update t k (some s), acts ++ [a])

/-! ## The dispatcher -/

structure NatDispatcher where
  tcp : TcpTable := fun _ => none
  udp : UdpTable := fun _ => none
  frag : FragTable := []

/-- What the dispatcher does to the outside: each TCP flow's actions and the UDP sockets' calls. -/
structure NatLog where
  tcp : FlowKey → List Action := fun _ => []
  udp : List UdpAction := []

/-- What the session of flow `k` does on an event of the table. -/
def tcpActs (t : TcpTable) (k : FlowKey) : TableEvent → List Action
  | .segment k' seg o =>
    if k' != k || seg.length < 20 then []
    else match t k with
      | some c => newActs c ((c.load o).onSegment seg).2
      | none =>
        if !hasFlag (TcpHeader.flags seg) TCP_SYN || hasFlag (TcpHeader.flags seg) TCP_ACK then []
        else ((Ctx.load { s := .new k } o).onSegment seg).2.io.trace
  | .host k' ev o =>
    if k' != k then []
    else match t k with
      | some c => newActs c ((c.load o).onHostEvent ev)
      | none => []
  | .sweep now grew o =>
    match t k with
    | some c =>
      let c₁ := c.load (o k)
      newActs c ((if grew then c₁.fanOutWindowUpdate else c₁).tick now).2
    | none => []

namespace NatDispatcher

/-- The calls of `handle_udp` and `handle_tcp`. -/
def call (n : NatDispatcher) (o : NatOracle) : L4Call → Bool × NatDispatcher × NatLog
  | .udp k payload =>
    let (ok, udp, acts) := handleUdp n.udp k payload o
    (ok, { n with udp }, { udp := acts })
  | .tcp k seg =>
    let (ok, tcp) := handleTcp n.tcp k seg o.toOracle
    (ok, { n with tcp }, { tcp := fun k' => tcpActs n.tcp k' (.segment k seg o.toOracle) })

def route (n : NatDispatcher) (o : NatOracle) : Routed → Bool × NatDispatcher × NatLog
  | .refused => (false, n, {})
  | .ignored => (true, n, {})
  | .call c => n.call o c

def process (n : NatDispatcher) (bytes : Bytes) (o : NatOracle) : Bool × NatDispatcher × NatLog :=
  match IpPacket.parse bytes with
  | none => (false, n, {})
  | some p =>
    if p.isFragment then
      match handleFragment n.frag p (o.clock 0) o.tie with
      | (frag, .refused) => (false, { n with frag }, {})
      | (frag, .held) => (true, { n with frag }, {})
      | (frag, .rebuilt p) => route { n with frag } o.later (routeL4 p)
    else n.route o (routeL4 p)

def onHostEvent (n : NatDispatcher) (k : FlowKey) (ev : HostEvent) (o : Oracle) :
    NatDispatcher × NatLog :=
  ({ n with tcp := n.tcp.onHostEvent k ev o }, { tcp := fun k' => tcpActs n.tcp k' (.host k ev o) })

/-- `sweep_idle`; `grew` is the answer of the window scale's update. -/
def sweepIdle (n : NatDispatcher) (now udpIdleMs : UInt32) (grew : Bool) (o : FlowKey → Oracle) :
    NatDispatcher × NatLog :=
  ({ tcp := n.tcp.sweepIdle now grew o
     udp := fun k => (n.udp k).filter fun s => now - s.lastActiveMs ≤ udpIdleMs
     frag := n.frag.sweep now },
    { tcp := fun k => tcpActs n.tcp k (.sweep now grew o) })

end NatDispatcher

/-! ## Destinations of host sockets -/

/-- The policy lets host sockets connect to the destination of `k`. -/
def Allowed (k : FlowKey) : Prop := isBlockedDst (.v4 k.dst.toIpv4) = false

/-- A session of flow `k` opens its socket only if the policy allows it. -/
def OpensAllowed (k : FlowKey) (v : View) : Prop := v.key = k ∧ (.hostOpen ∈ v.trace → Allowed k)

def NotOpen (a : Action) : Prop := a ≠ .hostOpen

theorem OpensAllowed.adds {k : FlowKey} {v v' : View} (h : OpensAllowed k v) (hkey : v'.key = v.key)
    (hadds : Adds v.trace v'.trace NotOpen) : OpensAllowed k v' := by
  obtain ⟨acts, htrace, hacts⟩ := hadds
  refine ⟨hkey.trans h.1, fun hmem => h.2 ?_⟩
  rw [htrace] at hmem
  obtain hmem | hmem := List.mem_append.mp hmem
  · exact hmem
  · exact absurd rfl (hacts _ hmem)

theorem armActs_notOpen (rto d : UInt32) : ∀ a ∈ armActs rto d, NotOpen a := by
  intro a ha
  rw [mem_armActs ha]
  exact nofun

theorem Sender.notOpen {v v' : View} (h : Sender v v') : Adds v.trace v'.trace NotOpen := by
  cases h with
  | resend h =>
    cases h with
    | disarm _ => exact .none
    | arm | ackOut | retransmit => exact .one nofun
  | refuse hk hf hb => exact .one nofun
  | send d hk hf hb => exact ⟨_, rfl, List.forall_mem_cons.mpr ⟨nofun, armActs_notOpen _ _⟩⟩
  | ackIn a popped rest hq hhi hlo hp hr =>
    refine ⟨_, rfl, fun x hx => ?_⟩
    obtain ⟨e, -, rfl⟩ := List.mem_map.mp hx
    exact nofun

theorem HostSide.notOpen {a : Action} (h : a.HostSide) : NotOpen a := by
  rintro rfl
  cases h

theorem opensAllowed_stable (k : FlowKey) : Stable (OpensAllowed k) where
  micro {v _} h hv := by
    cases h with
    | sender h => exact hv.adds h.frame.key (Sender.notOpen h)
    | finLost acts hs he hd hf ha =>
      obtain ⟨-, rfl⟩ | ⟨pkt, -, rfl⟩ := ha
      · exact hv.adds rfl ⟨[], rfl, by simp⟩
      · exact hv.adds rfl (.one nofun)
    | fin d hs he hd hf hb =>
      exact hv.adds rfl ⟨_, rfl, List.forall_mem_cons.mpr ⟨nofun, armActs_notOpen _ _⟩⟩
    | eof a ha => obtain rfl | rfl := ha <;> exact hv.adds rfl (.one nofun)
    | openHost _ hallowed =>
      obtain ⟨rfl, -⟩ := hv
      exact ⟨rfl, fun _ => hallowed⟩
    | read | shutdownWr => exact hv.adds rfl (.one nofun)
    | clear | pause | window | establish | finIn | settle => exact hv.adds rfl .none
  host h hx := hx.adds h.frame.key (h.adds.mono fun _ => HostSide.notOpen)
  wake _ hv := hv
  rst x acts h hx := hx.adds rfl ⟨acts, rfl, fun a ha => HostSide.notOpen (h.hostSide a ha)⟩
  closed x hx := hx.adds rfl ((closed_adds x).mono fun _ => HostSide.notOpen)
  timeWait v acts h hv := by
    obtain rfl | ⟨s, -, rfl⟩ := h
    · exact hv.adds rfl ⟨[], rfl, by simp⟩
    · exact hv.adds rfl (.one nofun)

/-- A SYN restarts a closed session without opening a socket. -/
theorem acceptInitialSyn_opens {k : FlowKey} {c : Ctx} (h : OpensAllowed k c.view) (seg : Bytes) :
    OpensAllowed k (c.acceptInitialSyn seg).2.view := by
  unfold Ctx.acceptInitialSyn
  simp only
  split
  · exact h
  · obtain ⟨opts, n, -, hopts⟩ := synAckOptions_spec (c.prepareSyn seg)
    have hprep : OpensAllowed k ({ c.prepareSyn seg with io.readings := n } : Ctx).view := by
      obtain ⟨isn, peer, hread, -⟩ := readSyn_view c seg
      have hkey : (c.readSyn seg).view.key = c.view.key := by rw [hread]
      have htrace : (c.readSyn seg).view.trace = c.view.trace := by rw [hread]
      exact h.adds hkey ⟨[], by rw [List.append_nil]; exact htrace, by simp⟩
    rw [hopts]
    simp only
    generalize ({ c.prepareSyn seg with io.readings := n } : Ctx) = c₁ at hprep ⊢
    obtain ⟨s, b, -, -, hem⟩ :=
      emitSegment_emitted c₁ .synAck (TCP_SYN ||| TCP_ACK) c₁.s.sndUna [] true opts
    unfold Ctx.sendSynAck
    generalize c₁.emitSegment .synAck (TCP_SYN ||| TCP_ACK) c₁.s.sndUna [] true opts = r at hem ⊢
    obtain ⟨ok, c₂⟩ := r
    have hsent : OpensAllowed k c₂.view := by
      generalize c₂.view = v at hem ⊢
      cases hem with
      | unbuilt => exact hprep
      | refused | passed => exact hprep.adds rfl (.one nofun)
      | recorded d _ _ =>
        exact hprep.adds rfl ⟨_, List.append_assoc _ _ _,
          List.forall_mem_cons.mpr ⟨nofun, armActs_notOpen _ _⟩⟩
    exact hsent.adds rfl (.one nofun)

theorem onSegment_opens {k : FlowKey} {c : Ctx} (h : OpensAllowed k c.view) (seg : Bytes) :
    OpensAllowed k (c.onSegment seg).2.view := by
  by_cases hclosed : c.s.state = .closed
  · unfold Ctx.onSegment
    split
    · exact h
    · simp only
      split
      · exact h
      · have hview := preprocess_view c ((seg.take (TcpHeader.dataOff seg)).drop 20)
          (TcpHeader.seq seg)
        generalize c.preprocess ((seg.take (TcpHeader.dataOff seg)).drop 20) (TcpHeader.seq seg) = c₁
          at hview ⊢
        have h₁ : OpensAllowed k c₁.view := by rw [hview]; exact h
        have hstate : c₁.s.state = .closed :=
          (congrArg (fun v : View => v.state) hview).trans hclosed
        rw [hstate]
        split
        · exact (opensAllowed_stable k).markClosed c₁ h₁
        · exact acceptInitialSyn_opens h₁ seg
  · exact (opensAllowed_stable k).outcome (onSegment_outcome c hclosed seg) h

theorem mem_newActs {c c' : Ctx} {a : Action} (h : a ∈ newActs c c') : a ∈ c'.io.trace :=
  List.mem_of_mem_drop h

/-! ## The dispatcher keeps to the policy -/

def TableGuarded (t : TcpTable) : Prop := ∀ k c, t k = some c → OpensAllowed k c.view

def LogGuarded (l : NatLog) : Prop :=
  (∀ k, .hostOpen ∈ l.tcp k → Allowed k) ∧ ∀ k, .connect k ∈ l.udp → Allowed k

theorem new_opens (k : FlowKey) (o : Oracle) : OpensAllowed k (Ctx.load { s := .new k } o).view :=
  ⟨rfl, nofun⟩

theorem sweep_opens {k : FlowKey} {c : Ctx} (h : OpensAllowed k c.view) (now : UInt32) (grew : Bool) :
    OpensAllowed k ((if grew then c.fanOutWindowUpdate else c).tick now).2.view := by
  have hfan : OpensAllowed k (if grew then c.fanOutWindowUpdate else c).view := by
    split
    · exact (opensAllowed_stable k).kept.path (fanOutWindowUpdate_path c) h
    · exact h
  exact (opensAllowed_stable k).outcome (tick_outcome _ now) hfan

theorem tcpActs_allowed {t : TcpTable} (h : TableGuarded t) {k : FlowKey} {e : TableEvent}
    (hopen : .hostOpen ∈ tcpActs t k e) : Allowed k := by
  unfold tcpActs at hopen
  cases e with
  | segment k' seg o =>
    simp only at hopen
    split at hopen
    · cases hopen
    · split at hopen
      · rename_i c hmem
        exact (@onSegment_opens k (c.load o) (h k c hmem) seg).2 (mem_newActs hopen)
      · split at hopen
        · cases hopen
        · exact (onSegment_opens (new_opens k o) seg).2 hopen
  | host k' ev o =>
    simp only at hopen
    split at hopen
    · cases hopen
    · split at hopen
      · rename_i c hmem
        have hout := onHostEvent_outcome (c.load o) ev
        exact ((opensAllowed_stable k).outcome hout (h k c hmem)).2 (mem_newActs hopen)
      · cases hopen
  | sweep now grew o =>
    simp only at hopen
    split at hopen
    · rename_i c hmem
      exact (@sweep_opens k (c.load (o k)) (h k c hmem) now grew).2 (mem_newActs hopen)
    · cases hopen

theorem TableGuarded.set {t : TcpTable} (h : TableGuarded t) {k : FlowKey} {e : Option Ctx}
    (he : ∀ c, e = some c → OpensAllowed k c.view) : TableGuarded (t.set k e) := by
  intro k' c hmem
  unfold TcpTable.set at hmem
  split at hmem
  · rename_i hk
    rw [hk]
    exact he c hmem
  · exact h k' c hmem

theorem TableGuarded.deliver {t : TcpTable} (h : TableGuarded t) {k : FlowKey} {c : Ctx}
    (hc : OpensAllowed k c.view) (seg : Bytes) : TableGuarded (t.deliver k seg c).2 := by
  have hseg := onSegment_opens hc seg
  unfold TcpTable.deliver
  generalize c.onSegment seg = r at hseg ⊢
  obtain ⟨ok, c₁⟩ := r
  refine h.set fun c₂ hc₂ => ?_
  split at hc₂
  · cases hc₂
  · obtain rfl := Option.some.inj hc₂
    exact hseg

theorem step_guarded {t : TcpTable} (h : TableGuarded t) (e : TableEvent) :
    TableGuarded (t.step e) := by
  cases e with
  | segment k seg o =>
    show TableGuarded (handleTcp t k seg o).2
    unfold handleTcp
    split
    · exact h
    · split
      · rename_i c hmem
        exact h.deliver (c := c.load o) (h k c hmem) seg
      · split
        · exact h
        · exact h.deliver (new_opens k o) seg
  | host k ev o =>
    show TableGuarded (t.onHostEvent k ev o)
    unfold TcpTable.onHostEvent
    split
    · rename_i c hmem
      refine h.set fun c₁ hc₁ => ?_
      obtain rfl := Option.some.inj hc₁
      exact (opensAllowed_stable k).outcome (onHostEvent_outcome (c.load o) ev) (h k c hmem)
    · exact h
  | sweep now grew o =>
    intro k c hmem
    obtain ⟨c₀, hmem₀, hsweep⟩ := Option.bind_eq_some_iff.mp hmem
    have hopens := @sweep_opens k (c₀.load (o k)) (h k c₀ hmem₀) now grew
    unfold sweepSession at hsweep
    simp only at hsweep
    generalize Ctx.tick _ now = r at hopens hsweep
    obtain ⟨alive, c₁⟩ := r
    split at hsweep
    · obtain rfl := Option.some.inj hsweep
      exact hopens
    · cases hsweep

theorem openHost_allowed (s : UdpSession) (o : NatOracle) {a : UdpAction}
    (h : a ∈ (s.openHost o).2) : a = .connect s.key ∧ Allowed s.key := by
  unfold UdpSession.openHost at h
  split at h
  · cases h
  · split at h
    · cases h
    · rename_i hallowed
      split at h
      · cases h
      · exact ⟨List.mem_singleton.mp h, Bool.eq_false_iff.mpr hallowed⟩

theorem handleUdp_allowed {t : UdpTable} {k k' : FlowKey} {payload : Bytes} {o : NatOracle}
    (h : .connect k' ∈ (handleUdp t k payload o).2.2) : Allowed k' := by
  have hopen : .connect k' ∈ (UdpSession.openHost ⟨k, o.clock 0⟩ o).2 → Allowed k' := by
    intro hmem
    obtain ⟨hk, hallowed⟩ := openHost_allowed _ _ hmem
    obtain rfl : k' = k := UdpAction.connect.inj hk
    exact hallowed
  unfold handleUdp at h
  split at h
  · exact absurd (List.mem_singleton.mp h) nofun
  · simp only at h
    split at h
    · exact hopen h
    · obtain h | h := List.mem_append.mp h
      · exact hopen h
      · exact absurd (List.mem_singleton.mp h) nofun

/-- Whatever packet arrives, no host socket is connected to a blocked destination. -/
theorem process_guarded {n : NatDispatcher} (h : TableGuarded n.tcp) (bytes : Bytes) (o : NatOracle) :
    TableGuarded (n.process bytes o).2.1.tcp ∧ LogGuarded (n.process bytes o).2.2 := by
  have hnone : LogGuarded {} := ⟨fun _ => nofun, fun _ => nofun⟩
  have hroute : ∀ (n : NatDispatcher) (o : NatOracle) (r : Routed), TableGuarded n.tcp →
      TableGuarded (n.route o r).2.1.tcp ∧ LogGuarded (n.route o r).2.2 := by
    intro n o r h
    cases r with
    | refused | ignored => exact ⟨h, hnone⟩
    | call c =>
      cases c with
      | udp k payload => exact ⟨h, fun _ => nofun, fun _ => handleUdp_allowed⟩
      | tcp k seg =>
        exact ⟨step_guarded h (.segment k seg o.toOracle),
          fun k' => @tcpActs_allowed _ h k' (.segment k seg o.toOracle), fun _ => nofun⟩
  unfold NatDispatcher.process
  split
  · exact ⟨h, hnone⟩
  · split
    · split
      · exact ⟨h, hnone⟩
      · exact ⟨h, hnone⟩
      · exact hroute _ _ _ h
    · exact hroute _ _ _ h

end BaleVpn.Dispatch
