import BaleVpn.Net.RoundTrip
import BaleVpn.Tcp.Reach

/-!
# What a session emits

Every packet handed to the emit callback, in every run, is one of the six kinds of `Emission`,
framed from the session as it stood at that moment.
-/

namespace BaleVpn.Tcp

open Net Relation

/-! ## The shape of a segment -/

theorem ChunkOf.bounds {cause : Cause} {s : TcpSession} {chunk : ℕ} (h : ChunkOf cause s chunk) :
    chunk ≤ s.peerMss.toNat ∧ chunk ≤ s.pending := by
  cases cause with
  | data => have := h.2.2; omega
  | limitedTransmit => have := h.2.2; omega
  | _ => exact h.2.elim

theorem next_length {cause : Cause} {s : TcpSession} {chunk : ℕ} (h : ChunkOf cause s chunk) :
    (s.toSendVars.next chunk).length = chunk := by
  have hpending := h.bounds.2
  unfold TcpSession.pending at hpending
  unfold SendVars.next
  rw [List.length_take, List.length_drop]
  omega

theorem TsBytes.length {peer : PeerOpts} {flags : UInt8} {ts : Bytes} (h : TsBytes peer flags ts) :
    ts.length = if peer.peerTsOk && !hasFlag flags TCP_SYN then 12 else 0 := by
  unfold TsBytes at h
  split at h
  · rename_i hts
    obtain ⟨v, e, rfl⟩ := h
    simp [hts, TcpSession.tsOption, putBe32]
  · rename_i hts
    simp [hts, h]

theorem Framed.builds {v : Core} {flags : UInt8} {seq : UInt32} {payload options : Bytes}
    {s : TcpSession} {b : TcpBuild} (h : Framed v flags seq payload options s b)
    (hkey : v.key.IsV4) (ho : options.length % 4 = 0)
    (hlen : options.length + payload.length ≤ 1500) : ∃ pkt, buildTcp 1564 b = some pkt := by
  obtain ⟨rfl, ts, hts, rfl⟩ := h
  have hts12 : ts.length = 12 ∨ ts.length = 0 := by
    rw [hts.length]
    split <;> simp
  apply buildTcp_eq_some hkey.2 hkey.1
  · simp only [TcpSession.header, List.length_append]
    omega
  · simp only [TcpSession.header, List.length_append]
    omega
  · decide

/-! ## Kinds of segments -/

/-- A segment with its timestamps, built from the session `s`. -/
def FramedBy (s : TcpSession) (flags : UInt8) (seq : UInt32) (payload options : Bytes)
    (b : TcpBuild) : Prop :=
  ∃ ts, TsBytes s.toPeerOpts flags ts ∧
    b = s.header flags seq s.rcvNxt s.advWnd.toUInt16 (options ++ ts) payload

theorem Framed.by {v : Core} {flags : UInt8} {seq : UInt32} {payload options : Bytes}
    {s : TcpSession} {b : TcpBuild} (h : Framed v flags seq payload options s b) :
    FramedBy s flags seq payload options b := by
  obtain ⟨rfl, ts, hts, hb⟩ := h
  exact ⟨ts, hts, hb⟩

theorem Framed.sndNxt {v : Core} {flags : UInt8} {seq : UInt32} {payload options : Bytes}
    {s : TcpSession} {b : TcpBuild} (h : Framed v flags seq payload options s b) :
    v.send.sndNxt = s.sndNxt := by
  obtain ⟨rfl, -⟩ := h
  rfl

/-- How a packet of the session comes about. -/
inductive Emission (s : TcpSession) (b : TcpBuild) : Cause → Prop
  | synAck {opts : Bytes} (ho : SynOptions opts)
      (hf : FramedBy s (TCP_SYN ||| TCP_ACK) s.sndUna [] opts b) : Emission s b .synAck
  | data {cause : Cause} {chunk : ℕ} (hk : ChunkOf cause s chunk)
      (hf : FramedBy s (TCP_ACK ||| TCP_PSH) s.sndNxt (s.toSendVars.next chunk) [] b) :
      Emission s b cause
  | fin (hf : FramedBy s (TCP_FIN ||| TCP_ACK) s.sndNxt [] [] b) : Emission s b .fin
  | ack {cause : Cause} (hc : cause = .ack ∨ cause = .zwpProbe)
      (hf : FramedBy s TCP_ACK s.sndNxt [] s.buildSackOption b) : Emission s b cause
  | retx {cause : Cause} {e : OutSeg} (hc : cause.isRetx = true) (he : e ∈ s.core.queue)
      (hf : FramedBy s e.flags e.seq e.data e.options b) : Emission s b cause
  | rst (hb : b = s.header (TCP_RST ||| TCP_ACK) s.sndNxt s.rcvNxt 0 [] []) : Emission s b .rst

/-- An emission is one of them, and its packet was built from it. -/
def Action.Legit : Action → Prop
  | .emit cause s b pkt _ => Emission s b cause ∧ ∃ outLen, buildTcp outLen b = some pkt
  | _ => True

/-- First transmissions of data. -/
def Cause.isFirst : Cause → Bool
  | .data | .limitedTransmit => true
  | _ => false

/-- Actions that leave the stream from the host to the client where it is: neither its bytes, nor
its end, nor their first transmission or their acknowledgement. -/
def Action.quiet : Action → Bool
  | .emit cause _ _ _ _ => !cause.isFirst && cause != .fin
  | .read _ | .readEof | .hostClosed | .popRetx _ => false
  | _ => true

def Action.isRst : Action → Bool
  | .emit .rst _ _ _ _ => true
  | _ => false

/-- A legitimate action outside the stream. -/
def Action.Aside (a : Action) : Prop := a.Legit ∧ a.quiet = true

/-- The actions a step adds to the trace. -/
def Adds (t t' : List Action) (P : Action → Prop) : Prop := ∃ acts, t' = t ++ acts ∧ ∀ a ∈ acts, P a

/-- What the session did from `c` to `c'`. -/
def newActs (c c' : Ctx) : List Action := c'.io.trace.drop c.io.trace.length

theorem newActs_append {c c' : Ctx} {acts : List Action} (h : c'.io.trace = c.io.trace ++ acts) :
    newActs c c' = acts := by
  rw [newActs, h, List.drop_left]

theorem newActs_closed {c : Ctx} (h : c.s.state = .closed) (i : Input) : newActs c (c.step i) = [] := by
  rw [step_closed h, newActs, List.drop_length]

theorem Adds.none {t : List Action} {P : Action → Prop} : Adds t t P :=
  ⟨[], (List.append_nil t).symm, by simp⟩

theorem Adds.one {t : List Action} {a : Action} {P : Action → Prop} (h : P a) : Adds t (t ++ [a]) P :=
  ⟨[a], rfl, by simpa using h⟩

theorem Adds.mono {t t' : List Action} {P Q : Action → Prop} (h : Adds t t' P)
    (hpq : ∀ a, P a → Q a) : Adds t t' Q := by
  obtain ⟨acts, heq, hacts⟩ := h
  exact ⟨acts, heq, fun a ha => hpq a (hacts a ha)⟩

theorem Adds.trans {t t' t'' : List Action} {P : Action → Prop} (h : Adds t t' P)
    (h' : Adds t' t'' P) : Adds t t'' P := by
  obtain ⟨acts, rfl, hacts⟩ := h
  obtain ⟨acts', rfl, hacts'⟩ := h'
  exact ⟨acts ++ acts', List.append_assoc _ _ _, fun a ha =>
    (List.mem_append.mp ha).elim (hacts a) (hacts' a)⟩

theorem mem_armActs {rto d : UInt32} {a : Action} (h : a ∈ armActs rto d) : a = .armRto d := by
  unfold armActs at h
  split at h
  · exact List.mem_singleton.mp h
  · cases h

theorem armActs_aside (rto d : UInt32) : ∀ a ∈ armActs rto d, a.Aside := by
  intro a ha
  rw [mem_armActs ha]
  exact ⟨trivial, rfl⟩

theorem Resend.adds {v v' : View} (h : Resend v v') : Adds v.trace v'.trace Action.Aside := by
  cases h with
  | arm d => exact .one ⟨trivial, rfl⟩
  | disarm _ => exact .none
  | ackOut ok hc hf hb =>
    have hby := hf.by
    rw [hf.sndNxt] at hby
    refine .one ⟨⟨.ack hc hby, _, hb⟩, ?_⟩
    obtain rfl | rfl := hc <;> rfl
  | @retransmit cause s b pkt e ok hc he hf hb =>
    refine .one ⟨⟨.retx hc (hf.snap ▸ he) hf.by, _, hb⟩, ?_⟩
    cases cause <;> first | rfl | cases hc

theorem Sender.adds {v v' : View} (h : Sender v v') : Adds v.trace v'.trace Action.Legit := by
  cases h with
  | resend h => exact h.adds.mono fun _ ha => ha.1
  | refuse hk hf hb =>
    have hby := hf.by
    rw [← hf.snap] at hby
    exact .one ⟨.data hk hby, _, hb⟩
  | send d hk hf hb =>
    have hby := hf.by
    rw [← hf.snap] at hby
    exact ⟨_, rfl, List.forall_mem_cons.mpr ⟨⟨.data hk hby, _, hb⟩,
      fun a ha => (armActs_aside _ _ a ha).1⟩⟩
  | ackIn a popped rest hq hhi hlo hp hr =>
    refine ⟨_, rfl, ?_⟩
    intro x hx
    obtain ⟨e, -, rfl⟩ := List.mem_map.mp hx
    trivial

theorem Micro.adds {v v' : View} (h : Micro v v') : Adds v.trace v'.trace Action.Legit := by
  cases h with
  | sender h => exact h.adds
  | finLost acts hs he hd hf ha =>
    have hby := hf.by
    rw [show v.send.sndNxt = _ from hf.sndNxt] at hby
    obtain ⟨-, rfl⟩ | ⟨pkt, hb, rfl⟩ := ha
    · exact ⟨[], rfl, by simp⟩
    · exact .one ⟨.fin hby, _, hb⟩
  | fin d hs he hd hf hb =>
    have hby := hf.by
    rw [show v.send.sndNxt = _ from hf.sndNxt] at hby
    exact ⟨_, rfl, List.forall_mem_cons.mpr ⟨⟨.fin hby, _, hb⟩,
      fun a ha => (armActs_aside _ _ a ha).1⟩⟩
  | read data hh hd => exact .one trivial
  | eof a ha => obtain rfl | rfl := ha <;> exact .one trivial
  | openHost _ _ => exact .one trivial
  | shutdownWr => exact .one trivial
  | clear | pause | window | establish | finIn | settle => exact .none

/-! ## Towards the host -/

/-- What concerns the host's writes and the close of the session. -/
def Action.towardsHost : Action → Bool
  | .enqueue _ | .write _ | .writeZero | .writeBlocked | .writeErr | .dropHost _ | .markClosed => true
  | _ => false

theorem armActs_towardsHost (rto d : UInt32) : ∀ a ∈ armActs rto d, a.towardsHost = false := by
  intro a ha
  rw [mem_armActs ha]
  rfl

theorem Sender.towardsHost {v v' : View} (h : Sender v v') :
    Adds v.trace v'.trace fun a => a.towardsHost = false := by
  cases h with
  | resend h =>
    cases h with
    | disarm _ => exact .none
    | arm | ackOut | retransmit => exact .one rfl
  | refuse hk hf hb => exact .one rfl
  | send d hk hf hb => exact ⟨_, rfl, List.forall_mem_cons.mpr ⟨rfl, armActs_towardsHost _ _⟩⟩
  | ackIn a popped rest hq hhi hlo hp hr =>
    refine ⟨_, rfl, fun x hx => ?_⟩
    obtain ⟨e, -, rfl⟩ := List.mem_map.mp hx
    rfl

theorem Micro.towardsHost {v v' : View} (h : Micro v v') :
    Adds v.trace v'.trace fun a => a.towardsHost = false := by
  cases h with
  | sender h => exact h.towardsHost
  | finLost acts hs he hd hf ha =>
    obtain ⟨-, rfl⟩ | ⟨pkt, -, rfl⟩ := ha
    · exact ⟨[], rfl, by simp⟩
    · exact .one rfl
  | fin d hs he hd hf hb =>
    exact ⟨_, rfl, List.forall_mem_cons.mpr ⟨rfl, armActs_towardsHost _ _⟩⟩
  | eof a ha => obtain rfl | rfl := ha <;> exact .one rfl
  | read | openHost | shutdownWr => exact .one rfl
  | clear | pause | window | establish | finIn | settle => exact .none

theorem Path.towardsHost {v v' : View} (h : Path v v') :
    Adds v.trace v'.trace fun a => a.towardsHost = false := by
  induction h with
  | refl => exact .none
  | tail _ hstep ih => exact ih.trans hstep.towardsHost

/-- What the session does towards the host, and what closing it does. -/
inductive Action.HostSide : Action → Prop
  | enqueue (data : Bytes) : HostSide (.enqueue data)
  | write (data : Bytes) : HostSide (.write data)
  | writeZero : HostSide .writeZero
  | writeBlocked : HostSide .writeBlocked
  | writeErr : HostSide .writeErr
  | dropHost (s : TcpSession) : HostSide (.dropHost s)
  | markClosed : HostSide .markClosed
  | rst {s : TcpSession} {b : TcpBuild} {pkt : Bytes} (ok : Bool)
      (hb : b = s.header (TCP_RST ||| TCP_ACK) s.sndNxt s.rcvNxt 0 [] [])
      (hpkt : buildTcp 64 b = some pkt) : HostSide (.emit .rst s b pkt ok)

theorem Action.HostSide.aside {a : Action} (h : a.HostSide) : a.Aside := by
  cases h with
  | rst ok hb hpkt => exact ⟨⟨.rst hb, _, hpkt⟩, rfl⟩
  | _ => exact ⟨trivial, rfl⟩

theorem RstActs.hostSide {s : TcpSession} {acts : List Action} (h : RstActs s acts) :
    ∀ a ∈ acts, a.HostSide := by
  obtain ⟨-, rfl⟩ | ⟨pkt, ok, hb, rfl⟩ := h
  · simp
  · intro a ha
    obtain rfl : a = _ := List.mem_singleton.mp ha
    exact .rst ok rfl hb

theorem dropActs_hostSide (s : TcpSession) : ∀ a ∈ dropActs s, a.HostSide := by
  intro a ha
  obtain ⟨rfl, -⟩ := mem_dropActs ha
  exact .dropHost s

theorem closed_adds (x : Obs) : Adds x.trace x.closed.trace Action.HostSide :=
  ⟨_, rfl, List.forall_mem_cons.mpr ⟨.markClosed, dropActs_hostSide _⟩⟩

theorem DrainStep.adds {x y : Obs} (h : DrainStep x y) : Adds x.trace y.trace Action.HostSide := by
  cases h with
  | clear => exact .none
  | write data rest _ => exact .one (.write data)
  | blocked => exact .one .writeBlocked
  | zero => exact .one .writeZero
  | fail acts h =>
    obtain ⟨closing, hclosing, hside⟩ := closed_adds ⟨x.s, x.trace ++ .writeErr :: acts⟩
    refine ⟨.writeErr :: acts ++ closing, by rw [hclosing, List.append_assoc], ?_⟩
    intro a ha
    obtain ha | ha := List.mem_append.mp ha
    · obtain rfl | ha := List.mem_cons.mp ha
      · exact .writeErr
      · exact h.hostSide a ha
    · exact hside a ha

theorem HostStep.adds {x y : Obs} (h : HostStep x y) : Adds x.trace y.trace Action.HostSide := by
  cases h with
  | book => exact .none
  | enqueue data => exact .one (.enqueue data)
  | drain h => exact h.adds

theorem HostPath.adds {x y : Obs} (h : HostPath x y) : Adds x.trace y.trace Action.HostSide := by
  induction h with
  | refl => exact .none
  | tail _ hstep ih => exact ih.trans hstep.adds

theorem timeWait_hostSide {v : View} {acts : List Action}
    (h : acts = [] ∨ ∃ s : TcpSession, s.core = { v.toCore with state := .timeWait } ∧
      acts = [.dropHost s]) : ∀ a ∈ acts, a.HostSide := by
  obtain rfl | ⟨s, -, rfl⟩ := h
  · simp
  · intro a ha
    obtain rfl : a = _ := List.mem_singleton.mp ha
    exact .dropHost s

theorem Adds.aside {t t' : List Action} (h : Adds t t' Action.HostSide) : Adds t t' Action.Aside :=
  h.mono fun _ ha => ha.aside

theorem Adds.all {t t' : List Action} {P : Action → Prop} (h : Adds t t' P) (ht : ∀ a ∈ t, P a) :
    ∀ a ∈ t', P a := by
  obtain ⟨acts, rfl, hacts⟩ := h
  intro a ha
  exact (List.mem_append.mp ha).elim (ht a) (hacts a)

theorem grows_stable (t : List Action) : Stable fun v => t <+: v.trace where
  micro h hv := by
    obtain ⟨acts, hacts, -⟩ := h.adds
    rw [hacts]
    exact hv.trans (List.prefix_append _ _)
  host h hx := by
    obtain ⟨acts, hacts, -⟩ := h.adds
    exact hx.trans ⟨acts, hacts.symm⟩
  wake _ hv := hv
  rst _ _ _ hx := hx.trans (List.prefix_append _ _)
  closed _ hx := hx.trans (List.prefix_append _ _)
  timeWait _ _ _ hv := hv.trans (List.prefix_append _ _)

theorem run_grows (c : Ctx) (inputs : List Input) : c.io.trace <+: (c.run inputs).io.trace :=
  (grows_stable c.io.trace).run (List.prefix_refl c.io.trace) inputs

theorem emissions_stable : Stable fun v => ∀ a ∈ v.trace, a.Legit where
  micro h := h.adds.all
  host h := (h.adds.mono fun _ ha => ha.aside.1).all
  wake _ := id
  rst _ acts h := Adds.all ⟨acts, rfl, fun a ha => (h.hostSide a ha).aside.1⟩
  closed x := ((closed_adds x).mono fun _ ha => ha.aside.1).all
  timeWait _ acts h := Adds.all ⟨acts, rfl, fun a ha => (timeWait_hostSide h a ha).aside.1⟩

theorem synAck_emission {key : FlowKey} {isn rcv wnd : UInt32} {peer : PeerOpts} {opts : Bytes}
    {s : TcpSession} {b : TcpBuild} (ho : SynOptions opts)
    (hf : Framed (synCore key isn rcv wnd peer) (TCP_SYN ||| TCP_ACK) isn [] opts s b) :
    Emission s b .synAck := by
  have huna : s.sndUna = isn := congrArg (fun v : Core => v.send.sndUna) hf.snap
  refine .synAck ho ?_
  rw [huna]
  exact hf.by

theorem Started.legit {key : FlowKey} {v : View} (h : Started key v) : ∀ a ∈ v.trace, a.Legit := by
  cases h with
  | lost acts d hp ho hf ha =>
    obtain ⟨-, rfl⟩ | ⟨pkt, hb, rfl⟩ := ha
    · simp [Action.Legit]
    · simpa [Action.Legit] using ⟨synAck_emission ho hf, _, hb⟩
  | sent d d' hp ho hf hb => simpa [Action.Legit] using ⟨synAck_emission ho hf, _, hb⟩

theorem Started.quiet {key : FlowKey} {v : View} (h : Started key v) :
    ∀ a ∈ v.trace, a.quiet = true := by
  cases h with
  | lost acts d hp ho hf ha =>
    obtain ⟨-, rfl⟩ | ⟨pkt, hb, rfl⟩ := ha
    · simp [Action.quiet]
    · simp [Action.quiet, Cause.isFirst]
  | sent d d' hp ho hf hb => simp [Action.quiet, Cause.isFirst]

theorem Started.towardsHost {key : FlowKey} {v : View} (h : Started key v) :
    ∀ a ∈ v.trace, a.towardsHost = false := by
  cases h with
  | lost acts d hp ho hf ha =>
    obtain ⟨-, rfl⟩ | ⟨pkt, hb, rfl⟩ := ha <;> simp [Action.towardsHost]
  | sent d d' hp ho hf hb => simp [Action.towardsHost]

/-- Every emission of every run is one of the six kinds. -/
theorem emission_of_reachable {key : FlowKey} {c : Ctx} (h : Reachable key c) :
    ∀ a ∈ c.io.trace, a.Legit :=
  emissions_stable.reachable (fun _ hs => hs.legit) h

end BaleVpn.Tcp
