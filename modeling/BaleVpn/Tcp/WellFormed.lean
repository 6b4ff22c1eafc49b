import BaleVpn.Tcp.Emissions

/-!
# Every packet reads back

The option area of an outgoing segment is put together in two places: `emit_ack` writes up to four
SACK blocks, 36 bytes, and `emit_segment` then appends 12 bytes of timestamps. With both negotiated
and four pieces out of order that is 48 bytes, and the header length no longer fits the data offset.
Every other segment reads back as it was built.
-/

namespace BaleVpn.Tcp

open Net

/-! ## Options of the retransmit queue -/

/-- Entries carry the options of a SYN-ACK at most; `a` retransmits such entries only. -/
def Action.ResendsShort : Action → Prop
  | .emit cause s _ _ _ => cause.isRetx = true → ∀ e ∈ s.core.queue, e.options.length ≤ 24
  | _ => True

structure ShortOptions (v : View) : Prop where
  queue : ∀ e ∈ v.queue, e.options.length ≤ 24
  trace : ∀ a ∈ v.trace, a.ResendsShort

theorem Action.ResendsShort.of_quiet {a : Action} (h : a.HostSide) : a.ResendsShort := by
  cases h with
  | rst => exact fun hc => by cases hc
  | _ => trivial

theorem ShortOptions.adds {v v' : View} (h : ShortOptions v) (hqueue : v'.queue = v.queue)
    (hadds : Adds v.trace v'.trace Action.ResendsShort) : ShortOptions v' :=
  ⟨hqueue ▸ h.queue, hadds.all h.trace⟩

theorem armActs_resendsShort (rto d : UInt32) : ∀ a ∈ armActs rto d, a.ResendsShort := by
  intro a ha
  rw [mem_armActs ha]
  trivial

theorem ShortOptions.push {v : View} (h : ShortOptions v) {e : OutSeg} (he : e.options = []) :
    ∀ x ∈ v.queue ++ [e], x.options.length ≤ 24 := by
  refine List.forall_mem_append.mpr ⟨h.queue, List.forall_mem_singleton.mpr ?_⟩
  rw [he]
  exact Nat.zero_le 24

theorem Resend.shortOptions {v v' : View} (h : Resend v v') (hv : ShortOptions v) :
    ShortOptions v' := by
  cases h with
  | arm d => exact hv.adds rfl (.one trivial)
  | disarm _ => exact hv.adds rfl .none
  | ackOut ok hc hf hb =>
    refine hv.adds rfl (.one fun hretx => ?_)
    obtain rfl | rfl := hc <;> cases hretx
  | retransmit ok hc he hf hb =>
    refine hv.adds rfl (.one fun _ => ?_)
    rw [hf.snap]
    exact hv.queue

theorem ChunkOf.not_retx {cause : Cause} {s : TcpSession} {chunk : ℕ} (h : ChunkOf cause s chunk) :
    cause.isRetx = false := by
  cases cause <;> first | rfl | exact h.2.elim

theorem Sender.shortOptions {v v' : View} (h : Sender v v') (hv : ShortOptions v) :
    ShortOptions v' := by
  cases h with
  | resend h => exact h.shortOptions hv
  | refuse hk hf hb =>
    refine hv.adds rfl (.one fun hretx => ?_)
    cases hk.not_retx.symm.trans hretx
  | send d hk hf hb =>
    refine ⟨hv.push rfl, Adds.all ⟨_, rfl, List.forall_mem_cons.mpr ⟨fun hretx => ?_, ?_⟩⟩ hv.trace⟩
    · cases hk.not_retx.symm.trans hretx
    · exact armActs_resendsShort _ _
  | ackIn a popped rest hq hhi hlo hp hr =>
    refine ⟨fun e he => hv.queue e ?_, Adds.all ⟨_, rfl, fun x hx => ?_⟩ hv.trace⟩
    · rw [hq]
      exact List.mem_append_right _ he
    · obtain ⟨e, -, rfl⟩ := List.mem_map.mp hx
      trivial

theorem Micro.shortOptions {v v' : View} (h : Micro v v') (hv : ShortOptions v) :
    ShortOptions v' := by
  cases h with
  | sender h => exact h.shortOptions hv
  | finLost acts hs he hd hf ha =>
    refine hv.adds rfl ?_
    obtain ⟨-, rfl⟩ | ⟨pkt, -, rfl⟩ := ha
    · exact ⟨[], rfl, by simp⟩
    · exact .one fun hretx => by cases hretx
  | fin d hs he hd hf hb =>
    refine ⟨hv.push rfl, Adds.all ⟨_, rfl, List.forall_mem_cons.mpr ⟨fun hretx => ?_, ?_⟩⟩ hv.trace⟩
    · cases hretx
    · exact armActs_resendsShort _ _
  | eof a ha => obtain rfl | rfl := ha <;> exact hv.adds rfl (.one trivial)
  | read | openHost | shutdownWr => exact hv.adds rfl (.one trivial)
  | clear | pause | window | establish | finIn | settle => exact hv.adds rfl .none

theorem shortOptions_stable : Stable ShortOptions where
  micro h hv := h.shortOptions hv
  wake _ hv := hv.adds rfl .none
  host {x y} h hx := by
    have hqueue : y.view.queue = x.view.queue := congrArg (List.map OutSeg.core) h.frame.retx
    exact hx.adds hqueue (h.adds.mono fun _ ha => .of_quiet ha)
  rst _ acts h hx := hx.adds rfl ⟨acts, rfl, fun a ha => .of_quiet (h.hostSide a ha)⟩
  closed x hx := hx.adds rfl ((closed_adds x).mono fun _ ha => .of_quiet ha)
  timeWait _ acts h hv := hv.adds rfl ⟨acts, rfl, fun a ha => .of_quiet (timeWait_hostSide h a ha)⟩

theorem Started.shortOptions {key : FlowKey} {v : View} (h : Started key v) : ShortOptions v := by
  cases h with
  | lost acts d hp ho hf ha =>
    refine ⟨by simp [synCore], ?_⟩
    obtain ⟨-, rfl⟩ | ⟨pkt, -, rfl⟩ := ha
    · simp [Action.ResendsShort]
    · simp [Action.ResendsShort, Cause.isRetx]
  | sent d d' hp ho hf hb =>
    refine ⟨?_, by simp [Action.ResendsShort, Cause.isRetx]⟩
    exact List.forall_mem_singleton.mpr ho.1

/-! ## Every emission -/

/-- A bare ACK with four SACK blocks and timestamps. -/
def CrowdedAck (cause : Cause) (s : TcpSession) : Prop :=
  (cause = .ack ∨ cause = .zwpProbe) ∧ s.peerSackOk = true ∧ s.peerTsOk = true ∧ 4 ≤ s.ooo.length

theorem sackBlocks_length (l : List OooSeg) :
    (l.flatMap TcpSession.sackBlock).length = 8 * l.length := by
  induction l with
  | nil => rfl
  | cons o l ih =>
    rw [List.flatMap_cons, List.length_append, ih, List.length_cons]
    have hblock : (TcpSession.sackBlock o).length = 8 := rfl
    omega

theorem buildSackOption_length (s : TcpSession) : s.buildSackOption.length =
    if s.peerSackOk && !s.ooo.isEmpty then 4 + 8 * min s.ooo.length 4 else 0 := by
  unfold TcpSession.buildSackOption
  cases s.peerSackOk with
  | false => rfl
  | true =>
    cases hooo : s.ooo.isEmpty with
    | true => rfl
    | false =>
      simp only [Bool.not_true, Bool.or_self, Bool.false_eq_true, if_false, Bool.not_false,
        Bool.and_self, if_true]
      rw [List.length_append, sackBlocks_length, List.length_take]
      simp only [List.length_cons, List.length_nil]
      omega

theorem ackOptions_fit (s : TcpSession) {ts : Bytes} (hts : TsBytes s.toPeerOpts TCP_ACK ts) :
    (s.buildSackOption ++ ts).length ≤ 40 ↔
      ¬ (s.peerSackOk = true ∧ s.peerTsOk = true ∧ 4 ≤ s.ooo.length) := by
  have hsyn : hasFlag TCP_ACK TCP_SYN = false := by decide
  have hempty : s.ooo.isEmpty = true ↔ s.ooo.length = 0 := by
    rw [List.isEmpty_iff, List.length_eq_zero_iff]
  rw [List.length_append, buildSackOption_length, hts.length, hsyn]
  cases s.peerSackOk with
  | false => cases s.peerTsOk <;> simp
  | true =>
    cases s.peerTsOk with
    | false =>
      simp
      split <;> omega
    | true =>
      cases hooo : s.ooo.isEmpty with
      | true => simp [hempty.mp hooo]
      | false =>
        simp
        omega

/-- In every run, a packet reads back as it was built exactly when it is not a crowded ACK. -/
theorem packet_reads_back_iff {key : FlowKey} {c : Ctx} (h : Reachable key c) {cause : Cause}
    {s : TcpSession} {b : TcpBuild} {pkt : Bytes} {ok : Bool}
    (ha : .emit cause s b pkt ok ∈ c.io.trace) : ReadsBack b pkt ↔ ¬ CrowdedAck cause s := by
  obtain ⟨hem, outLen, hbuilt⟩ := emission_of_reachable h _ ha
  have hshort := (shortOptions_stable.reachable (fun _ hs => hs.shortOptions) h).trace _ ha
  -- Whatever is not a bare ACK has at most 36 bytes of options.
  have hother : ¬ (cause = .ack ∨ cause = .zwpProbe) → b.options.length ≤ 36 →
      (ReadsBack b pkt ↔ ¬ CrowdedAck cause s) := by
    intro hcause hlen
    exact iff_of_true (buildTcp_readsBack hbuilt (by omega)) fun hc => hcause hc.1
  have hts : ∀ {flags ts}, TsBytes s.toPeerOpts flags ts → ts.length ≤ 12 := by
    intro flags ts hts
    rw [hts.length]
    split <;> simp
  cases hem with
  | synAck ho hf =>
    obtain ⟨ts, hbytes, rfl⟩ := hf
    refine hother (by simp) ?_
    have := hts hbytes
    have := ho.1
    simp only [TcpSession.header, List.length_append]
    omega
  | data hk hf =>
    obtain ⟨ts, hbytes, rfl⟩ := hf
    refine hother ?_ ?_
    · rintro (rfl | rfl) <;> exact hk.2
    · have := hts hbytes
      simp only [TcpSession.header, List.nil_append]
      omega
  | fin hf =>
    obtain ⟨ts, hbytes, rfl⟩ := hf
    refine hother (by simp) ?_
    have := hts hbytes
    simp only [TcpSession.header, List.nil_append]
    omega
  | ack hc hf =>
    obtain ⟨ts, hbytes, rfl⟩ := hf
    have hfit := ackOptions_fit s hbytes
    constructor
    · rintro hread ⟨-, hcrowded⟩
      exact hfit.mp hread.fits hcrowded
    · intro hfree
      exact buildTcp_readsBack hbuilt (hfit.mpr fun hcrowded => hfree ⟨hc, hcrowded⟩)
  | @retx _ e hc he hf =>
    obtain ⟨ts, hbytes, rfl⟩ := hf
    refine hother ?_ ?_
    · rintro (rfl | rfl) <;> cases hc
    · have := hts hbytes
      have := hshort hc e he
      simp only [TcpSession.header, List.length_append]
      omega
  | rst hb =>
    subst hb
    exact hother (by simp) (Nat.zero_le 36)

/-- A client that negotiates SACK and timestamps, and sends every other byte of eight. -/
def holesRun : List Input :=
  sampleAck 1000 :: [102, 104, 106, 108].map fun seq =>
    ⟨.segment (clientSegment sampleKey TCP_ACK seq 1 1000 [] [7]), {}⟩

def holesState : Ctx :=
  (sampleStart 1000 ([4, 2, 8, 10] ++ putBe32 5 ++ putBe32 0)).run holesRun

theorem holesState_reachable : Reachable sampleKey holesState :=
  (sampleStart_accepted _ _ (by decide)).reachable _

def Action.oversized : Action → Bool
  | .emit _ _ b _ _ => decide (40 < b.options.length)
  | _ => false

theorem ack_with_oversized_options :
    ¬ ∀ (key : FlowKey) (c : Ctx), Reachable key c → ∀ cause s b pkt ok,
      .emit cause s b pkt ok ∈ c.io.trace → ReadsBack b pkt := by
  intro hall
  have hany : holesState.io.trace.any Action.oversized = true := by decide +kernel
  obtain ⟨a, ha, hover⟩ := List.any_eq_true.mp hany
  cases a with
  | emit cause s b pkt ok =>
    have hread := hall _ _ holesState_reachable cause s b pkt ok ha
    exact Nat.not_le.mpr (of_decide_eq_true hover) hread.fits
  | _ => cases hover

/-- A packet of the same run with both options. -/
def Action.sackedInTime : Action → Bool
  | .emit _ s b _ _ => s.ooo.length == 3 && b.options.length == 40
  | _ => false

theorem packet_reads_back_three_blocks : ∃ cause s b pkt ok,
    .emit cause s b pkt ok ∈ holesState.io.trace ∧ b.options.length = 40 ∧
      (ReadsBack b pkt ↔ ¬ CrowdedAck cause s) := by
  have hany : holesState.io.trace.any Action.sackedInTime = true := by decide +kernel
  obtain ⟨a, ha, hfull⟩ := List.any_eq_true.mp hany
  cases a with
  | emit cause s b pkt ok =>
    simp only [Action.sackedInTime, Bool.and_eq_true, beq_iff_eq] at hfull
    exact ⟨cause, s, b, pkt, ok, ha, hfull.2, packet_reads_back_iff holesState_reachable ha⟩
  | _ => cases hfull

end BaleVpn.Tcp
