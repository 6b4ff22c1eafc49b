import BaleVpn.Tcp.AckOrder
import BaleVpn.Tcp.AdvertisedWindow
import BaleVpn.Tcp.Congestion

/-!
# The ranges of the sender

Whatever the peer sends and the clock reads, the MSS, the RTO, `ssthresh`, the congestion window and the
retries of an open session stay in the ranges that its arithmetic counts on. Every effect of an event
keeps the first four; the retries are followed from one event to the next, since the ninth of a timeout
closes the session only at its end.
-/

namespace BaleVpn.Tcp

open Net Lib

/-- The RTO within its clamp, `ssthresh` at two segments or more, and the cap on the window outside
recovery. -/
structure Pacing.Ranged (p : Pacing) (mss : UInt16) : Prop where
  rto : 200 ≤ p.rtoMs.toNat ∧ p.rtoMs.toNat ≤ 60000
  ssthresh : 2 * mss.toNat ≤ p.ssthresh.toNat
  cwnd : p.inRecovery = false → p.cwnd.toNat ≤ cwndCap

/-- What `Ranged` reads of the pacing state. -/
def Pacing.ranges (p : Pacing) : UInt32 × UInt32 × UInt32 × Bool := (p.rtoMs, p.ssthresh, p.cwnd, p.inRecovery)

theorem Pacing.Ranged.congr {p p' : Pacing} {mss : UInt16} (h : p.Ranged mss) (heq : p'.ranges = p.ranges) :
    p'.Ranged mss := by
  simp only [Pacing.ranges, Prod.mk.injEq] at heq
  obtain ⟨hrto, hthresh, hcwnd, hrec⟩ := heq
  exact ⟨hrto ▸ h.rto, hthresh ▸ h.ssthresh, hcwnd ▸ hrec ▸ h.cwnd⟩

/-! ## The RTO -/

theorem clampedRto_range (p : Pacing) : 200 ≤ p.clampedRto.toNat ∧ p.clampedRto.toNat ≤ 60000 := by
  unfold Pacing.clampedRto
  rw [uint32_toNat_min, uint32_toNat_max]
  have : (200 : UInt32).toNat = 200 := rfl
  have : (60000 : UInt32).toNat = 60000 := rfl
  omega

theorem doubled_range {x : UInt32} (h : 200 ≤ x.toNat) :
    200 ≤ (Ctx.doubled x).toNat ∧ (Ctx.doubled x).toNat ≤ 60000 := by
  unfold Ctx.doubled
  rw [uint32_toNat_min]
  have : (60000 : UInt32).toNat = 60000 := rfl
  split
  · have : (0xFFFFFFFF : UInt32).toNat = 2 ^ 32 - 1 := rfl
    omega
  · rename_i hsmall
    have hmul : (x * 2).toNat = x.toNat * 2 := by
      rw [UInt32.toNat_mul]
      show x.toNat * 2 % 2 ^ 32 = _
      exact Nat.mod_eq_of_lt (by omega)
    omega

theorem Pacing.Ranged.updateRtt {p : Pacing} {mss : UInt16} (h : p.Ranged mss) (sampleMs : UInt32) :
    (p.updateRtt sampleMs).Ranged mss := by
  refine ⟨clampedRto_range _, ?_, ?_⟩
  all_goals
    unfold Pacing.updateRtt
    simp only
    split
  · exact h.ssthresh
  · exact h.ssthresh
  · exact h.cwnd
  · exact h.cwnd

theorem rackUpdateFromDelivered_ranges (p : Pacing) (sentMs endSeq now : UInt32) :
    (p.rackUpdateFromDelivered sentMs endSeq now).ranges = p.ranges := by
  unfold Pacing.rackUpdateFromDelivered
  split
  · rfl
  · simp only
    split <;> rfl

theorem Pacing.Ranged.acked {p : Pacing} {mss : UInt16} (h : p.Ranged mss) (head : OutSeg) (now : UInt32)
    (sampled : Bool) : (Ctx.ackedPacing p head now sampled).Ranged mss := by
  have hsample : (if !head.retransmitted && !sampled then p.updateRtt (now - head.sentMs) else p).Ranged
      mss := by
    split
    · exact h.updateRtt _
    · exact h
  unfold Ctx.ackedPacing
  simp only
  generalize (if !head.retransmitted && !sampled then p.updateRtt (now - head.sentMs) else p) = q at hsample ⊢
  have hrack : (if !head.sacked then q.rackUpdateFromDelivered head.sentMs (head.seq + head.span) now
      else q).Ranged mss := by
    split
    · exact hsample.congr (rackUpdateFromDelivered_ranges _ _ _ _)
    · exact hsample
  generalize (if !head.sacked then q.rackUpdateFromDelivered head.sentMs (head.seq + head.span) now
    else q) = r at hrack ⊢
  split
  · exact hrack.congr rfl
  · exact hrack

/-! ## The window -/

theorem reducedSsthresh_range {s : TcpSession} (h : s.toPeerOpts.Ok) :
    2 * s.peerMss.toNat ≤ s.reducedSsthresh.toNat := by
  have hmss : s.peerMss.toNat ≤ 960 := h.mssLe
  have htwice : (2 * s.peerMss.toUInt32).toNat = 2 * s.peerMss.toNat := by
    rw [UInt32.toNat_mul, UInt16.toNat_toUInt32]
    show 2 * s.peerMss.toNat % 2 ^ 32 = _
    exact Nat.mod_eq_of_lt (by omega)
  unfold TcpSession.reducedSsthresh
  rw [uint32_toNat_max, htwice]
  omega

theorem min_cap_le (x : UInt32) : (min x (4 * 1024 * 1024)).toNat ≤ cwndCap := by
  have hcap : (4 * 1024 * 1024 : UInt32).toNat = cwndCap := rfl
  rw [uint32_toNat_min, hcap]
  omega

theorem eifelUndo_ranged {s : TcpSession} (h : s.toPacing.Ranged s.peerMss) :
    (Ctx.eifelUndo s).rtoMs = s.rtoMs ∧ 2 * s.peerMss.toNat ≤ (Ctx.eifelUndo s).ssthresh.toNat := by
  have hthresh := h.ssthresh
  unfold Ctx.eifelUndo
  split
  · simp only
    split
    · refine ⟨rfl, ?_⟩
      rw [uint32_toNat_max]
      omega
    · exact ⟨rfl, hthresh⟩
  · exact ⟨rfl, hthresh⟩

theorem growCwnd_ranged (s : TcpSession) (ackNo acked : UInt32) :
    (Ctx.growCwnd s ackNo acked).rtoMs = s.rtoMs ∧ (Ctx.growCwnd s ackNo acked).ssthresh = s.ssthresh ∧
      (Ctx.growCwnd s ackNo acked).cwnd.toNat ≤ cwndCap := by
  unfold Ctx.growCwnd
  refine ⟨?_, ?_, min_cap_le _⟩
  all_goals
    simp only
    split
    all_goals
      split <;> rfl

theorem noteNewAck_ranged {c : Ctx} (h : c.s.toPacing.Ranged c.s.peerMss) (ackNo : UInt32) :
    (c.noteNewAck ackNo).s.toPacing.Ranged c.s.peerMss := by
  obtain ⟨hrto, hthresh⟩ := eifelUndo_ranged h
  obtain ⟨hrto', hthresh', hcap⟩ := growCwnd_ranged (Ctx.eifelUndo c.s) ackNo (ackNo - c.s.sndUna)
  refine ⟨?_, ?_, fun _ => hcap⟩
  · show 200 ≤ (Ctx.growCwnd _ _ _).rtoMs.toNat ∧ (Ctx.growCwnd _ _ _).rtoMs.toNat ≤ 60000
    rw [hrto', hrto]
    exact h.rto
  · show 2 * c.s.peerMss.toNat ≤ (Ctx.growCwnd _ _ _).ssthresh.toNat
    rw [hthresh']
    exact hthresh

/-! ## Events -/

theorem emitSegment_ranges (c : Ctx) (cause : Cause) (flags : UInt8) (seq : UInt32) (payload : Bytes)
    (record : Bool) (options : Bytes) :
    (c.emitSegment cause flags seq payload record options).2.s.toPacing.ranges = c.s.toPacing.ranges := by
  have hsteady := (emitSegment_frame c cause flags seq payload record options).steady
  generalize (c.emitSegment cause flags seq payload record options).2 = c' at hsteady ⊢
  have hranges := congrArg Pacing.ranges hsteady
  exact hranges

theorem updatePrrAfterAck_ranged {s : TcpSession} {mss : UInt16} (h : s.toPacing.Ranged mss)
    (prev acked : UInt32) : (s.updatePrrAfterAck prev acked).toPacing.Ranged mss := by
  unfold TcpSession.updatePrrAfterAck
  split
  · exact h
  · rename_i hin
    refine ⟨h.rto, h.ssthresh, fun hout => ?_⟩
    have hrec : s.inRecovery = false := hout
    rw [hrec] at hin
    exact absurd rfl hin

/-- The handshake's options and the ranges. -/
structure Confined (c : Ctx) : Prop where
  peer : c.s.toPeerOpts.Ok
  pacing : c.s.toPacing.Ranged c.s.peerMss

theorem Effect.ranged {st : Stage} {c c' : Ctx} (h : Effect st c c') (hc : Confined c) :
    c'.s.toPacing.Ranged c.s.peerMss := by
  obtain ⟨hpeer, hr⟩ := hc
  cases h with
  | quiet h => exact hr.congr (congrArg Pacing.ranges h.pacing)
  | pace _ p h =>
    have hranges := congrArg Pacing.ranges h
    exact hr.congr hranges
  | emitSegment _ cause _ flags seq payload record options =>
    exact hr.congr (emitSegment_ranges c cause flags seq payload record options)
  | recover => exact ⟨hr.rto, reducedSsthresh_range hpeer, nofun⟩
  | prr _ _ prev acked => exact updatePrrAfterAck_ranged hr prev acked
  | newAck _ ackNo => exact noteNewAck_ranged hr ackNo
  | sample => exact hr.updateRtt _
  | pop => exact hr.acked _ _ _
  | refresh =>
    refine ⟨?_, hr.ssthresh, hr.cwnd⟩
    show 200 ≤ (if c.s.rttInit then c.s.toPacing.clampedRto else c.s.rtoMs).toNat ∧ _
    split
    · exact clampedRto_range _
    · exact hr.rto
  | reduce _ now =>
    refine ⟨hr.rto, reducedSsthresh_range hpeer, fun _ => ?_⟩
    show c.s.peerMss.toUInt32.toNat ≤ cwndCap
    have hmss : c.s.peerMss.toNat ≤ 960 := hpeer.mssLe
    have hcap : cwndCap = 4194304 := rfl
    rw [UInt16.toNat_toUInt32]
    omega
  | backOff => exact ⟨doubled_range hr.rto.1, hr.ssthresh, hr.cwnd⟩
  | _ => exact hr.congr rfl

theorem Effect.confined {st : Stage} {c c' : Ctx} (h : Effect st c c') (hc : Confined c) : Confined c' := by
  have hpeer := h.fixed.peer
  refine ⟨by rw [hpeer]; exact hc.peer, ?_⟩
  rw [show c'.s.peerMss = c.s.peerMss from congrArg PeerOpts.peerMss hpeer]
  exact h.ranged hc

theorem SackEffect.confined {c c' : Ctx} (h : SackEffect c c') (hc : Confined c) : Confined c' := by
  cases h with
  | pace p h =>
    have hranges := congrArg Pacing.ranges h
    exact ⟨hc.peer, hc.pacing.congr hranges⟩
  | @block left right h =>
    refine ⟨hc.peer, hc.pacing.congr ?_⟩
    refine foldl_invariant (I := fun p : Pacing => p.ranges = c.s.toPacing.ranges) (fun p e hp => ?_) _ rfl
    exact (rackUpdateFromDelivered_ranges _ _ _ _).trans hp

/-! ## Runs -/

theorem Accepted.confined {key : FlowKey} {c₀ : Ctx} (h : Accepted key c₀) : Confined c₀ := by
  obtain ⟨c, hc, heff⟩ := h.effects
  have hranges := congrArg Pacing.ranges hc.pacing
  have hmss : c.s.peerMss.toNat ≤ 960 := hc.peer.mssLe
  refine heff.invariant (fun _ _ heff => heff.confined)
    ⟨hc.peer, Pacing.Ranged.congr (p := { cwnd := 10 * c.s.peerMss.toUInt32 }) ⟨⟨?_, ?_⟩, ?_, fun _ => ?_⟩ hranges⟩
  · show 200 ≤ 250
    omega
  · show 250 ≤ 60000
    omega
  · show 2 * c.s.peerMss.toNat ≤ 2 ^ 32 - 1
    omega
  · show (10 * c.s.peerMss.toUInt32).toNat ≤ cwndCap
    have hcap : cwndCap = 4194304 := rfl
    rw [UInt32.toNat_mul, UInt16.toNat_toUInt32]
    show 10 * c.s.peerMss.toNat % 2 ^ 32 ≤ cwndCap
    rw [Nat.mod_eq_of_lt (by omega)]
    omega

theorem confined_run {key : FlowKey} {c₀ : Ctx} (h₀ : Accepted key c₀) (inputs : List Input) :
    Confined (c₀.run inputs) := by
  refine run_stages (Q := fun _ _ => True) h₀.confined ?_ (each_const.mpr fun _ _ => trivial)
  intro c i _ hstages _ hc
  have hload : Confined (c.load i.oracle) := ⟨hc.peer, hc.pacing⟩
  exact hstages.invariant (fun _ _ _ heff => heff.confined) (fun _ _ heff => heff.confined) hload

/-- An open session has a retry left. -/
def Retrying (c : Ctx) : Prop := c.s.state ≠ .closed → c.s.rtoRetries.toNat ≤ 8

theorem Retrying.step {c : Ctx} (h : Retrying c) (i : Input) : Retrying (c.step i) := by
  by_cases hclosed : c.s.state = .closed
  · rw [step_closed hclosed]
    exact h
  · have hle := h hclosed
    have hturn := step_turn hclosed i
    generalize c.step i = c' at hturn ⊢
    cases hturn with
    | acked hack _ =>
      obtain hsame | ⟨-, hzero⟩ := hack
      · exact fun _ => by rw [hsame.retries]; exact hle
      · exact fun _ => by rw [hzero]; exact Nat.zero_le _
    | fired _ _ hretries hcloses =>
      intro hopen
      have hcount : (c.s.rtoRetries + 1).toNat = c.s.rtoRetries.toNat + 1 := by
        rw [UInt8.toNat_add]
        show (c.s.rtoRetries.toNat + 1) % 256 = _
        omega
      by_contra hmany
      refine hopen (hcloses ?_)
      rw [UInt8.le_iff_toNat_le, hcount]
      show 9 ≤ c.s.rtoRetries.toNat + 1
      rw [hretries, hcount] at hmany
      omega

theorem retrying_run {key : FlowKey} {c₀ : Ctx} (h₀ : Accepted key c₀) (inputs : List Input) :
    Retrying (c₀.run inputs) := by
  refine foldl_invariant (I := Retrying) (fun c i h => h.step i) inputs fun _ => ?_
  obtain ⟨c, hc, heff⟩ := h₀.effects
  have hzero := congrArg Pacing.rtoRetries hc.pacing
  have hkept := (heff.sameUna (.inr rfl)).retries
  rw [hkept, show c.s.rtoRetries = 0 from hzero]
  exact Nat.zero_le _

/-- Whatever segments, host events and clock readings a session sees, its congestion and RTT state stays
in range. -/
theorem sender_in_range {key : FlowKey} {c₀ : Ctx} (h₀ : Accepted key c₀) (inputs : List Input) :
    let s := (c₀.run inputs).s
    (1 ≤ s.peerMss.toNat ∧ s.peerMss.toNat ≤ 960) ∧ (200 ≤ s.rtoMs.toNat ∧ s.rtoMs.toNat ≤ 60000) ∧
      2 * s.peerMss.toNat ≤ s.ssthresh.toNat ∧ (s.inRecovery = false → s.cwnd.toNat ≤ 4 * 1024 * 1024) ∧
      (s.state ≠ .closed → s.rtoRetries.toNat ≤ 8) := by
  obtain ⟨hpeer, hpacing⟩ := confined_run h₀ inputs
  exact ⟨⟨hpeer.mssPos, hpeer.mssLe⟩, hpacing.rto, hpacing.ssthresh, hpacing.cwnd, retrying_run h₀ inputs⟩

/-- A client that offers an MSS of 40000 and then falls silent. -/
theorem sender_in_range_silent :
    let s := ((sampleStart 1000 [2, 4, 156, 64]).run [sampleAck 1000, readByte 7, ⟨.tick 3000, {}⟩]).s
    s.peerMss.toNat ≤ 960 ∧ s.rtoMs.toNat ≤ 60000 := by
  have h := sender_in_range (sampleStart_accepted 1000 [2, 4, 156, 64] (by decide))
    [sampleAck 1000, readByte 7, ⟨.tick 3000, {}⟩]
  exact ⟨h.1.2, h.2.1.2⟩

end BaleVpn.Tcp
