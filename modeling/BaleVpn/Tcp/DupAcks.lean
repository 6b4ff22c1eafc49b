import BaleVpn.Tcp.AckOrder

/-!
# Duplicate ACKs

The counter behind fast retransmit goes by the ACK number alone. As long as every segment that it counts
is a duplicate ACK in the sense of RFC 5681, fast recovery starts after three of them; a client that only
uploads data moves it as well.
-/

namespace BaleVpn.Tcp

open Net Lib Relation

/-! ## The counter -/

theorem emitSegment_dups (c : Ctx) (cause : Cause) (flags : UInt8) (seq : UInt32) (payload : Bytes)
    (record : Bool) (options : Bytes) :
    (c.emitSegment cause flags seq payload record options).2.s.dupAckCount = c.s.dupAckCount := by
  have hsteady := (emitSegment_frame c cause flags seq payload record options).steady
  generalize (c.emitSegment cause flags seq payload record options).2 = c' at hsteady ⊢
  have hdups := congrArg Pacing.dupAckCount hsteady
  exact hdups

theorem updateRtt_dups (p : Pacing) (sample : UInt32) : (p.updateRtt sample).dupAckCount = p.dupAckCount := by
  unfold Pacing.updateRtt
  simp only
  split <;> rfl

theorem ackedPacing_dups (p : Pacing) (head : OutSeg) (now : UInt32) (sampled : Bool) :
    (Ctx.ackedPacing p head now sampled).dupAckCount = p.dupAckCount := by
  have hrack : ∀ q : Pacing, (if !head.sacked then
      q.rackUpdateFromDelivered head.sentMs (head.seq + head.span) now else q).dupAckCount =
        q.dupAckCount := by
    intro q
    have hcounted := congrArg Pacing.dupAckCount
      (rackUpdateFromDelivered_counted q head.sentMs (head.seq + head.span) now)
    split
    · exact hcounted
    · rfl
  have hrtt : (if !head.retransmitted && !sampled then p.updateRtt (now - head.sentMs) else p).dupAckCount =
      p.dupAckCount := by
    split
    · apply updateRtt_dups
    · rfl
  unfold Ctx.ackedPacing
  simp only
  split
  · exact (hrack _).trans hrtt
  · exact (hrack _).trans hrtt

theorem Effect.dups {t : Stage} {c c' : Ctx} (h : Effect t c c') (ht : t ≠ .dup) :
    c'.s.dupAckCount = c.s.dupAckCount ∨ (t ≠ .rest ∧ c'.s.dupAckCount = 0) := by
  cases h with
  | quiet h => exact .inl (congrArg Pacing.dupAckCount h.pacing)
  | pace _ p h =>
    have hdups := congrArg Pacing.dupAckCount h
    exact .inl hdups
  | emitSegment _ cause _ flags seq payload record options =>
    exact .inl (emitSegment_dups c cause flags seq payload record options)
  | prr _ _ prev acked =>
    left
    unfold TcpSession.updatePrrAfterAck
    split <;> rfl
  | dup | dupReset => exact absurd rfl ht
  | newAck | reduce => exact .inr ⟨by simp, rfl⟩
  | sample _ _ _ => exact .inl (updateRtt_dups _ _)
  | pop _ _ now sampled => exact .inl (ackedPacing_dups _ _ now sampled)
  | _ => exact .inl rfl

theorem Effects.dups_le {t : Stage} {c c' : Ctx} (h : Effects t c c') (ht : t ≠ .dup) :
    c'.s.dupAckCount.toNat ≤ c.s.dupAckCount.toNat := by
  refine h.invariant (P := fun c' => c'.s.dupAckCount.toNat ≤ c.s.dupAckCount.toNat) ?_ (Nat.le_refl _)
  intro c₁ c₂ heff hle
  obtain hsame | ⟨-, hzero⟩ := heff.dups ht
  · rwa [hsame]
  · rw [hzero]
    exact Nat.zero_le _

theorem Effects.dups_eq {c c' : Ctx} (h : Effects .rest c c') : c'.s.dupAckCount = c.s.dupAckCount := by
  refine h.invariant (P := fun c' => c'.s.dupAckCount = c.s.dupAckCount) ?_ rfl
  intro c₁ c₂ heff hc
  obtain hsame | ⟨hne, -⟩ := heff.dups (by simp)
  · exact hsame.trans hc
  · exact absurd rfl hne

/-- An ACK number that `on_ack` takes for a duplicate and counts. -/
def TcpSession.countsAck (s : TcpSession) (ack : UInt32) : Bool :=
  !seqLt s.sndNxt ack && seqLe ack s.sndUna &&
    (ack == s.lastAckSeen && !s.retx.isEmpty && !s.inRecovery)

theorem fastRetransmit_dups (c : Ctx) (now : UInt32) :
    (c.fastRetransmit now).s.dupAckCount.toNat ≤ c.s.dupAckCount.toNat := by
  unfold Ctx.fastRetransmit
  split
  · exact Nat.zero_le _
  · exact Nat.le_refl _

theorem onDupAck_dups (c : Ctx) (ackNo now : UInt32) : (c.onDupAck ackNo now).s.dupAckCount.toNat ≤
    c.s.dupAckCount.toNat +
      if ackNo == c.s.lastAckSeen && !c.s.retx.isEmpty && !c.s.inRecovery then 1 else 0 := by
  unfold Ctx.onDupAck
  simp only
  split
  · rename_i hdup
    split
    · have heff := (lostRetx_effects (t := .ack) c now).trans (ReflTransGen.head
        (.prr _ (.inr rfl) (c.lostRetx now).s.sackedAtSegmentStart 0)
          (rackDetectLossAndArmTimer_effects _ now))
      exact Nat.le_trans (Effects.dups_le heff (by simp)) (Nat.le_add_right _ _)
    · rename_i hrec
      have hcounts : (ackNo == c.s.lastAckSeen && !c.s.retx.isEmpty && !c.s.inRecovery) = true := by
        rw [hdup, Bool.eq_false_iff.mpr hrec]
        rfl
      rw [if_pos hcounts]
      obtain ⟨n, hn⟩ : ∃ n : UInt8, n = if c.s.dupAckCount == 255 then 255 else c.s.dupAckCount + 1 :=
        ⟨_, rfl⟩
      have hle : n.toNat ≤ c.s.dupAckCount.toNat + 1 := by
        rw [hn]
        split
        · rename_i hmax
          rw [eq_of_beq hmax]
          decide
        · rw [UInt8.toNat_add]
          exact Nat.mod_le _ _
      rw [← hn]
      have hlimited : (Ctx.limitedTransmit { c with s.dupAckCount := n }).s.dupAckCount.toNat ≤ n.toNat :=
        (limitedTransmit_effects (t := .rest) _).dups_le (by simp)
      generalize Ctx.limitedTransmit { c with s.dupAckCount := n } = c₁ at hlimited ⊢
      have hfast := fastRetransmit_dups c₁ now
      generalize c₁.fastRetransmit now = c₂ at hfast ⊢
      have hrack := (rackDetectLossAndArmTimer_effects (t := .rest) c₂ now).dups_le (by simp)
      exact Nat.le_trans hrack (Nat.le_trans hfast (Nat.le_trans hlimited hle))
  · exact Nat.le_trans ((rackDetectLossAndArmTimer_effects (t := .rest) c now).dups_le (by simp))
      (Nat.le_add_right _ _)

theorem onNewAck_dups (c : Ctx) (ackNo now : UInt32) : (c.onNewAck ackNo now).s.dupAckCount = 0 := by
  have hle := (noteNewAck_effects c ackNo now).dups_le (by simp)
  exact UInt8.toNat_inj.mp (Nat.le_zero.mp hle)

/-- What an ACK number does to the counter: it starts anew, or goes up by the ACK if that counts. -/
inductive Recounted (c : Ctx) (counts : Bool) (c' : Ctx) : Prop
  | fresh (hb : counts = false) (h : c'.s.sndUna ≠ c.s.sndUna) (hz : c'.s.dupAckCount = 0)
  | more (h : c'.s.sndUna = c.s.sndUna)
      (hle : c'.s.dupAckCount.toNat ≤ c.s.dupAckCount.toNat + if counts then 1 else 0)

theorem onAck_recounted (c : Ctx) (ackNo now : UInt32) :
    Recounted c (c.s.countsAck ackNo) (c.onAck ackNo now) := by
  have hacked := onAck_acked c ackNo now
  unfold Ctx.onAck at hacked ⊢
  split at hacked
  · rename_i hbeyond
    rw [if_pos hbeyond]
    exact .more rfl (Nat.le_add_right _ _)
  · rename_i hwithin
    rw [if_neg hwithin]
    split at hacked
    · rename_i hold
      rw [if_pos hold]
      have hcounts : c.s.countsAck ackNo =
          (ackNo == c.s.lastAckSeen && !c.s.retx.isEmpty && !c.s.inRecovery) := by
        unfold TcpSession.countsAck
        rw [hold, Bool.eq_false_iff.mpr hwithin]
        rfl
      rw [hcounts]
      exact .more (onDupAck_effects c ackNo now |>.una_kept (by simp)) (onDupAck_dups c ackNo now)
    · rename_i hnew
      rw [if_neg hnew]
      refine .fresh ?_ ?_ (onNewAck_dups c ackNo now)
      · unfold TcpSession.countsAck
        rw [Bool.eq_false_iff.mpr hnew, Bool.and_false, Bool.false_and]
      · rw [(onNewAck_una c ackNo now).1]
        rintro rfl
        rw [seqLe_refl] at hnew
        exact hnew rfl

/-! ## Segments -/

/-- A segment with an ACK number. -/
def isAck (seg : Bytes) : Bool :=
  headerOk seg && !hasFlag (TcpHeader.flags seg) TCP_RST && hasFlag (TcpHeader.flags seg) TCP_ACK

/-- A segment that `on_ack` counts as a duplicate ACK. -/
def TcpSession.counts (s : TcpSession) (seg : Bytes) : Bool :=
  isAck seg && s.acksOn (TcpHeader.flags seg) (TcpHeader.ack seg) && s.countsAck (TcpHeader.ack seg)

/-- What the options leave of a session for its ACK number. -/
structure Prepared (c c' : Ctx) : Prop where
  send : c'.s.toSendVars = c.s.toSendVars
  state : c'.s.state = c.s.state
  retx : c'.s.retx.isEmpty = c.s.retx.isEmpty
  dups : c'.s.dupAckCount = c.s.dupAckCount
  last : c'.s.lastAckSeen = c.s.lastAckSeen
  recovery : c'.s.inRecovery = c.s.inRecovery
  trace : c'.io.trace = c.io.trace

theorem preprocess_prepared (c : Ctx) (opts : Bytes) (seq : UInt32) : Prepared c (c.preprocess opts seq) := by
  have hview := preprocess_view c opts seq
  obtain ⟨n, hcounted⟩ := SackEffects.counted (preprocess_effects c opts seq)
  have hdups := congrArg Pacing.dupAckCount hcounted
  have hlast := congrArg Pacing.lastAckSeen hcounted
  have hrec := congrArg Pacing.inRecovery hcounted
  generalize c.preprocess opts seq = c' at hview hdups hlast hrec ⊢
  refine ⟨congrArg (fun v : View => v.send) hview, congrArg (fun v : View => v.state) hview, ?_, hdups, hlast,
    hrec, congrArg View.trace hview⟩
  have hqueue : c'.s.retx.map OutSeg.core = c.s.retx.map OutSeg.core := congrArg (fun v : View => v.queue) hview
  have hempty := congrArg List.isEmpty hqueue
  rwa [List.isEmpty_map, List.isEmpty_map] at hempty

theorem Prepared.countsAck {c c' : Ctx} (h : Prepared c c') (ack : UInt32) :
    c'.s.countsAck ack = c.s.countsAck ack := by
  have huna : c'.s.sndUna = c.s.sndUna := congrArg SendVars.sndUna h.send
  have hnxt : c'.s.sndNxt = c.s.sndNxt := congrArg SendVars.sndNxt h.send
  unfold TcpSession.countsAck
  rw [huna, hnxt, h.last, h.retx, h.recovery]

theorem Prepared.acksOn {c c' : Ctx} (h : Prepared c c') (flags : UInt8) (ack : UInt32) :
    c'.s.acksOn flags ack = c.s.acksOn flags ack := by
  have hnxt : c'.s.sndNxt = c.s.sndNxt := congrArg SendVars.sndNxt h.send
  unfold TcpSession.acksOn
  rw [h.state, hnxt]

/-- The part of a segment that `on_ack` sees: nothing, or its ACK number. -/
inductive AckSeen (c : Ctx) (seg : Bytes) : Ctx → Prop
  | skip {c' : Ctx} (hp : Prepared c c') : AckSeen c seg c'
  | ack {c' : Ctx} (hp : Prepared c c') (hcounts : c.s.counts seg = c'.s.countsAck (TcpHeader.ack seg))
      (now : UInt32) : AckSeen c seg (c'.onAck (TcpHeader.ack seg) now)

theorem afterAck_seen (c : Ctx) {seg : Bytes} (hok : headerOk seg = true) :
    AckSeen c seg (c.afterAck seg) := by
  have hpre := preprocess_prepared c (segOptions seg) (TcpHeader.seq seg)
  unfold Ctx.afterAck Ctx.ackStage
  generalize c.preprocess (segOptions seg) (TcpHeader.seq seg) = c₁ at hpre ⊢
  simp only
  split
  · exact .skip hpre
  · rename_i hrst
    split
    · rename_i hon
      rw [hpre.acksOn] at hon
      have hack : hasFlag (TcpHeader.flags seg) TCP_ACK = true := by
        unfold TcpSession.acksOn at hon
        split at hon
        · exact (Bool.and_eq_true_iff.mp hon).1
        all_goals first | exact hon | cases hon
      have hread : Prepared c c₁.nowMs.2 :=
        ⟨hpre.send, hpre.state, hpre.retx, hpre.dups, hpre.last, hpre.recovery, hpre.trace⟩
      refine .ack hread ?_ _
      rw [hread.countsAck]
      unfold TcpSession.counts isAck
      rw [hok, hack, hon, Bool.eq_false_iff.mpr hrst]
      rfl
    · exact .skip hpre

theorem AckSeen.recounted {c c' : Ctx} {seg : Bytes} (h : AckSeen c seg c') :
    Recounted c (c.s.counts seg) c' := by
  cases h with
  | skip hp =>
    refine .more (congrArg SendVars.sndUna hp.send) ?_
    rw [hp.dups]
    exact Nat.le_add_right _ _
  | @ack c₁ hp hcounts now =>
    have huna : c₁.s.sndUna = c.s.sndUna := congrArg SendVars.sndUna hp.send
    have hcount := onAck_recounted c₁ (TcpHeader.ack seg) now
    rw [hcounts]
    cases hcount with
    | fresh hb hne hz => exact .fresh hb (by rwa [← huna]) hz
    | more hsame hle => exact .more (hsame.trans huna) (by rwa [← hp.dups])

theorem Recounted.then {t : Stage} {c c' c'' : Ctx} {b : Bool} (h : Recounted c b c') (h' : Effects t c' c'')
    (ht : t ≠ .dup ∧ t ≠ .ack) : Recounted c b c'' := by
  have huna := h'.una_kept ht.2
  have hdups := h'.dups_le ht.1
  cases h with
  | fresh hb hne hz =>
    refine .fresh hb (by rwa [huna]) (UInt8.toNat_inj.mp ?_)
    rw [hz] at hdups
    exact Nat.le_zero.mp hdups
  | more hsame hle => exact .more (huna.trans hsame) (Nat.le_trans hdups hle)

def TcpSession.countsEvent (s : TcpSession) : Event → Bool
  | .segment seg => s.counts seg
  | _ => false

theorem EventStages.recounted {c c' : Ctx} {ev : Event} (h : EventStages c ev c') :
    Recounted c (c.s.countsEvent ev) c' := by
  have hstart : ∀ b, Recounted c b c := fun b => .more rfl (Nat.le_add_right _ _)
  cases h with
  | malformed _ => exact hstart _
  | segment hok hr => exact (afterAck_seen c hok).recounted.then hr (by simp)
  | host h => exact (hstart _).then h (by simp)
  | tick h => exact (hstart _).then h (by simp)
  | windowUpdate h => exact (hstart _).then h (by simp)

theorem step_recounted (c : Ctx) (i : Input) : Recounted c (c.s.countsEvent i.event) (c.step i) := by
  by_cases hclosed : c.s.state = .closed
  · rw [step_closed hclosed]
    exact .more rfl (Nat.le_add_right _ _)
  · have hcount := (step_stages hclosed i).recounted
    cases hcount with
    | fresh hb hne hz => exact .fresh hb hne hz
    | more hsame hle => exact .more hsame hle

/-! ## Fast retransmissions -/

def Action.isFastRetx : Action → Bool
  | .emit .fastRetx _ _ _ _ => true
  | _ => false

theorem Effect.unhurried {t : Stage} {c c' : Ctx} (h : Effect t c c') (ht : t ≠ .dup) :
    Adds c.io.trace c'.io.trace fun a => a.isFastRetx = false := by
  refine h.adds.mono fun a ha => ?_
  obtain hless | ⟨cause, flags, seq, payload, options, hcause, hhands⟩ := ha
  · cases a with
    | emit cause s b pkt ok =>
      obtain ⟨rfl, -⟩ := hless
      rfl
    | _ => rfl
  · cases hhands with
    | segment ts pkt ok =>
      cases cause with
      | fastRetx => exact absurd (hcause rfl) ht
      | _ => rfl
    | arm d => rfl

theorem Effects.unhurried {t : Stage} {c c' : Ctx} (h : Effects t c c') (ht : t ≠ .dup) :
    Adds c.io.trace c'.io.trace fun a => a.isFastRetx = false := by
  induction h with
  | refl => exact .none
  | tail _ heff ih => exact ih.trans (heff.unhurried ht)

/-- The counter is at two before an ACK that it counts, or nothing is retransmitted fast. -/
theorem onAck_fast (c : Ctx) (ackNo now : UInt32) :
    (c.s.countsAck ackNo = true ∧ c.s.dupAckCount = 2) ∨
      Adds c.io.trace (c.onAck ackNo now).io.trace fun a => a.isFastRetx = false := by
  unfold Ctx.onAck
  split
  · exact .inr .none
  · rename_i hwithin
    split
    · rename_i hold
      unfold Ctx.onDupAck
      simp only
      split
      · rename_i hdup
        split
        · right
          have heff := (lostRetx_effects (t := .ack) c now).trans (ReflTransGen.head
            (.prr _ (.inr rfl) (c.lostRetx now).s.sackedAtSegmentStart 0)
              (rackDetectLossAndArmTimer_effects _ now))
          exact Effects.unhurried heff (by simp)
        · rename_i hrec
          obtain ⟨n, hn⟩ : ∃ n : UInt8, n = if c.s.dupAckCount == 255 then 255 else c.s.dupAckCount + 1 :=
            ⟨_, rfl⟩
          rw [← hn]
          have hlimited := limitedTransmit_effects (t := .rest) { c with s.dupAckCount := n }
          have hdups := hlimited.dups_eq
          have hquiet := hlimited.unhurried (by simp)
          generalize Ctx.limitedTransmit { c with s.dupAckCount := n } = c₁ at hdups hquiet ⊢
          have hrack := fun c₂ : Ctx =>
            (rackDetectLossAndArmTimer_effects (t := .rest) c₂ now).unhurried (by simp)
          by_cases hthree : n = 3
          · left
            refine ⟨?_, ?_⟩
            · unfold TcpSession.countsAck
              rw [hold, hdup, Bool.eq_false_iff.mpr hwithin, Bool.eq_false_iff.mpr hrec]
              rfl
            · rw [hthree] at hn
              grind
          · right
            have hsame : c₁.fastRetransmit now = c₁ := by
              unfold Ctx.fastRetransmit
              rw [if_neg]
              simp [show c₁.s.dupAckCount = n from hdups, hthree]
            rw [hsame]
            exact hquiet.trans (hrack c₁)
      · exact .inr ((rackDetectLossAndArmTimer_effects (t := .rest) c now).unhurried (by simp))
    · exact .inr ((onNewAck_effects c ackNo now).unhurried (by simp))

/-- `on_ack` calls `enter_fast_recovery("fast-retx")` on the event. -/
def TcpSession.entersFast (s : TcpSession) (ev : Event) : Bool := s.countsEvent ev && s.dupAckCount == 2

theorem AckSeen.fast {c c' : Ctx} {seg : Bytes} (h : AckSeen c seg c') :
    c.s.entersFast (.segment seg) = true ∨
      Adds c.io.trace c'.io.trace fun a => a.isFastRetx = false := by
  cases h with
  | skip hp =>
    rw [hp.trace]
    exact .inr .none
  | @ack c₁ hp hcounts now =>
    obtain ⟨hc, htwo⟩ | hadds := onAck_fast c₁ (TcpHeader.ack seg) now
    · left
      show (c.s.counts seg && c.s.dupAckCount == 2) = true
      rw [hcounts, hc, ← hp.dups, htwo]
      rfl
    · rw [hp.trace] at hadds
      exact .inr hadds

theorem EventStages.fast {c c' : Ctx} {ev : Event} (h : EventStages c ev c') :
    c.s.entersFast ev = true ∨ Adds c.io.trace c'.io.trace fun a => a.isFastRetx = false := by
  cases h with
  | malformed _ => exact .inr .none
  | segment hok hr => exact (afterAck_seen c hok).fast.imp id fun hadds => hadds.trans (hr.unhurried (by simp))
  | host h => exact .inr (h.unhurried (by simp))
  | tick h => exact .inr (h.unhurried (by simp))
  | windowUpdate h => exact .inr (h.unhurried (by simp))

theorem fastRetx_entered {c : Ctx} {i : Input} {s : TcpSession} {b : TcpBuild} {pkt : Bytes} {ok : Bool}
    (h : .emit .fastRetx s b pkt ok ∈ newActs c (c.step i)) : c.s.entersFast i.event = true := by
  by_cases hclosed : c.s.state = .closed
  · rw [newActs_closed hclosed] at h
    cases h
  · obtain henters | ⟨acts, hacts, hno⟩ := (step_stages hclosed i).fast
    · exact henters
    · rw [newActs_append (c := c) hacts] at h
      cases hno _ h

/-! ## RFC 5681 -/

/-- The window of the last ACK, and the duplicate ACKs since the last ACK of new data. -/
structure DupAcks where
  window : Option UInt16 := none
  dups : ℕ := 0

/-- RFC 5681's duplicate ACK: data is outstanding, and the segment has no payload, neither SYN nor FIN, the
ACK number `snd_una` and the window of the ACK before. -/
def TcpSession.isDupAck (s : TcpSession) (window : Option UInt16) (seg : Bytes) : Bool :=
  s.sndUna != s.sndNxt && (seg.drop (TcpHeader.dataOff seg)).isEmpty &&
    !hasFlag (TcpHeader.flags seg) TCP_SYN && !hasFlag (TcpHeader.flags seg) TCP_FIN &&
    TcpHeader.ack seg == s.sndUna && window == some (TcpHeader.window seg)

/-- One event, and the duplicate ACKs so far. -/
def dupStep (x : Ctx × DupAcks) (i : Input) : Ctx × DupAcks :=
  (x.1.step i, match i.event with
    | .segment seg =>
      if isAck seg then
        { window := some (TcpHeader.window seg)
          dups := if (x.1.step i).s.sndUna != x.1.s.sndUna then 0
            else if x.1.s.isDupAck x.2.window seg then x.2.dups + 1
            else x.2.dups }
      else x.2
    | _ => x.2)

/-- What the counter counts is a duplicate ACK. -/
def countsDupAcks (x : Ctx × DupAcks) : Event → Bool
  | .segment seg => !x.1.s.counts seg || x.1.s.isDupAck x.2.window seg
  | _ => true

def CountsDupAcks (x : Ctx × DupAcks) (i : Input) : Prop := countsDupAcks x i.event = true

instance (x : Ctx × DupAcks) (i : Input) : Decidable (CountsDupAcks x i) :=
  inferInstanceAs (Decidable (countsDupAcks x i.event = true))

/-- Fast recovery starts, or its retransmission goes out, after three duplicate ACKs. -/
def FastAfterThree (x : Ctx × DupAcks) (i : Input) : Prop :=
  (x.1.s.entersFast i.event = true ∨
    ∃ s b pkt ok, .emit .fastRetx s b pkt ok ∈ newActs x.1 (x.1.step i)) → 3 ≤ (dupStep x i).2.dups

/-- The counter does not run ahead of the duplicate ACKs. -/
def Tallies (x : Ctx × DupAcks) : Prop := x.1.s.dupAckCount.toNat ≤ x.2.dups

theorem dupStep_dups (x : Ctx × DupAcks) {i : Input} (hcounts : CountsDupAcks x i)
    (hsame : (x.1.step i).s.sndUna = x.1.s.sndUna) :
    x.2.dups + (if x.1.s.countsEvent i.event then 1 else 0) ≤ (dupStep x i).2.dups := by
  unfold CountsDupAcks at hcounts
  unfold dupStep
  simp only [hsame, bne_self_eq_false, Bool.false_eq_true, if_false]
  generalize i.event = ev at hcounts ⊢
  cases ev with
  | segment seg =>
    have hcounted : x.1.s.counts seg = true → isAck seg = true ∧ x.1.s.isDupAck x.2.window seg = true := by
      intro hc
      refine ⟨?_, by simpa [countsDupAcks, hc] using hcounts⟩
      simp only [TcpSession.counts, Bool.and_eq_true] at hc
      exact hc.1.1
    rw [show x.1.s.countsEvent (.segment seg) = x.1.s.counts seg from rfl]
    simp only
    by_cases hc : x.1.s.counts seg = true
    · obtain ⟨hack, hdup⟩ := hcounted hc
      rw [if_pos hc, if_pos hack, if_pos hdup]
    · rw [if_neg hc]
      by_cases hack : isAck seg = true
      · rw [if_pos hack]
        simp only
        split <;> omega
      · rw [if_neg hack]
        exact Nat.le_refl _
  | _ => exact Nat.le_refl _

theorem Tallies.step (x : Ctx × DupAcks) (i : Input) (hcounts : CountsDupAcks x i) (h : Tallies x) :
    Tallies (dupStep x i) ∧ FastAfterThree x i := by
  have hcount := step_recounted x.1 i
  have hdups := dupStep_dups x hcounts
  unfold Tallies at h
  refine ⟨?_, ?_⟩
  · show (x.1.step i).s.dupAckCount.toNat ≤ (dupStep x i).2.dups
    cases hcount with
    | fresh _ hne hz =>
      rw [hz]
      exact Nat.zero_le _
    | more hsame hle =>
      have := hdups hsame
      omega
  · intro hfast
    have henters : x.1.s.entersFast i.event = true :=
      hfast.elim id fun ⟨_, _, _, _, hem⟩ => fastRetx_entered hem
    obtain ⟨hcounted, htwo⟩ := Bool.and_eq_true_iff.mp henters
    cases hcount with
    | fresh hb _ _ =>
      rw [hcounted] at hb
      cases hb
    | more hsame _ =>
      have hstep := hdups hsame
      rw [if_pos hcounted] at hstep
      rw [eq_of_beq htwo] at h
      have : (2 : UInt8).toNat = 2 := rfl
      omega

theorem Accepted.tallies {key : FlowKey} {c₀ : Ctx} (h : Accepted key c₀) : Tallies (c₀, {}) := by
  obtain ⟨c, hc, heff⟩ := h.effects
  have hzero := congrArg Pacing.dupAckCount hc.pacing
  have hcount : c₀.s.dupAckCount = 0 := heff.dups_eq.trans hzero
  unfold Tallies
  rw [hcount]
  exact Nat.le_refl 0

/-- In a run whose counter counts duplicate ACKs only, fast recovery starts after three of them. -/
theorem fast_after_three {key : FlowKey} {c₀ : Ctx} (h₀ : Accepted key c₀) {inputs : List Input}
    (hcounts : Along dupStep CountsDupAcks (c₀, {}) inputs) : Along dupStep FastAfterThree (c₀, {}) inputs :=
  Along.imp (fun x i hc h => h.step x i hc) h₀.tallies hcounts

/-- An ACK of nothing new. -/
def repeatedAck : Input := ⟨.segment (clientSegment sampleKey TCP_ACK 101 1 1000 [] []), {}⟩

theorem fast_after_three_acks : Along dupStep FastAfterThree (sampleStart 1000 [], {})
    [sampleAck 1000, readByte 7, repeatedAck, repeatedAck, repeatedAck] :=
  fast_after_three (sampleStart_accepted _ _ (by decide)) (by decide +kernel)

/-- A byte that the client uploads, with the ACK number it sent before. -/
def uploaded (seq : UInt32) : Input :=
  ⟨.segment (clientSegment sampleKey (TCP_ACK ||| TCP_PSH) seq 1 1000 [] [7]), {}⟩

/-- Three uploaded bytes start fast recovery while the byte from the host is on its way. -/
theorem upload_retransmits_fast : ¬ ∀ (key : FlowKey) (c₀ : Ctx) (inputs : List Input), Accepted key c₀ →
    Along dupStep FastAfterThree (c₀, {}) inputs := by
  intro hall
  have halong := hall _ _ ([sampleAck 1000, readByte 7, uploaded 101, uploaded 102] ++ [uploaded 103])
    (sampleStart_accepted 1000 [] (by decide))
  have hlast := halong.last
  unfold FastAfterThree at hlast
  exact absurd (hlast (.inl (by decide +kernel))) (by decide +kernel)

end BaleVpn.Tcp
