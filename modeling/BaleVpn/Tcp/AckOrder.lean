import BaleVpn.Lib.Machine
import BaleVpn.Tcp.Driven
import BaleVpn.Tcp.HostWrites
import BaleVpn.Tcp.PeerWindow
import BaleVpn.Tcp.SackedBytes

/-!
# `snd_una`, `snd_nxt` and the RTO

`snd_una` only moves forward, to ACK numbers that `snd_nxt` has reached; a queue that is not empty has
its RTO armed; and the RTO gives up at its ninth turn without an ACK of new data. `snd_una` stays behind
`snd_nxt` as long as less than half of the sequence space is in flight, which the windows guarantee for a
client that does not SACK what it will not acknowledge.
-/

namespace BaleVpn.Tcp

open Net Lib Relation

/-! ## The numbers -/

theorem seqLe_refl (a : UInt32) : seqLe a a = true := (seqLe_iff a a).mpr (.inl rfl)

theorem seqLe_of_not {a b : UInt32} (h : seqLe b a = false) : seqLe a b = true := by
  rw [seqLe_iff]
  by_contra hnot
  obtain ⟨hne, hlt⟩ := not_or.mp hnot
  have hrev : ¬ (b = a ∨ 2 ^ 31 ≤ (b - a).toNat) := by
    rw [← seqLe_iff, h]
    exact Bool.false_ne_true
  obtain ⟨-, hlt'⟩ := not_or.mp hrev
  have hne' : a.toNat ≠ b.toNat := fun heq => hne (UInt32.toNat_inj.mp heq)
  rw [UInt32.toNat_sub] at hlt hlt'
  have := a.toNat_lt
  have := b.toNat_lt
  omega

theorem seqLe_of_flight {una nxt : UInt32} (h : (nxt - una).toNat ≤ 2 ^ 31) : seqLe una nxt = true := by
  rw [seqLe_iff]
  by_cases heq : una = nxt
  · exact .inl heq
  · right
    have hne : una.toNat ≠ nxt.toNat := fun h' => heq (UInt32.toNat_inj.mp h')
    rw [UInt32.toNat_sub] at h ⊢
    have := una.toNat_lt
    have := nxt.toNat_lt
    omega

/-! ## What moves `snd_una` -/

theorem emitSegment_una (c : Ctx) (cause : Cause) (flags : UInt8) (seq : UInt32) (payload : Bytes)
    (record : Bool) (options : Bytes) :
    (c.emitSegment cause flags seq payload record options).2.s.sndUna = c.s.sndUna := by
  obtain ⟨p, q, hs⟩ := (emitSegment_handed c cause flags seq payload record options).session
  rw [hs]

theorem Effect.una_kept {st : Stage} {c c' : Ctx} (h : Effect st c c') (hst : st ≠ .ack) :
    c'.s.sndUna = c.s.sndUna := by
  cases h with
  | quiet h => exact h.una
  | emitSegment _ cause _ flags seq payload record options =>
    exact emitSegment_una c cause flags seq payload record options
  | prr _ _ prev acked =>
    obtain ⟨p, hp⟩ := updatePrrAfterAck_pacing c.s prev acked
    rw [hp]
  | newAck | sample | pop | una | refresh => exact absurd rfl hst
  | _ => rfl

theorem emitSegment_retries (c : Ctx) (cause : Cause) (flags : UInt8) (seq : UInt32) (payload : Bytes)
    (record : Bool) (options : Bytes) :
    (c.emitSegment cause flags seq payload record options).2.s.rtoRetries = c.s.rtoRetries := by
  have hsteady := (emitSegment_frame c cause flags seq payload record options).steady
  generalize (c.emitSegment cause flags seq payload record options).2 = c' at hsteady ⊢
  have hretries := congrArg Pacing.rtoRetries hsteady
  exact hretries

theorem Effect.retries_kept {st : Stage} {c c' : Ctx} (h : Effect st c c') (hst : st = .dup ∨ st = .rest) :
    c'.s.rtoRetries = c.s.rtoRetries := by
  cases h with
  | quiet h => exact congrArg Pacing.rtoRetries h.pacing
  | pace _ p h =>
    have hretries := congrArg Pacing.rtoRetries h
    exact hretries
  | emitSegment _ cause _ flags seq payload record options =>
    exact emitSegment_retries c cause flags seq payload record options
  | prr _ _ prev acked =>
    unfold TcpSession.updatePrrAfterAck
    split <;> rfl
  | newAck | sample | pop | una | refresh | reduce | retry | backOff => simp at hst
  | _ => rfl

/-- `snd_una` and the retries of the RTO. -/
structure SameUna (c c' : Ctx) : Prop where
  una : c'.s.sndUna = c.s.sndUna
  retries : c'.s.rtoRetries = c.s.rtoRetries

theorem SameUna.trans {c c' c'' : Ctx} (h : SameUna c c') (h' : SameUna c' c'') : SameUna c c'' :=
  ⟨h'.una.trans h.una, h'.retries.trans h.retries⟩

theorem Effects.sameUna {st : Stage} {c c' : Ctx} (h : Effects st c c') (hst : st = .dup ∨ st = .rest) :
    SameUna c c' := by
  have hack : st ≠ .ack := by obtain rfl | rfl := hst <;> simp
  induction h with
  | refl => exact ⟨rfl, rfl⟩
  | tail _ heff ih => exact ih.trans ⟨heff.una_kept hack, heff.retries_kept hst⟩

theorem preprocess_sameUna (c : Ctx) (opts : Bytes) (seq : UInt32) :
    SameUna c (c.preprocess opts seq) := by
  obtain ⟨n, hcounted⟩ := SackEffects.counted (preprocess_effects c opts seq)
  have hretries := congrArg Pacing.rtoRetries hcounted
  exact ⟨congrArg (fun v : View => v.send.sndUna) (preprocess_view c opts seq), hretries⟩

theorem onNewAck_una (c : Ctx) (ackNo now : UInt32) :
    (c.onNewAck ackNo now).s.sndUna = ackNo ∧ (c.onNewAck ackNo now).s.rtoRetries = 0 := by
  have hadvance : ∀ c : Ctx, (c.advanceUna ackNo).s.sndUna = ackNo ∧
      (c.advanceUna ackNo).s.rtoRetries = 0 := by
    intro c
    unfold Ctx.advanceUna TcpSession.updatePrrAfterAck
    simp only
    split <;> exact ⟨rfl, rfl⟩
  have hrest : ∀ c : Ctx, SameUna c
      (((c.rackDetectLossAndArmTimer now).refreshRto.partialRetx now).rearmRto now) := by
    intro c
    have hrack := Effects.sameUna (rackDetectLossAndArmTimer_effects c now) (.inr rfl)
    have hrefresh : SameUna (c.rackDetectLossAndArmTimer now)
        (c.rackDetectLossAndArmTimer now).refreshRto := ⟨rfl, rfl⟩
    have hrearm := Effects.sameUna ((partialRetx_effects (c.rackDetectLossAndArmTimer now).refreshRto
      now).trans (rearmRto_effects _ now)) (.inr rfl)
    exact (hrack.trans hrefresh).trans hrearm
  unfold Ctx.onNewAck
  simp only
  generalize Ctx.popAcked ackNo now (c.noteNewAck ackNo).sampleTsRtt.2.s.retx
    (c.noteNewAck ackNo).sampleTsRtt.1 (c.noteNewAck ackNo).sampleTsRtt.2 = c₁
  obtain ⟨huna, hretries⟩ := hadvance c₁
  have hkept := hrest (c₁.advanceUna ackNo)
  exact ⟨hkept.una.trans huna, hkept.retries.trans hretries⟩

/-- What a segment does to `snd_una` and the retries: nothing, or an ACK of new data. -/
def Acked (c c' : Ctx) : Prop :=
  SameUna c c' ∨ (seqLe c'.s.sndUna c.s.sndUna = false ∧ c'.s.rtoRetries = 0)

theorem Acked.forward {c c' : Ctx} (h : Acked c c') : seqLe c.s.sndUna c'.s.sndUna = true := by
  obtain hsame | ⟨hnew, -⟩ := h
  · rw [hsame.una]
    exact seqLe_refl _
  · exact seqLe_of_not hnew

theorem onAck_acked (c : Ctx) (ackNo now : UInt32) : Acked c (c.onAck ackNo now) := by
  unfold Ctx.onAck
  split
  · exact .inl ⟨rfl, rfl⟩
  · split
    · exact .inl (Effects.sameUna (onDupAck_effects c ackNo now) (.inl rfl))
    · rename_i hnew
      obtain ⟨huna, hretries⟩ := onNewAck_una c ackNo now
      refine .inr ⟨?_, hretries⟩
      rw [huna]
      exact Bool.eq_false_iff.mpr hnew

theorem SameUna.acked {c c' c'' : Ctx} (h : SameUna c c') (h' : Acked c' c'') : Acked c c'' := by
  obtain hsame | ⟨hnew, hretries⟩ := h'
  · exact .inl (h.trans hsame)
  · rw [h.una] at hnew
    exact .inr ⟨hnew, hretries⟩

theorem Acked.then {c c' c'' : Ctx} (h : Acked c c') (h' : SameUna c' c'') : Acked c c'' := by
  obtain hsame | ⟨hnew, hretries⟩ := h
  · exact .inl (hsame.trans h')
  · rw [← h'.una] at hnew
    exact .inr ⟨hnew, h'.retries.trans hretries⟩

theorem afterAck_acked (c : Ctx) (seg : Bytes) : Acked c (c.afterAck seg) := by
  have hpre := preprocess_sameUna c (segOptions seg) (TcpHeader.seq seg)
  unfold Ctx.afterAck Ctx.ackStage
  generalize c.preprocess (segOptions seg) (TcpHeader.seq seg) = c₁ at hpre ⊢
  simp only
  split
  · exact .inl hpre
  · split
    · have hread : SameUna c₁ c₁.nowMs.2 := ⟨rfl, rfl⟩
      exact (hpre.trans hread).acked (onAck_acked _ _ _)
    · exact .inl hpre

/-! ## The RTO gives up -/

/-- A tick that finds the RTO due and something to send again. -/
def Ctx.fires (c : Ctx) : Event → Bool
  | .tick now => c.s.state != .closed && c.s.rtoDeadlineMs != 0 && timeAfter now c.s.rtoDeadlineMs &&
      !c.s.retx.isEmpty
  | _ => false

/-- One event, and how often the RTO has fired since an ACK last moved `snd_una`. -/
def fireStep (x : Ctx × ℕ) (i : Input) : Ctx × ℕ :=
  (x.1.step i,
    if (x.1.step i).s.sndUna != x.1.s.sndUna then 0
    else if x.1.fires i.event then x.2 + 1
    else x.2)

/-- How often the RTO has fired in a run since an ACK last moved `snd_una`. -/
def firesSince (c : Ctx) (inputs : List Input) : ℕ := (inputs.foldl fireStep (c, 0)).2

theorem fireStep_run (inputs : List Input) : ∀ (c : Ctx) (n : ℕ),
    (inputs.foldl fireStep (c, n)).1 = c.run inputs := by
  induction inputs with
  | nil => exact fun _ _ => rfl
  | cons i inputs ih => exact fun c n => ih _ _

theorem rtoRetry_retries (c : Ctx) (now : UInt32) :
    (c.rtoRetry now).s.rtoRetries = c.s.rtoRetries + 1 ∧
      (9 ≤ c.s.rtoRetries + 1 → (c.rtoRetry now).s.state = .closed) := by
  obtain ⟨c₁, hc₁⟩ : ∃ c₁ : Ctx, c₁ = { c with s.rtoRetries := c.s.rtoRetries + 1 } := ⟨_, rfl⟩
  have hretries : c₁.s.rtoRetries = c.s.rtoRetries + 1 := by rw [hc₁]
  unfold Ctx.rtoRetry
  simp only
  rw [← hc₁, ← hretries]
  split
  · have habort := Effects.sameUna (abort_quiet c₁).effects (.inr rfl)
    exact ⟨habort.retries, fun _ => abort_state c₁⟩
  · rename_i hfew
    exact ⟨rfl, fun hmany => absurd hmany hfew⟩

theorem rtoFire_retries (c : Ctx) (now : UInt32) (hne : c.s.retx ≠ []) :
    (c.rtoFire now).s.rtoRetries = c.s.rtoRetries + 1 ∧
      (9 ≤ c.s.rtoRetries + 1 → (c.rtoFire now).s.state = .closed) := by
  have hsent := Effects.sameUna (retransmit_effects (t := .rest) (c.rtoReduce now) .rtoRetx (by simp) 0
    now) (.inr rfl)
  have hretries : ((c.rtoReduce now).retransmit .rtoRetx 0 now).2.s.rtoRetries = c.s.rtoRetries :=
    hsent.retries
  unfold Ctx.rtoFire
  rw [if_neg (by simpa using hne), ← hretries]
  exact rtoRetry_retries _ now

theorem tickTimers_sameUna (c : Ctx) (now : UInt32) : SameUna c (c.tickTimers now) :=
  Effects.sameUna (tickTimers_effects c now) (.inr rfl)

theorem tickRest_retries (c : Ctx) (now : UInt32) :
    (c.s.state = .closed → (if c.s.state == .closed then (false, c)
      else
        let c := c.tickTimers now
        if c.s.state == .timeWait && timeAfter now c.s.timeWaitDeadlineMs then (false, c.markClosed)
        else (true, c)).2.s.state = .closed) ∧
    (if c.s.state == .closed then (false, c)
      else
        let c := c.tickTimers now
        if c.s.state == .timeWait && timeAfter now c.s.timeWaitDeadlineMs then (false, c.markClosed)
        else (true, c)).2.s.rtoRetries = c.s.rtoRetries := by
  by_cases hclosed : c.s.state = .closed
  · rw [if_pos (by simpa using hclosed)]
    exact ⟨fun h => h, rfl⟩
  · rw [if_neg (by simpa using hclosed)]
    refine ⟨fun h => absurd h hclosed, ?_⟩
    have htimers := (tickTimers_sameUna c now).retries
    generalize c.tickTimers now = c₁ at htimers ⊢
    simp only
    split
    · exact (Effects.sameUna (markClosed_quiet c₁).effects (.inr rfl)).retries.trans htimers
    · exact htimers

theorem tick_retries (c : Ctx) (now : UInt32) (hopen : c.s.state ≠ .closed) :
    if c.fires (.tick now) then
      (c.tick now).2.s.rtoRetries = c.s.rtoRetries + 1 ∧
        (9 ≤ c.s.rtoRetries + 1 → (c.tick now).2.s.state = .closed)
    else (c.tick now).2.s.rtoRetries = c.s.rtoRetries := by
  obtain ⟨c₁, hc₁⟩ : ∃ c₁, c₁ = if c.s.rtoDeadlineMs != 0 && timeAfter now c.s.rtoDeadlineMs then
    c.rtoFire now else c := ⟨_, rfl⟩
  have htick : (c.tick now).2 = (if c₁.s.state == .closed then (false, c₁)
      else
        let c := c₁.tickTimers now
        if c.s.state == .timeWait && timeAfter now c.s.timeWaitDeadlineMs then (false, c.markClosed)
        else (true, c)).2 := by
    rw [hc₁]
    unfold Ctx.tick
    rw [if_neg (by simpa using hopen)]
  obtain ⟨hstays, hrest⟩ := tickRest_retries c₁ now
  rw [htick, hrest]
  cases hfires : c.fires (.tick now) with
  | true =>
    simp only [Ctx.fires, Bool.and_eq_true, Bool.not_eq_true', List.isEmpty_eq_false_iff] at hfires
    obtain ⟨⟨⟨-, harmed⟩, hdue⟩, hne⟩ := hfires
    have hfired : c₁ = c.rtoFire now := by
      rw [hc₁, harmed, hdue]
      rfl
    obtain ⟨hretries, hcloses⟩ := rtoFire_retries c now hne
    rw [hfired] at hstays ⊢
    rw [if_pos rfl]
    exact ⟨hretries, fun hmany => hstays (hcloses hmany)⟩
  | false =>
    rw [if_neg Bool.false_ne_true, hc₁]
    split
    · rename_i hdue
      have hempty : c.s.retx = [] := by
        simp only [Bool.and_eq_true] at hdue
        simpa [Ctx.fires, hopen, hdue.1, hdue.2] using hfires
      have hsame : c.rtoFire now = c := if_pos (by rw [hempty]; rfl)
      rw [hsame]
    · rfl

/-- What an event does to `snd_una` and the retries: an ACK of new data, a timeout, or neither. -/
inductive Turn (c : Ctx) (ev : Event) (c' : Ctx) : Prop
  | acked (h : Acked c c') (hf : c.fires ev = false)
  | fired (huna : c'.s.sndUna = c.s.sndUna) (hf : c.fires ev = true)
      (hretries : c'.s.rtoRetries = c.s.rtoRetries + 1)
      (hcloses : 9 ≤ c.s.rtoRetries + 1 → c'.s.state = .closed)

theorem Effects.una_kept {st : Stage} {c c' : Ctx} (h : Effects st c c') (hst : st ≠ .ack) :
    c'.s.sndUna = c.s.sndUna :=
  h.invariant (P := fun c' => c'.s.sndUna = c.s.sndUna) (fun _ _ heff hc => (heff.una_kept hst).trans hc) rfl

theorem handle_turn (c : Ctx) (hopen : c.s.state ≠ .closed) (ev : Event) : Turn c ev (c.handle ev) := by
  cases ev with
  | segment seg =>
    have hstages : EventStages c (.segment seg) (c.handle (.segment seg)) := handle_stages c hopen _
    generalize c.handle (.segment seg) = c' at hstages
    cases hstages with
    | malformed _ => exact .acked (.inl ⟨rfl, rfl⟩) rfl
    | segment _ hrest => exact .acked ((afterAck_acked c seg).then (hrest.sameUna (.inr rfl))) rfl
  | host ev => exact .acked (.inl ((onHostEvent_effects c ev).sameUna (.inr rfl))) rfl
  | windowUpdate => exact .acked (.inl ((fanOutWindowUpdate_effects c).sameUna (.inr rfl))) rfl
  | tick now =>
    have huna := (tick_effects c now).una_kept (by simp)
    have hretries := tick_retries c now hopen
    split at hretries
    · rename_i hfires
      exact .fired huna hfires hretries.1 hretries.2
    · rename_i hquiet
      exact .acked (.inl ⟨huna, hretries⟩) (Bool.eq_false_iff.mpr hquiet)

theorem Turn.forward {c c' : Ctx} {ev : Event} (h : Turn c ev c') :
    seqLe c.s.sndUna c'.s.sndUna = true := by
  cases h with
  | acked h _ => exact h.forward
  | fired huna _ _ _ =>
    rw [huna]
    exact seqLe_refl _

theorem step_turn {c : Ctx} (hopen : c.s.state ≠ .closed) (i : Input) : Turn c i.event (c.step i) := by
  have hturn := handle_turn (c.load i.oracle) hopen i.event
  rw [step_open hopen]
  cases hturn with
  | acked h hf =>
    obtain hsame | hnew := h
    · exact .acked (.inl ⟨hsame.una, hsame.retries⟩) hf
    · exact .acked (.inr hnew) hf
  | fired huna hf hretries hcloses => exact .fired huna hf hretries hcloses

theorem step_forward (c : Ctx) (i : Input) : seqLe c.s.sndUna (c.step i).s.sndUna = true := by
  by_cases hclosed : c.s.state = .closed
  · rw [step_closed hclosed]
    exact seqLe_refl _
  · exact (step_turn hclosed i).forward

/-- The retries count the timeouts since an ACK of new data, and there is no tenth. -/
structure Tried (x : Ctx × ℕ) : Prop where
  retries : x.1.s.rtoRetries.toNat = x.2
  few : x.1.s.state ≠ .closed → x.2 < 9

theorem Tried.step {x : Ctx × ℕ} (h : Tried x) (i : Input) : Tried (fireStep x i) := by
  obtain ⟨c, n⟩ := x
  obtain ⟨hretries, hfew⟩ := h
  simp only at hretries hfew
  by_cases hclosed : c.s.state = .closed
  · have hquiet : c.fires i.event = false := by
      cases i.event <;> simp [Ctx.fires, hclosed]
    unfold fireStep
    simp only [step_closed hclosed, bne_self_eq_false, Bool.false_eq_true, if_false, hquiet]
    exact ⟨hretries, hfew⟩
  · have hlt := hfew hclosed
    have hturn := step_turn hclosed i
    unfold fireStep
    simp only
    generalize c.step i = c' at hturn ⊢
    cases hturn with
    | acked hack hf =>
      obtain hsame | ⟨hnew, hzero⟩ := hack
      · rw [hsame.una, bne_self_eq_false, if_neg Bool.false_ne_true, hf, if_neg Bool.false_ne_true]
        exact ⟨by rw [hsame.retries, hretries], fun _ => hlt⟩
      · have hmoved : c'.s.sndUna ≠ c.s.sndUna := by
          intro heq
          rw [heq, seqLe_refl] at hnew
          cases hnew
        rw [if_pos (by simpa using hmoved)]
        exact ⟨by rw [hzero]; rfl, fun _ => by omega⟩
    | fired huna hf hretry hcloses =>
      have hcount : (c.s.rtoRetries + 1).toNat = n + 1 := by
        rw [UInt8.toNat_add, hretries]
        show (n + 1) % 256 = n + 1
        omega
      rw [huna, bne_self_eq_false, if_neg Bool.false_ne_true, if_pos hf]
      refine ⟨by rw [hretry, hcount], fun hopen => ?_⟩
      by_contra hmany
      refine hopen (hcloses ?_)
      rw [UInt8.le_iff_toNat_le, hcount]
      show 9 ≤ n + 1
      omega

theorem Accepted.tried {key : FlowKey} {c₀ : Ctx} (h : Accepted key c₀) : Tried (c₀, 0) := by
  obtain ⟨c, hc, heff⟩ := h.effects
  have hzero := congrArg Pacing.rtoRetries hc.pacing
  have hretries : c₀.s.rtoRetries = 0 := (heff.sameUna (.inr rfl)).retries.trans hzero
  exact ⟨by rw [hretries]; rfl, fun _ => by omega⟩

/-- Nine timeouts without an ACK of new data close the session. -/
theorem fires_close {key : FlowKey} {c₀ : Ctx} (h₀ : Accepted key c₀) (inputs : List Input)
    (hmany : 9 ≤ firesSince c₀ inputs) : (c₀.run inputs).s.state = .closed := by
  have htried := foldl_invariant (I := Tried) (fun _ i h => h.step i) inputs h₀.tried
  by_contra hopen
  rw [← fireStep_run inputs c₀ 0] at hopen
  have := htried.few hopen
  unfold firesSince at hmany
  omega

/-! ## The RTO is armed -/

theorem Micro.armed {v v' : View} (h : Micro v v') (hv : Armed v) : Armed v' := by
  cases h with
  | sender h => exact h.armed hv
  | fin d hs he hd hf hb =>
    intro hun _
    rw [List.append_cons v.trace] at hun
    exact armedRto_ne_zero hun
  | clear | pause | window | establish | finIn | settle => exact hv
  | _ => exact fun hun hne => hv hun.of_append hne

theorem armed_kept : Kept Armed where
  micro := Micro.armed
  host {x y} h hx := by
    intro hun hne
    have hrto : y.s.rtoDeadlineMs = x.s.rtoDeadlineMs := congrArg Pacing.rtoDeadlineMs h.frame.pacing
    have hqueue : y.view.queue = x.view.queue := congrArg (List.map OutSeg.core) h.frame.retx
    rw [hqueue] at hne
    rw [show y.view.rto = x.view.rto from hrto]
    exact hx (hun.of_adds h.adds) hne
  wake _ hv := hv

theorem Started.armed {key : FlowKey} {v : View} (h : Started key v) : Armed v := by
  intro hun hne
  cases h with
  | lost acts d hp ho hf ha => exact absurd rfl hne
  | sent d d' hp ho hf hb => simpa [Action.strands] using hun (.armRto d') (by simp)

theorem processTimeWait_state (c : Ctx) (flags : UInt8) :
    (c.processTimeWait flags).s.state = c.s.state := by
  cases hfin : hasFlag flags TCP_FIN with
  | false =>
    have hstay : c.processTimeWait flags = c := if_neg (by simp [hfin])
    rw [hstay]
  | true =>
    obtain ⟨d, hd⟩ := processTimeWait_fin c hfin
    have hack := emitAck_state c
    rw [hd]
    generalize c.emitAck = c₁ at hack ⊢
    exact hack

theorem handle_timeWait {c : Ctx} (hwait : c.s.state = .timeWait) (hhost : c.s.host = false)
    (ev : Event) : (c.handle ev).s.state = .timeWait ∨ (c.handle ev).s.state = .closed := by
  cases ev with
  | segment seg =>
    have hpre := preprocess_state c ((seg.take (TcpHeader.dataOff seg)).drop 20) (TcpHeader.seq seg)
    show (c.onSegment seg).2.s.state = _ ∨ (c.onSegment seg).2.s.state = _
    unfold Ctx.onSegment
    split
    · exact .inl hwait
    · simp only
      split
      · exact .inl hwait
      · generalize c.preprocess ((seg.take (TcpHeader.dataOff seg)).drop 20) (TcpHeader.seq seg) = c₁
          at hpre ⊢
        rw [hwait] at hpre
        split
        · split
          · exact .inr (markClosed_state c₁)
          · exact .inl hpre
        · rw [if_neg (by rw [hpre]; decide)]
          left
          have hstay : ∀ flags seq ack wnd payload,
              c₁.dispatchState flags seq ack wnd payload = c₁.processTimeWait flags := by
            intro flags seq ack wnd payload
            unfold Ctx.dispatchState
            rw [hpre]
          rw [hstay, processTimeWait_state, hpre]
  | host ev =>
    left
    have hdrain : ∀ c : Ctx, c.s.state = .timeWait → c.s.host = false →
        c.onHostWritable.s.state = .timeWait ∧ c.onHostWritable.s.host = false := by
      intro c hwait hhost
      unfold Ctx.onHostWritable Ctx.connectFailed Ctx.writableDrained Ctx.tryDrainToHost
      simp [hhost, hwait]
    have hread : ∀ c : Ctx, c.s.host = false → c.onHostReadable = c := by
      intro c hhost
      unfold Ctx.onHostReadable
      rw [hhost]
      rfl
    have hclosed : ∀ c : Ctx, c.s.state = .timeWait → c.hostClosedEvent.s.state = .timeWait := by
      intro c hwait
      unfold Ctx.hostClosedEvent Ctx.canFin
      simp [Ctx.noteClosed, Ctx.log, hwait]
    have hwritable : (if ev.isWritable then c.onHostWritable else c).s.state = .timeWait ∧
        (if ev.isWritable then c.onHostWritable else c).s.host = false := by
      split
      · exact hdrain c hwait hhost
      · exact ⟨hwait, hhost⟩
    show (c.onHostEvent ev).s.state = .timeWait
    unfold Ctx.onHostEvent Ctx.socketError
    simp only [hhost, Bool.and_false, Bool.false_eq_true, if_false]
    generalize (if ev.isWritable then c.onHostWritable else c) = c₁ at hwritable ⊢
    rw [hread c₁ hwritable.2]
    simp only [ite_self]
    split
    · exact hclosed c₁ hwritable.1
    · exact hwritable.1
  | tick now =>
    obtain hclosed | hpath := tick_core c now
    · exact .inr hclosed
    · have hcore : (c.tick now).2.s.core = c.s.core := ResendPath.core hpath
      exact .inl ((congrArg Core.state hcore).trans hwait)
  | windowUpdate =>
    left
    show c.fanOutWindowUpdate.s.state = .timeWait
    unfold Ctx.fanOutWindowUpdate
    simp only [hwait]

/-- Unless a session is closed or in `TimeWait`, its RTO is armed while its queue is not empty. -/
theorem armed_run {key : FlowKey} {c₀ : Ctx} (h₀ : Accepted key c₀) (inputs : List Input) :
    (c₀.run inputs).s.state = .closed ∨ (c₀.run inputs).s.state = .timeWait ∨
      Armed (c₀.run inputs).view := by
  induction inputs using List.reverseRecOn with
  | nil => exact .inr (.inr h₀.started.armed)
  | append_singleton inputs i ih =>
    have hgone := (hostInv_stable.reachable (fun _ hs => hs.hostInv h₀.1) (h₀.reachable inputs)).gone
    rw [Ctx.run_snoc]
    generalize c₀.run inputs = c at ih hgone ⊢
    by_cases hclosed : c.s.state = .closed
    · rw [step_closed hclosed]
      exact .inl hclosed
    · rw [step_open hclosed]
      obtain hwait | harmed := ih.resolve_left hclosed
      · obtain hstay | hend := handle_timeWait (c := c.load i.oracle) hwait (hgone hwait) i.event
        · exact .inr (.inl hstay)
        · exact .inl hend
      · exact armed_kept.outcome (handle_outcome (c.load i.oracle) hclosed i.event) harmed

/-! ## Half of the sequence space -/

/-- The next segment ends less than half of the sequence space after `snd_una`: by the bytes in flight
and the segment's own, or by the SACKed bytes in flight and the effective window. -/
def NarrowSend (s : TcpSession) : Prop :=
  s.flight.toNat + min s.peerMss.toNat s.pending < 2 ^ 31 ∨
    min s.sackedBytes.toNat s.flight.toNat + (min s.sndWnd s.cwnd).toNat < 2 ^ 31

instance (s : TcpSession) : Decidable (NarrowSend s) := inferInstanceAs (Decidable (_ ∨ _))

theorem data_narrow_iff {s : TcpSession} {chunk : ℕ} (h : ChunkOf .data s chunk) :
    s.flight.toNat + chunk < 2 ^ 31 ↔ NarrowSend s := by
  obtain ⟨hpos, hpipe, hchunk⟩ := h
  have hp := pipe_toNat s
  have hlt := UInt32.lt_iff_toNat_lt.mp hpipe
  have hsub := UInt32.toNat_sub_of_le _ _ (UInt32.le_iff_toNat_le.mpr (Nat.le_of_lt hlt))
  unfold NarrowSend
  rw [hsub] at hchunk
  omega

/-- The first transmissions of `try_segment_and_emit` are narrow. -/
def Action.Narrow : Action → Prop
  | .emit cause s _ _ ok => cause = .data → ok = true → NarrowSend s
  | _ => True

instance : DecidablePred Action.Narrow
  | .emit cause s _ _ ok => inferInstanceAs (Decidable (cause = .data → ok = true → NarrowSend s))
  | .armRto _ | .popRetx _ | .enqueue _ | .write _ | .writeZero | .writeBlocked | .writeErr | .read _
  | .readEof | .hostOpen | .hostClosed | .shutdownWr | .dropHost _ | .markClosed => isTrue trivial

/-- A peer's window stays below `2^30` bytes. -/
def Action.Windowed : Action → Prop
  | .emit cause s _ _ _ => cause ≠ .rst → s.sndWnd.toNat < 2 ^ 30
  | _ => True

structure WindowBound (c : Ctx) : Prop where
  wscale : c.s.peerWscale ≤ 14
  wnd : c.s.sndWnd.toNat < 2 ^ 30
  sent : ∀ a ∈ c.io.trace, a.Windowed

theorem scaled_window_lt (w : UInt16) {k : UInt8} (hk : k ≤ 14) :
    (w.toUInt32 <<< k.toUInt32).toNat < 2 ^ 30 := by
  have hw := w.toNat_lt
  have hk' : k.toNat ≤ 14 := UInt8.le_iff_toNat_le.mp hk
  have hpow : 2 ^ k.toNat ≤ 2 ^ 14 := Nat.pow_le_pow_right (by decide) hk'
  have hmul : w.toNat * 2 ^ k.toNat ≤ 65535 * 2 ^ 14 := Nat.mul_le_mul (by omega) hpow
  rw [UInt32.toNat_shiftLeft, UInt16.toNat_toUInt32, UInt8.toNat_toUInt32, Nat.shiftLeft_eq,
    Nat.mod_eq_of_lt (show k.toNat < 32 by omega)]
  omega

theorem framing_sndWnd (c : Ctx) (flags : UInt8) : (c.framing flags).sndWnd = c.s.sndWnd := by
  unfold Ctx.framing
  rw [advertise_eq]
  rfl

theorem Effect.windowBound {st : Stage} {c c' : Ctx} (h : Effect st c c') (hc : WindowBound c) :
    WindowBound c' := by
  have hfix := h.fixed
  refine ⟨?_, ?_, (h.adds.mono fun a ha => ?_).all hc.sent⟩
  · rw [show c'.s.peerWscale = c.s.peerWscale from congrArg PeerOpts.peerWscale hfix.peer]
    exact hc.wscale
  · obtain hwnd | ⟨w, hwnd⟩ := hfix.wnd
    · rw [hwnd]
      exact hc.wnd
    · rw [hwnd]
      exact scaled_window_lt w hc.wscale
  · obtain hless | ⟨cause, flags, seq, payload, options, -, hhands⟩ := ha
    · cases a with
      | emit cause s b pkt ok => exact fun hne => absurd hless.1 hne
      | _ => trivial
    · cases hhands with
      | segment ts pkt ok =>
        intro _
        rw [framing_sndWnd]
        exact hc.wnd
      | arm d => trivial

theorem SackEffect.windowBound {c c' : Ctx} (h : SackEffect c c') (hc : WindowBound c) :
    WindowBound c' := by
  cases h with
  | pace p _ => exact ⟨hc.wscale, hc.wnd, hc.sent⟩
  | block _ => exact ⟨hc.wscale, hc.wnd, hc.sent⟩

theorem Accepted.windowBound {key : FlowKey} {c₀ : Ctx} (h : Accepted key c₀) : WindowBound c₀ := by
  obtain ⟨c, hc, heff⟩ := h.effects
  refine heff.invariant (fun _ _ heff => heff.windowBound) ⟨hc.wscale, ?_, by simp [hc.trace]⟩
  obtain ⟨w, hw⟩ := hc.wnd
  have := w.toNat_lt
  rw [hw, UInt16.toNat_toUInt32]
  omega

theorem windowBound_run {key : FlowKey} {c₀ : Ctx} (h₀ : Accepted key c₀) (inputs : List Input) :
    WindowBound (c₀.run inputs) := by
  refine run_stages (Q := fun _ _ => True) h₀.windowBound ?_ (each_const.mpr fun _ _ => trivial)
  intro c i _ hstages _ hc
  have hload : WindowBound (c.load i.oracle) := ⟨hc.wscale, hc.wnd, hc.sent⟩
  exact hstages.invariant (fun _ _ _ heff => heff.windowBound) (fun _ _ heff => heff.windowBound) hload

/-- At most half of the sequence space is in flight, one number less before the FIN. -/
def Halved (v : View) : Prop :=
  (∀ a ∈ v.trace, a.Narrow ∧ a.Windowed) →
    (v.send.sndNxt - v.send.sndUna).toNat + (if v.send.sentFin then 0 else 1) ≤ 2 ^ 31

theorem Halved.of_append {v : View} (hv : Halved v) {acts : List Action}
    (h : ∀ a ∈ v.trace ++ acts, a.Narrow ∧ a.Windowed) :
    (v.send.sndNxt - v.send.sndUna).toNat + (if v.send.sentFin then 0 else 1) ≤ 2 ^ 31 :=
  hv fun a ha => h a (List.mem_append_left _ ha)

theorem flight_add (nxt una : UInt32) (n : ℕ) (h : (nxt - una).toNat + n < 2 ^ 32) :
    (nxt + n.toUInt32 - una).toNat = (nxt - una).toNat + n := by
  have hn : n.toUInt32.toNat = n := by
    rw [Nat.toUInt32_eq, UInt32.toNat_ofNat']
    omega
  rw [UInt32.toNat_sub] at h ⊢
  rw [UInt32.toNat_sub, UInt32.toNat_add, hn]
  have := una.toNat_lt
  have := nxt.toNat_lt
  omega

theorem Sender.halved {v v' : View} (h : Sender v v') (hv : Halved v) : Halved v' := by
  cases h with
  | resend h =>
    have hcore := h.core
    obtain ⟨acts, hacts, -⟩ := h.adds
    intro hall
    rw [hacts] at hall
    rw [show v'.send = v.send from congrArg Core.send hcore]
    exact hv.of_append hall
  | refuse hk hf hb => exact fun hall => hv.of_append hall
  | @send cause s b pkt chunk d hk hf hb =>
    intro hall
    have hflight : (v.send.sndNxt - v.send.sndUna).toNat = s.flight.toNat := by
      rw [← hf.snap]
      rfl
    have hsent := hall (.emit cause s b pkt true) (by simp)
    have hlt : s.flight.toNat + chunk < 2 ^ 31 := by
      cases cause with
      | data => exact (data_narrow_iff hk).mpr (hsent.1 rfl rfl)
      | limitedTransmit =>
        have hfits := limited_fits hk
        have hwnd := hsent.2 (by simp)
        omega
      | _ => exact hk.2.elim
    show (v.send.sndNxt + chunk.toUInt32 - v.send.sndUna).toNat + (if v.send.sentFin then 0 else 1) ≤ 2 ^ 31
    rw [flight_add _ _ _ (by omega), hflight]
    split <;> omega
  | ackIn a popped rest hq hhi hlo hp hr =>
    intro _
    have hlt : (v.send.sndNxt - a).toNat < 2 ^ 31 := by
      rw [← not_le, ← seqLt_iff, hhi]
      exact Bool.false_ne_true
    show (v.send.sndNxt - a).toNat + (if v.send.sentFin then 0 else 1) ≤ 2 ^ 31
    split <;> omega

theorem Micro.halved {v v' : View} (h : Micro v v') (hv : Halved v) : Halved v' := by
  have hfin : ∀ {acts : List Action}, v.send.sentFin = false →
      (∀ a ∈ v.trace ++ acts, a.Narrow ∧ a.Windowed) →
        (v.send.sndNxt + 1 - v.send.sndUna).toNat + 0 ≤ 2 ^ 31 := by
    intro acts hs hall
    have hle := hv.of_append hall
    rw [hs, if_neg Bool.false_ne_true] at hle
    have hadd := flight_add v.send.sndNxt v.send.sndUna 1 (by omega)
    rw [show (1 : ℕ).toUInt32 = 1 from rfl] at hadd
    omega
  cases h with
  | sender h => exact h.halved hv
  | finLost acts hs he hd hf ha => exact fun hall => hfin hs hall
  | fin d hs he hd hf hb => exact fun hall => hfin hs hall
  | read data hh hd =>
    intro hall
    have hpush : (v.send.push data).sndNxt = v.send.sndNxt ∧ (v.send.push data).sndUna = v.send.sndUna ∧
        (v.send.push data).sentFin = v.send.sentFin := by
      unfold SendVars.push
      split <;> exact ⟨rfl, rfl, rfl⟩
    obtain ⟨hnxt, huna, hsent⟩ := hpush
    show ((v.send.push data).sndNxt - (v.send.push data).sndUna).toNat + _ ≤ 2 ^ 31
    rw [hnxt, huna, hsent]
    exact hv.of_append hall
  | clear | pause | window | establish | finIn | settle => exact hv
  | _ => exact fun hall => hv.of_append hall

theorem halved_stable : Stable Halved where
  micro := Micro.halved
  host {x y} h hx := by
    intro hall
    obtain ⟨acts, hacts, -⟩ := h.adds
    rw [show y.view.trace = x.view.trace ++ acts from hacts] at hall
    rw [show y.view.send = x.view.send from h.frame.send]
    exact hx.of_append hall
  wake _ hv := hv
  rst _ _ _ hx := fun hall => hx.of_append hall
  closed _ hx := fun hall => hx.of_append hall
  timeWait _ _ _ hv := fun hall => hv.of_append hall

theorem Started.halved {key : FlowKey} {v : View} (h : Started key v) : Halved v := by
  cases h with
  | @lost isn rcv wnd peer opts s b acts d hp ho hf ha =>
    intro _
    show (isn + 1 - isn).toNat + 1 ≤ 2 ^ 31
    rw [UInt32.add_comm, UInt32.add_sub_cancel]
    decide
  | @sent isn rcv wnd peer opts s b pkt d d' hp ho hf hb =>
    intro _
    show (isn + 1 - isn).toNat + 1 ≤ 2 ^ 31
    rw [UInt32.add_comm, UInt32.add_sub_cancel]
    decide

/-! ## Runs -/

/-- The callback refused a segment, or the RTO was armed at zero. -/
def Action.troubles : Action → Bool
  | .emit _ _ _ _ ok => !ok
  | .armRto d => d == 0
  | _ => false

def Untroubled (trace : List Action) : Prop := ∀ a ∈ trace, a.troubles = false

instance (trace : List Action) : Decidable (Untroubled trace) :=
  inferInstanceAs (Decidable (∀ a ∈ trace, a.troubles = false))

theorem Untroubled.unstranded {trace : List Action} (h : Untroubled trace) : Unstranded trace := by
  intro a ha
  have hclean := h a ha
  cases a with
  | emit cause s b pkt ok =>
    obtain rfl : ok = true := by simpa [Action.troubles] using hclean
    cases cause <;> rfl
  | armRto d => exact hclean
  | _ => rfl

/-- What the ACK numbers and the timer keep to in a run. -/
structure AcksInOrder (c₀ : Ctx) (inputs : List Input) : Prop where
  forward : Each (fun pre i => seqLe (c₀.run pre).s.sndUna ((c₀.run pre).step i).s.sndUna = true) inputs
  behind : ∀ pre, pre <+: inputs → seqLe (c₀.run pre).s.sndUna (c₀.run pre).s.sndNxt = true
  armed : ∀ pre, pre <+: inputs → (c₀.run pre).s.state ≠ .closed → (c₀.run pre).s.state ≠ .timeWait →
    (c₀.run pre).s.retx ≠ [] → (c₀.run pre).s.rtoDeadlineMs ≠ 0
  givesUp : ∀ pre, pre <+: inputs → 9 ≤ firesSince c₀ pre → (c₀.run pre).s.state = .closed

theorem run_extends {c₀ : Ctx} {pre inputs : List Input} (h : pre <+: inputs) :
    (c₀.run pre).io.trace <+: (c₀.run inputs).io.trace := by
  obtain ⟨post, rfl⟩ := h
  rw [show c₀.run (pre ++ post) = (c₀.run pre).run post from List.foldl_append]
  exact run_grows _ _

/-- The send variables stay in order and the timer armed in every run whose first transmissions are
narrow. -/
theorem acks_in_order {key : FlowKey} {c₀ : Ctx} (h₀ : Accepted key c₀) {inputs : List Input}
    (hclean : Untroubled (c₀.run inputs).io.trace)
    (hnarrow : ∀ a ∈ (c₀.run inputs).io.trace, a.Narrow) : AcksInOrder c₀ inputs where
  forward := fun pre i _ _ => step_forward (c₀.run pre) i
  behind pre hpre := by
    have hhalved := halved_stable.run h₀.started.halved pre
    have hbound := windowBound_run h₀ pre
    have hle := hhalved fun a ha => ⟨hnarrow a ((run_extends hpre).subset ha), hbound.sent a ha⟩
    exact seqLe_of_flight (Nat.le_trans (Nat.le_add_right _ _) hle)
  armed pre hpre hopen hwait hne := by
    have hun : Unstranded (c₀.run pre).io.trace := fun a ha =>
      hclean.unstranded a ((run_extends hpre).subset ha)
    have harmed := ((armed_run h₀ pre).resolve_left hopen).resolve_left hwait
    exact harmed hun fun hnil => hne (List.map_eq_nil_iff.mp hnil)
  givesUp := fun pre _ hmany => fires_close h₀ pre hmany

/-- A byte sent, a timeout, and the byte acknowledged. -/
def ackedByte : List Input :=
  [sampleAck 1000, readByte 7, ⟨.tick 2000, {}⟩,
    ⟨.segment (clientSegment sampleKey TCP_ACK 101 2 1000 [] []), {}⟩]

theorem acks_in_order_byte : AcksInOrder (sampleStart 1000 [4, 2, 1, 1]) ackedByte :=
  acks_in_order (sampleStart_accepted _ _ (by decide)) (by decide +kernel) (by decide +kernel)

theorem Untroubled.append {t acts : List Action} (ht : Untroubled t) (hacts : Untroubled acts) :
    Untroubled (t ++ acts) := fun a ha => (List.mem_append.mp ha).elim (ht a) (hacts a)

/-- The client that SACKs everything and acknowledges nothing is served without trouble. -/
theorem sacked_untroubled (k : ℕ) : ∃ inputs, Sacked (k + 1) ((sampleStart 1000 [4, 2, 1, 1]).run inputs) ∧
    Untroubled ((sampleStart 1000 [4, 2, 1, 1]).run inputs).io.trace := by
  have hstart : Accepted sampleKey (sampleStart 1000 [4, 2, 1, 1]) := sampleStart_accepted _ _ (by decide)
  induction k with
  | zero =>
    refine ⟨[sampleAck 1000, readByte 0, sackByte 0], ⟨⟨?_, ?_, ?_, ?_, ?_, ?_, ?_⟩, ?_, ?_, ?_, ?_⟩, ?_⟩
    all_goals decide +kernel
  | succ k ih =>
    obtain ⟨inputs, h, hclean⟩ := ih
    have hlen := h.sackedLen
    have harmed := armed_run hstart inputs
    refine ⟨inputs ++ [readByte 0, sackByte (k + 1)], ?_⟩
    rw [show (sampleStart 1000 [4, 2, 1, 1]).run (inputs ++ [readByte 0, sackByte (k + 1)]) =
      ((sampleStart 1000 [4, 2, 1, 1]).run inputs).run [readByte 0, sackByte (k + 1)] from
        List.foldl_append]
    generalize (sampleStart 1000 [4, 2, 1, 1]).run inputs = c at h hclean hlen harmed ⊢
    refine ⟨h.round, ?_⟩
    obtain ⟨hsent, s, b, pkt, rto, -, -, htrace⟩ := h.read 0
    have hrto : c.s.rtoDeadlineMs ≠ 0 := by
      have hest := h.flow.state
      obtain hst | hst | harmed := harmed
      · rw [hst] at hest
        cases hest
      · rw [hst] at hest
        cases hest
      · refine harmed hclean.unstranded fun hnil => ?_
        rw [show c.s.retx = [] from List.map_eq_nil_iff.mp hnil] at hlen
        cases hlen
    show Untroubled ((c.step (readByte 0)).step (sackByte (k + 1))).io.trace
    rw [hsent.sack.2.2, htrace, show armActs c.s.rtoDeadlineMs rto = [] from if_neg hrto]
    refine hclean.append fun a ha => ?_
    simp only [List.mem_cons, List.not_mem_nil, or_false] at ha
    obtain rfl | rfl := ha <;> rfl

/-- With `2^31 + 1` bytes SACKed and none acknowledged, `snd_una` lies past `snd_nxt`. -/
theorem acks_out_of_order : ¬ ∀ (key : FlowKey) (c₀ : Ctx) (inputs : List Input), Accepted key c₀ →
    Untroubled (c₀.run inputs).io.trace → AcksInOrder c₀ inputs := by
  intro hall
  obtain ⟨k, hk⟩ : ∃ k, k = 2 ^ 31 := ⟨_, rfl⟩
  obtain ⟨inputs, h, hclean⟩ := sacked_untroubled k
  have horder := hall _ _ inputs (sampleStart_accepted 1000 [4, 2, 1, 1] (by decide)) hclean
  have hbehind := horder.behind inputs (List.prefix_refl _)
  have hsend := h.flow.send
  generalize (sampleStart 1000 [4, 2, 1, 1]).run inputs = c at hbehind hsend
  rw [show c.s.sndUna = 1 from congrArg SendVars.sndUna hsend,
    show c.s.sndNxt = seqOf 0 (k + 1) from congrArg SendVars.sndNxt hsend, hk] at hbehind
  exact absurd hbehind (by decide)

end BaleVpn.Tcp
