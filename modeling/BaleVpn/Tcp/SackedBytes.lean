import BaleVpn.Tcp.Stages
import BaleVpn.Tcp.SackMarks
import BaleVpn.Tcp.SackedStream

/-!
# The count of SACKed bytes

`sacked_bytes` is kept up by addition where a block marks an entry and by a saturating subtraction where
an ACK pops one. It is the sum it stands for as long as that sum fits 32 bits; past them it wraps, since
nothing keeps a client that SACKs everything and acknowledges nothing from going on.
-/

namespace BaleVpn.Tcp

open Net Lib Relation

/-! ## The sum -/

def OutSeg.sackedLen (e : OutSeg) : ℕ := if e.sacked then e.data.length else 0

/-- The bytes of the entries that are marked. -/
def sackedLen (l : List OutSeg) : ℕ := (l.map OutSeg.sackedLen).sum

/-- `sacked_bytes` is their sum. -/
def SackCounted (c : Ctx) : Prop := c.s.sackedBytes.toNat = sackedLen c.s.retx

/-- `sacked_bytes` is their sum modulo `2^32`. -/
def SackCountedMod (c : Ctx) : Prop := c.s.sackedBytes = (sackedLen c.s.retx).toUInt32

theorem SackCounted.mod {c : Ctx} (h : SackCounted c) : SackCountedMod c := by
  unfold SackCountedMod
  rw [← h]
  exact (UInt32.ofNat_toNat).symm

theorem SackCountedMod.exact {c : Ctx} (h : SackCountedMod c) (hfits : sackedLen c.s.retx < 2 ^ 32) :
    SackCounted c := by
  unfold SackCounted
  rw [h]
  exact Nat.mod_eq_of_lt hfits

theorem sackedLen_cons (e : OutSeg) (l : List OutSeg) : sackedLen (e :: l) = e.sackedLen + sackedLen l :=
  List.sum_cons

theorem sackedLen_push (l : List OutSeg) {e : OutSeg} (h : e.sacked = false) :
    sackedLen (l ++ [e]) = sackedLen l := by
  unfold sackedLen OutSeg.sackedLen
  simp [h]

theorem sackedLen_set (l : List OutSeg) : ∀ {idx : ℕ} {e e' : OutSeg}, l[idx]? = some e →
    e'.sackedLen = e.sackedLen → sackedLen (l.set idx e') = sackedLen l := by
  induction l with
  | nil => exact fun h => by simp at h
  | cons x l ih =>
    intro idx e e' h he
    cases idx with
    | zero =>
      obtain rfl : x = e := by simpa using h
      rw [List.set_cons_zero, sackedLen_cons, sackedLen_cons, he]
    | succ idx => rw [List.set_cons_succ, sackedLen_cons, sackedLen_cons, ih (by simpa using h) he]

theorem foldl_lengths (l : List OutSeg) : ∀ n : UInt32,
    l.foldl (fun n (e : OutSeg) => n + e.data.length.toUInt32) n =
      n + ((l.map fun (e : OutSeg) => e.data.length).sum).toUInt32 := by
  induction l with
  | nil => exact fun n => (UInt32.add_zero n).symm
  | cons e l ih =>
    intro n
    rw [List.foldl_cons, ih, List.map_cons, List.sum_cons, UInt32.add_assoc]
    exact congrArg (n + ·) (UInt32.ofNat_add _ _).symm

theorem sackedLen_marked (left right : UInt32) (l : List OutSeg) :
    sackedLen (l.map (markSacked [⟨left, right⟩])) =
      sackedLen l + ((l.filter (Ctx.sackHits left right)).map fun e => e.data.length).sum := by
  induction l with
  | nil => rfl
  | cons e l ih =>
    have hmark : markSacked [⟨left, right⟩] e =
        if Ctx.sackHits left right e then { e with sacked := true } else e := by
      unfold markSacked
      rw [List.any_cons, List.any_nil, Bool.or_false]
    rw [List.map_cons, sackedLen_cons, sackedLen_cons, ih, hmark]
    cases hhit : Ctx.sackHits left right e with
    | false =>
      rw [List.filter_cons_of_neg (by rw [hhit]; exact Bool.false_ne_true), if_neg Bool.false_ne_true]
      omega
    | true =>
      have hfree : e.sacked = false := by
        cases hs : e.sacked with
        | false => rfl
        | true =>
          rw [sackHits_sacked left right hs] at hhit
          cases hhit
      rw [List.filter_cons_of_pos hhit, if_pos rfl, List.map_cons, List.sum_cons]
      unfold OutSeg.sackedLen
      simp only [hfree, if_true, Bool.false_eq_true, if_false]
      omega

/-! ## Effects -/

/-- The sum and its count both stay. -/
structure SameTally (c c' : Ctx) : Prop where
  len : sackedLen c'.s.retx = sackedLen c.s.retx
  count : c'.s.sackedBytes = c.s.sackedBytes

theorem emitSegment_tally (c : Ctx) (cause : Cause) (flags : UInt8) (seq : UInt32) (payload : Bytes)
    (record : Bool) (options : Bytes) :
    SameTally c (c.emitSegment cause flags seq payload record options).2 := by
  have hframe := emitSegment_frame c cause flags seq payload record options
  generalize c.emitSegment cause flags seq payload record options = r at hframe ⊢
  have hcount := congrArg Pacing.sackedBytes hframe.steady
  refine ⟨?_, hcount⟩
  cases hrec : r.1 && record with
  | false => rw [hframe.retx hrec]
  | true =>
    obtain ⟨now, hretx⟩ := hframe.recorded hrec
    rw [hretx]
    exact sackedLen_push _ rfl

theorem rackUpdates_sackedBytes (now : UInt32) (hits : List OutSeg) : ∀ p : Pacing,
    (hits.foldl (fun (p : Pacing) (e : OutSeg) =>
      p.rackUpdateFromDelivered e.sentMs (e.seq + e.data.length.toUInt32) now) p).sackedBytes =
      p.sackedBytes := by
  induction hits with
  | nil => exact fun _ => rfl
  | cons e hits ih => exact fun p => (ih _).trans (rackUpdateFromDelivered_frame _ _ _ _).2

theorem updateRtt_sackedBytes (p : Pacing) (sample : UInt32) :
    (p.updateRtt sample).sackedBytes = p.sackedBytes := by
  unfold Pacing.updateRtt
  simp only
  split <;> rfl

theorem updatePrr_tally (c : Ctx) (prev acked : UInt32) :
    SameTally c { c with s := c.s.updatePrrAfterAck prev acked } := by
  unfold TcpSession.updatePrrAfterAck
  split
  · exact ⟨rfl, rfl⟩
  · exact ⟨rfl, rfl⟩

theorem noteNewAck_tally (c : Ctx) (ackNo : UInt32) : SameTally c (c.noteNewAck ackNo) := by
  have hundo : (Ctx.eifelUndo c.s).sackedBytes = c.s.sackedBytes ∧
      (Ctx.eifelUndo c.s).retx = c.s.retx := by
    unfold Ctx.eifelUndo
    split
    · simp only
      split <;> exact ⟨rfl, rfl⟩
    · exact ⟨rfl, rfl⟩
  have hgrow : ∀ s : TcpSession, (Ctx.growCwnd s ackNo (ackNo - c.s.sndUna)).sackedBytes =
      s.sackedBytes ∧ (Ctx.growCwnd s ackNo (ackNo - c.s.sndUna)).retx = s.retx := by
    intro s
    unfold Ctx.growCwnd
    simp only
    split
    · split <;> exact ⟨rfl, rfl⟩
    · split <;> exact ⟨rfl, rfl⟩
  refine ⟨?_, (hgrow _).1.trans hundo.1⟩
  show sackedLen (Ctx.growCwnd (Ctx.eifelUndo c.s) ackNo (ackNo - c.s.sndUna)).retx = _
  rw [(hgrow _).2, hundo.2]

/-- The count after popping `head`. -/
def countPopped (n : UInt32) (head : OutSeg) : UInt32 :=
  if head.sacked then
    if n ≥ head.data.length.toUInt32 then n - head.data.length.toUInt32 else 0
  else n

theorem ackedPacing_sackedBytes (p : Pacing) (head : OutSeg) (now : UInt32) (sampled : Bool) :
    (Ctx.ackedPacing p head now sampled).sackedBytes = countPopped p.sackedBytes head := by
  obtain ⟨q, hq⟩ : ∃ q, q = (if !head.retransmitted && !sampled then p.updateRtt (now - head.sentMs)
    else p) := ⟨_, rfl⟩
  obtain ⟨r, hr⟩ : ∃ r, r = (if !head.sacked then
    q.rackUpdateFromDelivered head.sentMs (head.seq + head.span) now else q) := ⟨_, rfl⟩
  have hcount : r.sackedBytes = p.sackedBytes := by
    rw [hr, hq]
    split
    · rw [(rackUpdateFromDelivered_frame _ _ _ _).2]
      split
      · exact updateRtt_sackedBytes _ _
      · rfl
    · split
      · exact updateRtt_sackedBytes _ _
      · rfl
  unfold Ctx.ackedPacing countPopped
  simp only
  rw [← hq, ← hr, ← hcount]
  split <;> rfl

theorem Effect.tally {st : Stage} {c c' : Ctx} (h : Effect st c c') :
    SameTally c c' ∨ ∃ head rest, c.s.retx = head :: rest ∧ c'.s.retx = rest ∧
      c'.s.sackedBytes = countPopped c.s.sackedBytes head := by
  cases h with
  | quiet h => exact .inl ⟨by rw [h.retx], congrArg Pacing.sackedBytes h.pacing⟩
  | pace _ p h =>
    have hcount := congrArg Pacing.sackedBytes h
    exact .inl ⟨rfl, hcount⟩
  | emitSegment _ cause _ flags seq payload record options =>
    exact .inl (emitSegment_tally c cause flags seq payload record options)
  | resent _ he now => exact .inl ⟨sackedLen_set _ he rfl, rfl⟩
  | prr _ _ prev acked => exact .inl (updatePrr_tally c prev acked)
  | newAck _ ackNo => exact .inl (noteNewAck_tally c ackNo)
  | sample _ hpos hlt => exact .inl ⟨rfl, updateRtt_sackedBytes _ _⟩
  | pop _ hq now sampled => exact .inr ⟨_, _, hq, rfl, ackedPacing_sackedBytes _ _ _ _⟩
  | _ => exact .inl ⟨rfl, rfl⟩

/-- A block keeps the count right modulo `2^32`. -/
theorem onSackBlock_tally {c : Ctx} (h : SackCountedMod c) (left right : UInt32) :
    SackCountedMod (c.onSackBlock left right) := by
  have hcount : (c.onSackBlock left right).s.sackedBytes = c.s.sackedBytes +
      (((c.s.retx.filter (Ctx.sackHits left right)).map fun (e : OutSeg) => e.data.length).sum).toUInt32 :=
    (rackUpdates_sackedBytes _ _ _).trans (foldl_lengths _ _)
  unfold SackCountedMod at h ⊢
  rw [hcount, onSackBlock_retx, sackedLen_marked, h]
  exact (UInt32.ofNat_add _ _).symm

theorem countPopped_sound {n : UInt32} {head : OutSeg} {rest : List OutSeg}
    (h : n.toNat = sackedLen (head :: rest)) :
    (head.sacked = true → head.data.length.toUInt32 ≤ n) ∧
      (countPopped n head).toNat = sackedLen rest := by
  rw [sackedLen_cons] at h
  unfold countPopped
  unfold OutSeg.sackedLen at h
  cases hs : head.sacked with
  | false =>
    rw [hs, if_neg Bool.false_ne_true, Nat.zero_add] at h
    exact ⟨fun hmarked => (by cases hmarked), h⟩
  | true =>
    rw [hs, if_pos rfl] at h
    have hlt := n.toNat_lt
    have hnat : head.data.length.toUInt32.toNat = head.data.length :=
      Nat.mod_eq_of_lt (show head.data.length < 2 ^ 32 by omega)
    have hle : head.data.length.toUInt32 ≤ n := by
      rw [UInt32.le_iff_toNat_le]
      omega
    refine ⟨fun _ => hle, ?_⟩
    rw [if_pos rfl, if_pos hle, UInt32.toNat_sub_of_le _ _ hle]
    omega

theorem Effect.sackCounted {st : Stage} {c c' : Ctx} (h : Effect st c c') (hc : SackCounted c) : SackCounted c' := by
  obtain ⟨hlen, hcount⟩ | ⟨head, rest, hretx, hrest, hcount⟩ := h.tally
  · unfold SackCounted
    rw [hlen, hcount]
    exact hc
  · unfold SackCounted at hc ⊢
    rw [hretx] at hc
    rw [hcount, hrest]
    exact (countPopped_sound hc).2

theorem Effects.sackCounted {st : Stage} {c c' : Ctx} (h : Effects st c c') (hc : SackCounted c) : SackCounted c' :=
  h.invariant (fun _ _ heff => heff.sackCounted) hc

theorem SackEffects.sackCountedMod {c c' : Ctx} (h : SackEffects c c') (hc : SackCountedMod c) :
    SackCountedMod c' := by
  induction h with
  | refl => exact hc
  | tail _ heff ih =>
    cases heff with
    | pace p hp =>
      have hcount := congrArg Pacing.sackedBytes hp
      exact Eq.trans hcount ih
    | block _ => exact onSackBlock_tally ih _ _

/-! ## Events -/

/-- The blocks that a segment's options mark with. -/
def TcpSession.rangesOf (s : TcpSession) (opts : Bytes) : List SackRange :=
  if s.peerSackOk then sackRanges opts else []

theorem noteTimestamps_retx (c : Ctx) (opts : Bytes) (seq : UInt32) :
    (c.noteTimestamps opts seq).s.retx = c.s.retx := by
  obtain ⟨-, hnote⟩ := noteTimestamps_pace c opts seq
  rw [hnote]

theorem preprocess_retx (c : Ctx) (opts : Bytes) (seq : UInt32) :
    (c.preprocess opts seq).s.retx = c.s.retx.map (markSacked (c.s.rangesOf opts)) := by
  obtain ⟨c₁, hc₁⟩ : ∃ c₁ : Ctx, c₁ = { c with s.sackedAtSegmentStart := c.s.sackedBytes } := ⟨_, rfl⟩
  have hretx : c₁.s.retx = c.s.retx := by rw [hc₁]
  have hsack : c₁.s.peerSackOk = c.s.peerSackOk := by rw [hc₁]
  unfold Ctx.preprocess TcpSession.rangesOf
  rw [noteTimestamps_retx, ← hc₁, ← hretx, ← hsack]
  cases hok : c₁.s.peerSackOk with
  | false => exact (List.map_id _).symm
  | true =>
    cases opts with
    | nil => exact (List.map_id _).symm
    | cons b opts => exact parseSackBlocks_retx c₁ (b :: opts) hok

/-- What the blocks of a segment leave marked fits the count. -/
def SackFits (s : TcpSession) : Event → Prop
  | .segment seg => headerOk seg = true →
    sackedLen (s.retx.map (markSacked (s.rangesOf (segOptions seg)))) < 2 ^ 32
  | _ => True

instance (s : TcpSession) : (ev : Event) → Decidable (SackFits s ev)
  | .segment _ => inferInstanceAs (Decidable (_ → _))
  | .host _ | .tick _ | .windowUpdate => isTrue trivial

theorem preprocess_sackCounted {c : Ctx} (hc : SackCounted c) {opts : Bytes} (seq : UInt32)
    (hfits : sackedLen (c.s.retx.map (markSacked (c.s.rangesOf opts))) < 2 ^ 32) :
    SackCounted (c.preprocess opts seq) := by
  refine SackCountedMod.exact ?_ (by rw [preprocess_retx]; exact hfits)
  exact SackEffects.sackCountedMod (preprocess_effects c opts seq) hc.mod

theorem afterAck_sackCounted {c : Ctx} (hc : SackCounted c) {seg : Bytes} (hok : headerOk seg = true)
    (hfits : SackFits c.s (.segment seg)) : SackCounted (c.afterAck seg) := by
  have hpre := preprocess_sackCounted hc (TcpHeader.seq seg) (hfits hok)
  unfold Ctx.afterAck Ctx.ackStage
  generalize c.preprocess (segOptions seg) (TcpHeader.seq seg) = c₁ at hpre ⊢
  simp only
  split
  · exact hpre
  · split
    · obtain heff | heff := onAck_effects c₁.nowMs.2 (TcpHeader.ack seg) c₁.nowMs.1
      · exact Effects.sackCounted ((nowMs_quiet c₁).effects.trans heff) hpre
      · exact Effects.sackCounted ((nowMs_quiet c₁).effects.trans heff) hpre
    · exact hpre

theorem EventStages.sackCounted {c c' : Ctx} {ev : Event} (h : EventStages c ev c') (hc : SackCounted c)
    (hfits : SackFits c.s ev) : SackCounted c' := by
  cases h with
  | malformed _ => exact hc
  | segment hok hr => exact hr.sackCounted (afterAck_sackCounted hc hok hfits)
  | host h => exact h.sackCounted hc
  | tick h => exact h.sackCounted hc
  | windowUpdate h => exact h.sackCounted hc

/-! ## The walk of an ACK -/

/-- The subtractions of the walk of `on_ack`, unless one of them is cut at zero. -/
def exactWalk (ack : UInt32) : List OutSeg → UInt32 → Option UInt32
  | [], n => some n
  | head :: rest, n =>
    if seqLe (head.seq + head.span) ack then
      if head.sacked then
        if head.data.length.toUInt32 ≤ n then exactWalk ack rest (n - head.data.length.toUInt32) else none
      else exactWalk ack rest n
    else some n

theorem popAcked_exact (ack now : UInt32) (l : List OutSeg) : ∀ (sampled : Bool) (c : Ctx),
    c.s.sackedBytes.toNat = sackedLen l →
      exactWalk ack l c.s.sackedBytes = some (Ctx.popAcked ack now l sampled c).s.sackedBytes := by
  induction l with
  | nil => exact fun _ _ _ => rfl
  | cons head rest ih =>
    intro sampled c hc
    obtain ⟨hle, hrest⟩ := countPopped_sound hc
    unfold exactWalk Ctx.popAcked
    split
    · have hcount := ackedPacing_sackedBytes c.s.toPacing head now sampled
      have hnext := ih (sampled || !head.retransmitted) (({ c with
        s.toPacing := Ctx.ackedPacing c.s.toPacing head now sampled
        s.retx := rest } : Ctx).log (.popRetx head.data)) (by
          show (Ctx.ackedPacing c.s.toPacing head now sampled).sackedBytes.toNat = _
          rw [hcount, hrest])
      rw [show (({ c with
        s.toPacing := Ctx.ackedPacing c.s.toPacing head now sampled
        s.retx := rest } : Ctx).log (.popRetx head.data)).s.sackedBytes = _ from hcount] at hnext
      rw [← hnext]
      unfold countPopped
      cases hs : head.sacked with
      | false => rfl
      | true => simp only [if_true, hle hs]
    · rfl

/-- Where the walk for the ACK number of a segment starts, and whether it counts as sampled. -/
def Ctx.walkStart (c : Ctx) (seg : Bytes) : Bool × Ctx :=
  ((c.preprocess (segOptions seg) (TcpHeader.seq seg)).nowMs.2.noteNewAck (TcpHeader.ack seg)).sampleTsRtt

/-- The walk for a segment's ACK number subtracts exactly. -/
def WalksExactly (c : Ctx) : Event → Prop
  | .segment seg => headerOk seg = true → ∀ now,
    exactWalk (TcpHeader.ack seg) (c.walkStart seg).2.s.retx (c.walkStart seg).2.s.sackedBytes =
      some (Ctx.popAcked (TcpHeader.ack seg) now (c.walkStart seg).2.s.retx (c.walkStart seg).1
        (c.walkStart seg).2).s.sackedBytes
  | _ => True

theorem SackCounted.walksExactly {c : Ctx} (hc : SackCounted c) {ev : Event} (hfits : SackFits c.s ev) :
    WalksExactly c ev := by
  cases ev with
  | segment seg =>
    intro hok now
    have hpre := preprocess_sackCounted hc (TcpHeader.seq seg) (hfits hok)
    refine popAcked_exact _ now _ _ _ ?_
    have hstart : Effects .ack (c.preprocess (segOptions seg) (TcpHeader.seq seg)) (c.walkStart seg).2 :=
      (nowMs_quiet _).effects.trans (.head (.newAck _ _) (sampleTsRtt_effects _))
    exact hstart.sackCounted hpre
  | _ => trivial

/-! ## Runs -/

theorem Accepted.sackCounted {key : FlowKey} {c₀ : Ctx} (h : Accepted key c₀) : SackCounted c₀ := by
  obtain ⟨c, hc, heff⟩ := h.effects
  refine heff.sackCounted ?_
  have hzero : c.s.sackedBytes = 0 := by
    have := congrArg Pacing.sackedBytes hc.pacing
    exact this
  unfold SackCounted
  rw [hzero, hc.retx]
  rfl

theorem sackCounted_run {key : FlowKey} {c₀ : Ctx} (h₀ : Accepted key c₀) {inputs : List Input}
    (hfits : Each (fun pre i => SackFits (c₀.run pre).s i.event) inputs) : SackCounted (c₀.run inputs) :=
  run_stages (Q := fun c i => SackFits c.s i.event) h₀.sackCounted
    (fun c i _ hstages hfit hc => hstages.sackCounted (show SackCounted (c.load i.oracle) from hc) hfit) hfits

/-- `sacked_bytes` is the sum it stands for along every run in which that sum fits its 32 bits, and no
ACK of it subtracts more than there is. -/
theorem sacked_bytes_is_sum {key : FlowKey} {c₀ : Ctx} (h₀ : Accepted key c₀) {inputs : List Input}
    (hfits : Each (fun pre i => SackFits (c₀.run pre).s i.event) inputs) :
    (∀ pre, pre <+: inputs → SackCounted (c₀.run pre)) ∧
      Each (fun pre i => WalksExactly ((c₀.run pre).load i.oracle) i.event) inputs := by
  have hpre : ∀ pre, pre <+: inputs → SackCounted (c₀.run pre) := by
    rintro pre ⟨post, rfl⟩
    exact sackCounted_run h₀ hfits.of_append
  refine ⟨hpre, ?_⟩
  intro pre i post heq
  have hc := hpre pre ⟨i :: post, heq.symm⟩
  have hcounted : SackCounted ((c₀.run pre).load i.oracle) := hc
  exact hcounted.walksExactly (hfits pre i post heq)

theorem sacked_bytes_is_sum_one : (∀ pre, pre <+: [sampleAck 1000, readByte 7, sackByte 0] →
    SackCounted ((sampleStart 1000 [4, 2, 1, 1]).run pre)) ∧
      Each (fun pre i => WalksExactly (((sampleStart 1000 [4, 2, 1, 1]).run pre).load i.oracle) i.event)
        [sampleAck 1000, readByte 7, sackByte 0] :=
  sacked_bytes_is_sum (sampleStart_accepted _ _ (by decide)) (by decide +kernel)

theorem Sacked.sackedLen {k : ℕ} {inputs : List Input}
    (h : Sacked k ((sampleStart 1000 [4, 2, 1, 1]).run inputs)) :
    sackedLen ((sampleStart 1000 [4, 2, 1, 1]).run inputs).s.retx = k := by
  have hstart : Accepted sampleKey (sampleStart 1000 [4, 2, 1, 1]) := sampleStart_accepted _ _ (by decide)
  have hinv := (streamInv_stable 0).run (hstart.started.streamInv (by decide)) inputs
  generalize (sampleStart 1000 [4, 2, 1, 1]).run inputs = c at h hinv ⊢
  have hall : Tcp.sackedLen c.s.retx = (queueBytes c.s.retx).length := by
    have hmarked := h.sacked
    unfold Tcp.sackedLen queueBytes
    rw [List.length_flatMap]
    refine congrArg List.sum (List.map_congr_left fun e he => ?_)
    unfold OutSeg.sackedLen
    rw [hmarked e he, if_pos rfl]
  have hbalance := congrArg List.length hinv.balance
  rw [show c.view.trace = c.io.trace from rfl, h.pops, h.reads,
    show c.view.queue = c.s.retx.map OutSeg.core from rfl, queueBytes_core,
    show c.view.send = c.s.toSendVars from rfl, h.flow.send] at hbalance
  rw [hall]
  simpa [sentBytes] using hbalance

/-- A client that SACKs `2^32` bytes and acknowledges none of them wraps the count to zero. -/
theorem sacked_bytes_wrap : ¬ ∀ (key : FlowKey) (c : Ctx), Reachable key c → SackCounted c := by
  intro hall
  obtain ⟨k, hk⟩ : ∃ k, k = 2 ^ 32 := ⟨_, rfl⟩
  obtain ⟨inputs, h⟩ := sacked_reached k
  have hcounted := hall _ _ ((sampleStart_accepted 1000 [4, 2, 1, 1] (by decide)).reachable inputs)
  unfold SackCounted at hcounted
  rw [h.sackedLen, h.flow.sackedBytes, hk] at hcounted
  exact absurd hcounted (by decide)

end BaleVpn.Tcp
