import BaleVpn.Tcp.RetxQueue

/-!
# What SACK blocks mark

The blocks of an option buffer mark the entries of `retx` whose data ends in one of them. An entry
without data ends where it starts for that test, so a block that ends at a FIN or a SYN-ACK marks it,
one sequence number short.
-/

namespace BaleVpn.Tcp

open Net Relation

/-! ## Blocks -/

/-- The sequence numbers from `left` up to `right`. -/
structure SackRange where
  left : UInt32
  right : UInt32
  deriving DecidableEq

/-- The whole span of `e` lies in the block. -/
def SackRange.Covers (b : SackRange) (e : OutSeg) : Prop :=
  (e.seq - b.left).toNat + e.span.toNat ≤ (b.right - b.left).toNat

instance (b : SackRange) (e : OutSeg) : Decidable (b.Covers e) := inferInstanceAs (Decidable (_ ≤ _))

/-- The blocks of one SACK option that end after they start. -/
def optionRanges : Bytes → List SackRange
  | a :: b :: c :: d :: e :: f :: g :: h :: rest =>
    if seqLt (be32 [a, b, c, d]) (be32 [e, f, g, h]) then
      ⟨be32 [a, b, c, d], be32 [e, f, g, h]⟩ :: optionRanges rest
    else optionRanges rest
  | _ => []

def addRanges (kind : UInt8) (opt : Bytes) (bs : List SackRange) : List SackRange :=
  if kind == 5 && opt.length ≥ 10 && (opt.length - 2) % 8 == 0 then bs ++ optionRanges (opt.drop 2)
  else bs

/-- The blocks of an option buffer. -/
def sackRanges (opts : Bytes) : List SackRange := walkOptions addRanges opts.length opts []

/-- What blocks make of an entry. -/
def markSacked (bs : List SackRange) (e : OutSeg) : OutSeg :=
  if bs.any fun b => Ctx.sackHits b.left b.right e then { e with sacked := true } else e

@[simp] theorem markSacked_data (bs : List SackRange) (e : OutSeg) : (markSacked bs e).data = e.data := by
  unfold markSacked
  split <;> rfl

theorem markSacked_sacked (bs : List SackRange) (e : OutSeg) : (markSacked bs e).sacked =
    (e.sacked || bs.any fun b => Ctx.sackHits b.left b.right e) := by
  unfold markSacked
  split
  · rename_i h
    rw [h, Bool.or_true]
  · rename_i h
    rw [Bool.eq_false_iff.mpr h, Bool.or_false]

theorem sackHits_sacked (left right : UInt32) {e : OutSeg} (h : e.sacked = true) :
    Ctx.sackHits left right e = false := by
  unfold Ctx.sackHits
  rw [h]
  rfl

theorem markSacked_append (bs bs' : List SackRange) (e : OutSeg) :
    markSacked (bs ++ bs') e = markSacked bs' (markSacked bs e) := by
  by_cases h : (bs.any fun b => Ctx.sackHits b.left b.right e) = true
  · have hmarked : markSacked bs e = { e with sacked := true } := if_pos h
    have hstay : markSacked bs' { e with sacked := true } = { e with sacked := true } := by
      refine if_neg (Bool.eq_false_iff.mp (List.any_eq_false.mpr fun b _ => ?_))
      rw [sackHits_sacked b.left b.right rfl]
      exact Bool.false_ne_true
    rw [hmarked, hstay]
    exact if_pos (by rw [List.any_append, h, Bool.true_or])
  · have hkept : markSacked bs e = e := if_neg h
    rw [hkept]
    unfold markSacked
    rw [List.any_append, Bool.eq_false_iff.mpr h, Bool.false_or]

/-! ## The walk -/

/-- Two walks of one buffer keep what every option keeps of their states. -/
theorem walkOptions_rel {σ τ : Type} {R : σ → τ → Prop} {f : UInt8 → Bytes → σ → σ}
    {g : UInt8 → Bytes → τ → τ} (hfg : ∀ kind opt r t, R r t → R (f kind opt r) (g kind opt t))
    (fuel : ℕ) : ∀ (opts : Bytes) (r : σ) (t : τ), R r t →
      R (walkOptions f fuel opts r) (walkOptions g fuel opts t) := by
  induction fuel with
  | zero => exact fun _ _ _ h => h
  | succ fuel ih =>
    intro opts r t h
    cases opts with
    | nil => exact h
    | cons kind rest =>
      unfold walkOptions
      split
      · exact h
      · split
        · exact ih rest r t h
        · split
          · exact h
          · split
            · exact h
            · exact ih _ _ _ (hfg _ _ _ _ h)

theorem onSackBlock_retx (c : Ctx) (left right : UInt32) :
    (c.onSackBlock left right).s.retx = c.s.retx.map (markSacked [⟨left, right⟩]) := by
  have hmark : (fun e : OutSeg => if Ctx.sackHits left right e then { e with sacked := true } else e) =
      markSacked [⟨left, right⟩] := by
    funext e
    unfold markSacked
    rw [List.any_cons, List.any_nil, Bool.or_false]
  show c.s.retx.map (fun e => if Ctx.sackHits left right e then { e with sacked := true } else e) = _
  rw [hmark]

theorem sackBlocks_retx (n : ℕ) : ∀ (bytes : Bytes) (first : Bool) (c : Ctx), bytes.length ≤ n →
    (Ctx.sackBlocks bytes first c).s.retx = c.s.retx.map (markSacked (optionRanges bytes)) := by
  have hnone : ∀ c : Ctx, c.s.retx = c.s.retx.map (markSacked []) := fun c =>
    (List.map_id _).symm
  induction n with
  | zero =>
    intro bytes first c hlen
    obtain rfl : bytes = [] := by simpa using hlen
    exact hnone c
  | succ n ih =>
    intro bytes first c hlen
    unfold Ctx.sackBlocks optionRanges
    split
    · rename_i a b c' d e f g h rest
      have hrest : rest.length ≤ n := by
        simp only [List.length_cons] at hlen
        omega
      simp only
      rw [ih _ _ _ hrest]
      split
      · have hblock : ∀ c₁ : Ctx, c₁.s.retx = c.s.retx →
            ((c₁.onSackBlock (be32 [a, b, c', d]) (be32 [e, f, g, h])).s.retx.map
              (markSacked (optionRanges rest))) =
            c.s.retx.map (markSacked (⟨be32 [a, b, c', d], be32 [e, f, g, h]⟩ :: optionRanges rest)) := by
          intro c₁ hc₁
          rw [onSackBlock_retx, List.map_map, hc₁]
          refine List.map_congr_left fun e _ => ?_
          exact (markSacked_append [_] _ e).symm
        split
        · exact hblock _ rfl
        · exact hblock _ rfl
      · rfl
    · rename_i hshort
      split
      · exact absurd rfl (hshort _ _ _ _ _ _ _ _ _)
      · exact hnone c

theorem applySack_retx (kind : UInt8) (opt : Bytes) (c : Ctx) {q : List OutSeg} {bs : List SackRange}
    (h : c.s.retx = q.map (markSacked bs)) :
    (Ctx.applySack kind opt c).s.retx = q.map (markSacked (addRanges kind opt bs)) := by
  unfold Ctx.applySack addRanges
  split
  · rw [sackBlocks_retx _ _ _ _ (Nat.le_refl _), h, List.map_map]
    exact List.map_congr_left fun e _ => (markSacked_append bs _ e).symm
  · exact h

theorem parseSackBlocks_retx (c : Ctx) (opts : Bytes) (hok : c.s.peerSackOk = true) :
    (c.parseSackBlocks opts).s.retx = c.s.retx.map (markSacked (sackRanges opts)) := by
  unfold Ctx.parseSackBlocks
  rw [hok]
  exact walkOptions_rel (R := fun (c' : Ctx) bs => c'.s.retx = c.s.retx.map (markSacked bs))
    (fun kind opt c' bs h => applySack_retx kind opt c' h) _ _ _ _ (List.map_id _).symm

theorem optionRanges_valid (n : ℕ) : ∀ bytes : Bytes, bytes.length ≤ n →
    ∀ b ∈ optionRanges bytes, seqLt b.left b.right = true := by
  induction n with
  | zero =>
    intro bytes hlen
    obtain rfl : bytes = [] := by simpa using hlen
    exact fun b hb => by cases hb
  | succ n ih =>
    intro bytes hlen
    unfold optionRanges
    split
    · rename_i a b c d e f g h rest
      have hrest := ih rest (by simp only [List.length_cons] at hlen; omega)
      split
      · rename_i hlt
        exact List.forall_mem_cons.mpr ⟨hlt, hrest⟩
      · exact hrest
    · exact fun b hb => by cases hb

theorem sackRanges_valid (opts : Bytes) : ∀ b ∈ sackRanges opts, seqLt b.left b.right = true := by
  refine walkOptions_inv (P := fun bs : List SackRange => ∀ b ∈ bs, seqLt b.left b.right = true)
    ?_ _ _ _ (by simp)
  intro kind opt bs h
  unfold addRanges
  split
  · intro b hb
    obtain hb | hb := List.mem_append.mp hb
    · exact h b hb
    · exact optionRanges_valid _ _ (Nat.le_refl _) b hb
  · exact h

/-! ## Entries -/

/-- An entry is a data segment, or a SYN-ACK or FIN without data. -/
inductive OutSeg.Shaped (e : OutSeg) : Prop
  | data (hpos : 0 < e.data.length) (hlen : e.data.length < 2 ^ 16)
      (hspan : e.span.toNat = e.data.length)
  | control (hdata : e.data = []) (hspan : e.span.toNat = 1)

theorem OutSeg.Shaped.of_core {e : OutSeg} (h : e.core.Shaped) : e.Shaped := by
  cases h with
  | data hpos hlen hspan => exact .data hpos hlen hspan
  | control hdata hspan => exact .control hdata hspan

theorem fresh_data_shaped {cause : Cause} {s : TcpSession} {chunk : ℕ} (hk : ChunkOf cause s chunk)
    (seq : UInt32) :
    (OutSeg.fresh seq (TCP_ACK ||| TCP_PSH) (s.toSendVars.next chunk) []).Shaped := by
  have hlen := next_length hk
  have hmss := hk.bounds.1
  have hlt := s.peerMss.toNat_lt
  have hpos := hk.1
  have hspan := fresh_data_span seq (s.toSendVars.next chunk)
  rw [hlen] at hspan
  have hnat : chunk.toUInt32.toNat = chunk := Nat.mod_eq_of_lt (show chunk < 2 ^ 32 by omega)
  refine .data ?_ ?_ ?_
  · show 0 < (s.toSendVars.next chunk).length
    omega
  · show (s.toSendVars.next chunk).length < 2 ^ 16
    omega
  · rw [hspan, hnat]
    exact hlen.symm

/-- The entries of the queue are well shaped. -/
def QueueShaped (v : View) : Prop := ∀ e ∈ v.queue, e.Shaped

theorem QueueShaped.push {v : View} (h : QueueShaped v) {e : OutSeg} (he : e.Shaped) :
    ∀ x ∈ v.queue ++ [e], x.Shaped := by
  intro x hx
  obtain hx | hx := List.mem_append.mp hx
  · exact h x hx
  · rw [List.mem_singleton.mp hx]
    exact he

theorem Sender.queueShaped {v v' : View} (h : Sender v v') (hv : QueueShaped v) : QueueShaped v' := by
  cases h with
  | resend h =>
    unfold QueueShaped
    rw [h.core]
    exact hv
  | refuse hk hf hb => exact hv
  | send d hk hf hb =>
    refine hv.push ?_
    rw [← hf.snap]
    exact fresh_data_shaped hk _
  | ackIn a popped rest hq hhi hlo hp hr =>
    intro e he
    exact hv e (by rw [hq]; exact List.mem_append_right popped he)

theorem Micro.queueShaped {v v' : View} (h : Micro v v') (hv : QueueShaped v) : QueueShaped v' := by
  cases h with
  | sender h => exact h.queueShaped hv
  | fin d hs he hd hf hb => exact hv.push (.control rfl (by rw [fresh_fin_span]; rfl))
  | _ => exact hv

theorem queueShaped_stable : Stable QueueShaped where
  micro := Micro.queueShaped
  host {x y} h hx := by
    have hq : y.s.core.queue = x.s.core.queue := congrArg (List.map OutSeg.core) h.frame.retx
    exact fun e he => hx e (hq ▸ he)
  wake _ hv := hv
  rst _ _ _ hx := hx
  closed _ hx := hx
  timeWait _ _ _ hv := hv

theorem Started.queueShaped {key : FlowKey} {v : View} (h : Started key v) : QueueShaped v := by
  cases h with
  | lost acts d hp ho hf ha => exact fun e he => by cases he
  | sent d d' hp ho hf hb =>
    intro e he
    rw [List.mem_singleton.mp he]
    exact .control rfl (by rw [fresh_syn_span]; rfl)

theorem shaped_of_reachable {key : FlowKey} {c : Ctx} (h : Reachable key c) :
    ∀ e ∈ c.s.retx, e.Shaped := fun e he =>
  (queueShaped_stable.reachable (fun _ hs => hs.queueShaped) h e.core
    (List.mem_map_of_mem he)).of_core

/-! ## Hits -/

/-- The block ends where an entry without data starts. -/
def SackRange.EndsAt (b : SackRange) (e : OutSeg) : Prop :=
  e.data = [] ∧ b.right = e.seq ∧ (e.seq - b.left).toNat < 2 ^ 31

instance (b : SackRange) (e : OutSeg) : Decidable (b.EndsAt e) := inferInstanceAs (Decidable (_ ∧ _))

/-- The block is shorter than a data entry on the other side of the sequence space. -/
def SackRange.Opposite (b : SackRange) (e : OutSeg) : Prop :=
  e.data ≠ [] ∧ (e.seq - b.left).toNat < 2 ^ 31 ∧
    2 ^ 31 + (b.right - b.left).toNat < (e.seq - b.left).toNat + e.data.length

instance (b : SackRange) (e : OutSeg) : Decidable (b.Opposite e) := inferInstanceAs (Decidable (_ ∧ _))

theorem sackHits_eq {b : SackRange} {e : OutSeg} (hfree : e.sacked = false) :
    Ctx.sackHits b.left b.right e = true ↔ (e.seq - b.left).toNat < 2 ^ 31 ∧
      (b.right - (e.seq + e.data.length.toUInt32)).toNat < 2 ^ 31 := by
  unfold Ctx.sackHits
  rw [hfree, Bool.not_false, Bool.true_and, Bool.and_eq_true, Bool.not_eq_true', Bool.not_eq_true',
    Bool.eq_false_iff, Bool.eq_false_iff, ne_eq, ne_eq, seqLt_iff, seqLt_iff, Nat.not_le, Nat.not_le]

/-- What a block hits it covers, ends at or is opposite to; and it hits what it ends at or is opposite
to. (It misses a FIN at its start if it is half of the sequence space long.) -/
theorem sackHits_cases {b : SackRange} (hb : seqLt b.left b.right = true) {e : OutSeg} (he : e.Shaped)
    (hfree : e.sacked = false) :
    (Ctx.sackHits b.left b.right e = true → b.Covers e ∨ b.EndsAt e ∨ b.Opposite e) ∧
      (b.EndsAt e ∨ b.Opposite e → Ctx.sackHits b.left b.right e = true) := by
  rw [sackHits_eq hfree]
  have hvalid : 2 ^ 31 ≤ (b.left - b.right).toNat := (seqLt_iff b.left b.right).mp hb
  have hseq := e.seq.toNat_lt
  have hleft := b.left.toNat_lt
  have hright := b.right.toNat_lt
  unfold SackRange.Covers SackRange.EndsAt SackRange.Opposite
  cases he with
  | data hpos hlen hspan =>
    have hne : e.data ≠ [] := List.ne_nil_of_length_pos hpos
    have hnat : e.data.length.toUInt32.toNat = e.data.length :=
      Nat.mod_eq_of_lt (show e.data.length < 2 ^ 32 by omega)
    simp only [hne, false_and, not_false_iff, true_and, false_or, ne_eq]
    simp only [UInt32.toNat_sub, UInt32.toNat_add, hnat] at hvalid ⊢
    rw [hspan]
    constructor <;> omega
  | control hdata hspan =>
    have hzero : e.seq + e.data.length.toUInt32 = e.seq := by
      rw [hdata]
      exact UInt32.add_zero _
    rw [hzero]
    simp only [hdata, hspan, ne_eq, not_true_eq_false, false_and, or_false, true_and,
      ← UInt32.toNat_inj, UInt32.toNat_sub] at hvalid ⊢
    constructor <;> omega

/-! ## Received -/

/-- `parse_sack_blocks` marks an entry only when one of the blocks covers its span. -/
def MarksReceived (c : Ctx) (opts : Bytes) : Prop :=
  ∀ (i : ℕ) (e e' : OutSeg), c.s.retx[i]? = some e → (c.parseSackBlocks opts).s.retx[i]? = some e' →
    e.sacked = false → e'.sacked = true → ∃ b ∈ sackRanges opts, b.Covers e

/-- A block of the buffer hits an entry that no block of it covers. -/
def StrayBlock (s : TcpSession) (opts : Bytes) : Prop :=
  s.peerSackOk = true ∧ ∃ e ∈ s.retx, e.sacked = false ∧
    (∃ b ∈ sackRanges opts, b.EndsAt e ∨ b.Opposite e) ∧ ∀ b ∈ sackRanges opts, ¬ b.Covers e

instance (s : TcpSession) (opts : Bytes) : Decidable (StrayBlock s opts) :=
  inferInstanceAs (Decidable (_ ∧ _))

theorem marks_received_iff {key : FlowKey} {c : Ctx} (h : Reachable key c) (opts : Bytes) :
    MarksReceived c opts ↔ ¬ StrayBlock c.s opts := by
  have hshaped := shaped_of_reachable h
  have hvalid := sackRanges_valid opts
  unfold MarksReceived StrayBlock
  cases hok : c.s.peerSackOk with
  | false =>
    have hsame : c.parseSackBlocks opts = c := by
      unfold Ctx.parseSackBlocks
      rw [hok]
      rfl
    rw [hsame]
    simp only [Bool.false_eq_true, false_and, not_false_iff, iff_true]
    intro i e e' he he' hfree hmarked
    obtain rfl : e = e' := Option.some.inj (he.symm.trans he')
    rw [hfree] at hmarked
    cases hmarked
  | true =>
    rw [parseSackBlocks_retx c opts hok]
    simp only [true_and, not_exists, not_and]
    constructor
    · intro hmarks e he hfree hstray hnone
      obtain ⟨b, hb, hkind⟩ := hstray
      obtain ⟨i, hi⟩ := List.getElem?_of_mem he
      have hhit := (sackHits_cases (hvalid b hb) (hshaped e he) hfree).2 hkind
      have hmarked : (markSacked (sackRanges opts) e).sacked = true := by
        rw [markSacked_sacked, List.any_eq_true.mpr ⟨b, hb, hhit⟩, Bool.or_true]
      obtain ⟨b', hb', hcovers⟩ := hmarks i e _ hi (by rw [List.getElem?_map, hi]; rfl) hfree hmarked
      exact hnone b' hb' hcovers
    · intro hno i e e' he he' hfree hmarked
      have hmem : e ∈ c.s.retx := List.mem_of_getElem? he
      rw [List.getElem?_map, he] at he'
      obtain rfl : markSacked (sackRanges opts) e = e' := Option.some.inj he'
      rw [markSacked_sacked, hfree, Bool.false_or, List.any_eq_true] at hmarked
      obtain ⟨b, hb, hhit⟩ := hmarked
      obtain hcovers | hkind := (sackHits_cases (hvalid b hb) (hshaped e hmem) hfree).1 hhit
      · exact ⟨b, hb, hcovers⟩
      · by_contra hnone
        exact hno e hmem hfree ⟨b, hb, hkind⟩ fun b' hb' hcovers => hnone ⟨b', hb', hcovers⟩

/-- Three bytes and the end of the stream from the host: the bytes at 1, the FIN at 4. -/
def finQueued : Ctx :=
  (sampleStart 1000 [4, 2, 1, 1]).run
    [sampleAck 1000, ⟨.host { isReadable := true }, { reads := [.ok [1, 2, 3], .ok []] }⟩]

theorem finQueued_reachable : Reachable sampleKey finQueued :=
  (sampleStart_accepted _ _ (by decide +kernel)).reachable _

theorem marks_received_bytes_and_fin :
    MarksReceived finQueued [1, 1, 5, 10, 0, 0, 0, 1, 0, 0, 0, 5] :=
  (marks_received_iff finQueued_reachable _).mpr (by decide +kernel)

/-- The block of the three bytes. -/
def bytesSacked : Bytes := [1, 1, 5, 10, 0, 0, 0, 1, 0, 0, 0, 4]

/-- It marks the FIN behind them as well. -/
theorem marks_unreceived_fin : ¬ ∀ (key : FlowKey) (c : Ctx), Reachable key c →
    ∀ opts : Bytes, MarksReceived c opts := by
  intro hall
  have hmarks := hall _ _ finQueued_reachable bytesSacked
  have hfree : finQueued.s.retx[1]?.map (·.sacked) = some false := by decide +kernel
  have hmarked : (finQueued.parseSackBlocks bytesSacked).s.retx[1]?.map (·.sacked) = some true := by
    decide +kernel
  have hmissed : finQueued.s.retx[1]?.map (fun e => (sackRanges bytesSacked).all fun b =>
      !decide (b.Covers e)) = some true := by decide +kernel
  obtain ⟨e, he, hfree⟩ := Option.map_eq_some_iff.mp hfree
  obtain ⟨e', he', hmarked⟩ := Option.map_eq_some_iff.mp hmarked
  obtain ⟨b, hb, hcovers⟩ := hmarks 1 e e' he he' hfree hmarked
  rw [he, Option.map_some, Option.some_inj, List.all_eq_true] at hmissed
  simpa [hcovers] using hmissed b hb

end BaleVpn.Tcp
