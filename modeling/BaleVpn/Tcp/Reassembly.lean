import BaleVpn.Tcp.Emissions
import BaleVpn.Tcp.SeqArith
import Mathlib.Data.List.Infix

/-!
# Reassembly of the client's stream

Segments cut from one byte stream reach `handle_data_in` in any order, with any overlap. What goes to
the host is a prefix of the stream, `rcv_nxt` stands at its end, and the out-of-order queue holds
disjoint pieces of what follows, in order. Positions are unwrapped: the stream may be longer than the
sequence space, as long as every segment lies within `2^30` of `rcv_nxt` when it arrives.
-/

namespace BaleVpn.Tcp

open Net Relation

/-! ## What reassembly reads and writes -/

def Action.bytesEnqueued : Action → Bytes
  | .enqueue data => data
  | _ => []

/-- The concatenation of the slices passed to `enqueue_to_host`. -/
def enqueuedOf (t : List Action) : Bytes := t.flatMap Action.bytesEnqueued

theorem enqueuedOf_append (t acts : List Action) :
    enqueuedOf (t ++ acts) = enqueuedOf t ++ enqueuedOf acts := List.flatMap_append

theorem enqueuedOf_nil (acts : List Action) (h : ∀ a ∈ acts, a.bytesEnqueued = []) :
    enqueuedOf acts = [] := by
  rw [enqueuedOf, List.flatMap_eq_nil_iff]
  exact h

/-- The receiver's place in the stream, its out-of-order queue and what it passed on. -/
structure Intake where
  rcvNxt : UInt32
  ooo : List OooSeg
  oooBytes : ℕ
  enqueued : Bytes

def Obs.intake (x : Obs) : Intake := ⟨x.s.rcvNxt, x.s.ooo, x.s.oooBytes, enqueuedOf x.trace⟩

def Ctx.intake (c : Ctx) : Intake := c.obs.intake

theorem RstActs.bytesEnqueued {s : TcpSession} {acts : List Action} (h : RstActs s acts) :
    ∀ a ∈ acts, a.bytesEnqueued = [] := by
  obtain ⟨-, rfl⟩ | ⟨pkt, ok, -, rfl⟩ := h
  · simp
  · intro a ha
    rw [List.mem_singleton.mp ha]
    rfl

theorem closed_intake (x : Obs) : x.closed.intake = x.intake := by
  unfold Obs.intake Obs.closed
  simp only [enqueuedOf_append]
  rw [enqueuedOf_nil (.markClosed :: dropActs _), List.append_nil]
  intro a ha
  obtain rfl | ha := List.mem_cons.mp ha
  · rfl
  · rw [(mem_dropActs ha).1]
    rfl

theorem DrainStep.intake {x y : Obs} (h : DrainStep x y) : y.intake = x.intake := by
  cases h with
  | fail acts h =>
    rw [closed_intake]
    unfold Obs.intake
    simp only [enqueuedOf_append]
    rw [enqueuedOf_nil (.writeErr :: acts), List.append_nil]
    exact List.forall_mem_cons.mpr ⟨rfl, h.bytesEnqueued⟩
  | clear h => rfl
  | write | blocked | zero =>
    unfold Obs.intake
    simp only [enqueuedOf_append]
    rw [enqueuedOf_nil [_] (List.forall_mem_singleton.mpr rfl), List.append_nil]

theorem tryDrainToHost_intake (c : Ctx) : c.tryDrainToHost.intake = c.intake := by
  have h := tryDrainToHost_drain c
  unfold Ctx.intake
  generalize c.tryDrainToHost.obs = y at h ⊢
  induction h with
  | refl => rfl
  | tail _ hstep ih => rw [hstep.intake, ih]

theorem enqueueToHost_intake (c : Ctx) (data : Bytes) :
    (c.enqueueToHost data).intake = { c.intake with enqueued := c.intake.enqueued ++ data } := by
  have happend : (c.appendToHost data).intake =
      { c.intake with enqueued := c.intake.enqueued ++ data } := by
    have hpush : (c.s.toRecvVars.push data).rcvNxt = c.s.rcvNxt ∧
        (c.s.toRecvVars.push data).ooo = c.s.ooo ∧
        (c.s.toRecvVars.push data).oooBytes = c.s.oooBytes := by
      unfold RecvVars.push
      split <;> exact ⟨rfl, rfl, rfl⟩
    have hlog : enqueuedOf (c.io.trace ++ [.enqueue data]) = enqueuedOf c.io.trace ++ data := by
      rw [enqueuedOf_append]
      simp [enqueuedOf, Action.bytesEnqueued]
    show Intake.mk (c.s.toRecvVars.push data).rcvNxt (c.s.toRecvVars.push data).ooo
      (c.s.toRecvVars.push data).oooBytes (enqueuedOf (c.io.trace ++ [.enqueue data])) = _
    rw [hpush.1, hpush.2.1, hpush.2.2, hlog]
    rfl
  unfold Ctx.enqueueToHost
  generalize c.appendToHost data = c₁ at happend ⊢
  simp only
  split
  · rw [tryDrainToHost_intake, happend]
  · exact happend

/-! ## The invariant -/

/-- Disjoint non-empty pieces of the stream, in order, between positions `lo` and `hi`. -/
def Queued (base : UInt32) (stream : Bytes) (hi : ℕ) : ℕ → List OooSeg → Prop
  | _, [] => True
  | lo, o :: l => ∃ p, lo ≤ p ∧ p + o.data.length ≤ hi ∧ o.seq = seqAt base p ∧ o.data ≠ [] ∧
      o.data <+: stream.drop p ∧ Queued base stream hi (p + o.data.length) l

def totalBytes (l : List OooSeg) : ℕ := (l.map fun o => o.data.length).sum

/-- The intake holds the first `n` bytes of the stream and queued pieces between `lo` and `hi`. -/
structure Held (base : UInt32) (stream before : Bytes) (n lo hi : ℕ) (x : Intake) : Prop where
  rcvNxt : x.rcvNxt = seqAt base n
  inStream : n ≤ stream.length
  enqueued : x.enqueued = before ++ stream.take n
  queued : Queued base stream hi lo x.ooo
  bytes : x.oooBytes = totalBytes x.ooo
  cap : x.oooBytes ≤ maxOooBytes

variable {base : UInt32} {stream before : Bytes}

theorem Queued.mono {hi hi' : ℕ} (hhi : hi ≤ hi') {l : List OooSeg} : ∀ {lo lo' : ℕ}, lo' ≤ lo →
    Queued base stream hi lo l → Queued base stream hi' lo' l := by
  induction l with
  | nil => exact fun _ _ => trivial
  | cons o l ih =>
    rintro lo lo' hlo ⟨p, hp, hend, hseq, hne, hdata, hrest⟩
    exact ⟨p, by omega, by omega, hseq, hne, hdata, ih (Nat.le_refl _) hrest⟩

theorem take_append_of_prefix {n : ℕ} {data : Bytes} (h : data <+: stream.drop n) :
    stream.take n ++ data = stream.take (n + data.length) := by
  rw [List.take_add, ← List.prefix_iff_eq_take.mp h]

theorem prefix_drop {p n : ℕ} {data : Bytes} (h : data <+: stream.drop p) (hn : p ≤ n) :
    data.drop (n - p) <+: stream.drop n := by
  have hdrop := h.drop (n - p)
  rwa [List.drop_drop, Nat.add_sub_cancel' hn] at hdrop

theorem prefix_end {n : ℕ} {data : Bytes} (hne : data ≠ []) (h : data <+: stream.drop n) :
    n + data.length ≤ stream.length := by
  have hlen := h.length_le
  have hpos := List.length_pos_iff.mpr hne
  rw [List.length_drop] at hlen
  omega

/-! ## Delivery -/

theorem popOoo_intake (c : Ctx) (head : OooSeg) (rest : List OooSeg) :
    (c.popOoo head rest).intake = { c.intake with
      ooo := rest, oooBytes := c.intake.oooBytes - head.data.length } := rfl

theorem setRcvNxt_intake (c : Ctx) (seq : UInt32) :
    (c.setRcvNxt seq).intake = { c.intake with rcvNxt := seq } := rfl

theorem Held.pass {n lo hi : ℕ} {c : Ctx} (h : Held base stream before n lo hi c.intake)
    {data : Bytes} (hne : data ≠ []) (hdata : data <+: stream.drop n) :
    Held base stream before (n + data.length) lo hi
      ((c.enqueueToHost data).setRcvNxt (seqAt base (n + data.length))).intake := by
  rw [setRcvNxt_intake, enqueueToHost_intake]
  refine ⟨rfl, prefix_end hne hdata, ?_, h.queued, h.bytes, h.cap⟩
  simp only
  rw [h.enqueued, List.append_assoc, take_append_of_prefix hdata]

theorem Held.pop {n lo hi lo' : ℕ} {c : Ctx} {head : OooSeg} {rest : List OooSeg}
    (h : Held base stream before n lo hi c.intake) (hooo : c.s.ooo = head :: rest)
    (hrest : Queued base stream hi lo' rest) :
    Held base stream before n lo' hi (c.popOoo head rest).intake := by
  have hbytes : c.intake.oooBytes = head.data.length + totalBytes rest := by
    rw [h.bytes, show c.intake.ooo = head :: rest from hooo]
    simp [totalBytes]
  have hcap := h.cap
  rw [popOoo_intake]
  refine ⟨h.rcvNxt, h.inStream, h.enqueued, hrest, ?_, ?_⟩
  · show c.intake.oooBytes - head.data.length = totalBytes rest
    omega
  · show c.intake.oooBytes - head.data.length ≤ maxOooBytes
    omega

/-- `deliver_ooo` passes on the pieces that `rcv_nxt` has reached and leaves those beyond it. -/
theorem deliverOoo_held {hi : ℕ} (l : List OooSeg) : ∀ {c : Ctx} {n lo : ℕ}, c.s.ooo = l →
    Held base stream before n lo hi c.intake → n ≤ lo + 2 ^ 30 → hi ≤ n + 2 ^ 30 →
    ∃ m, n ≤ m ∧ (m = n ∨ m ≤ hi) ∧
      Held base stream before m (m + 1) hi (Ctx.deliverOoo l c).intake := by
  induction l with
  | nil =>
    intro c n lo hooo h _ _
    have hqueue : c.intake.ooo = [] := hooo
    refine ⟨n, Nat.le_refl n, .inl rfl, h.rcvNxt, h.inStream, h.enqueued, ?_, h.bytes, h.cap⟩
    rw [show (Ctx.deliverOoo [] c).intake.ooo = [] from hqueue]
    trivial
  | cons head rest ih =>
    intro c n lo hooo h hlo hhi
    have hqueued := h.queued
    rw [show c.intake.ooo = head :: rest from hooo] at hqueued
    obtain ⟨p, hp, hend, hseq, hne, hdata, hrest⟩ := hqueued
    have hnxt : c.s.rcvNxt = seqAt base n := h.rcvNxt
    have htail : head.seq + head.data.length.toUInt32 = seqAt base (p + head.data.length) := by
      rw [hseq, seqAt_add]
    have hpop := h.pop hooo hrest
    have hpopped : (c.popOoo head rest).s.ooo = rest := rfl
    unfold Ctx.deliverOoo
    simp only [htail, hnxt]
    rw [seqLt_seqAt base (by omega) (by omega), hseq, seqLt_seqAt base (by omega) (by omega)]
    split
    · exact ih hpopped hpop (by omega) hhi
    · rename_i hpast
      have hpast : n < p + head.data.length := by simpa using hpast
      split
      · rename_i hgap
        have hgap : n < p := by simpa using hgap
        refine ⟨n, Nat.le_refl n, .inl rfl, h.rcvNxt, h.inStream, h.enqueued, ?_, h.bytes, h.cap⟩
        rw [show c.intake.ooo = head :: rest from hooo]
        exact ⟨p, by omega, hend, hseq, hne, hdata, hrest⟩
      · rename_i hreached
        have hreached : p ≤ n := by simpa using hreached
        rw [seqAt_sub base hreached, UInt32.toNat_ofNat_of_lt' (by show n - p < 2 ^ 32; omega)]
        have hlen : (head.data.drop (n - p)).length = p + head.data.length - n := by
          rw [List.length_drop]
          omega
        have hpass := hpop.pass (List.length_pos_iff.mp (by omega)) (prefix_drop hdata hreached)
        rw [hlen, Nat.add_sub_cancel' (Nat.le_of_lt hpast)] at hpass
        have hooo' : (((c.popOoo head rest).enqueueToHost (head.data.drop (n - p))).setRcvNxt
            (seqAt base (p + head.data.length))).s.ooo = rest :=
          congrArg Intake.ooo (enqueueToHost_intake (c.popOoo head rest) _)
        obtain ⟨m, hm, hmhi, hheld⟩ := ih hooo' hpass (by omega) (by omega)
        exact ⟨m, by omega, .inr (by omega), hheld⟩

/-! ## Out-of-order pieces -/

/-- The place `store_ooo` finds: what lies before it starts before `seq`, and with no overlap on
either side the new piece fits in between. -/
theorem Queued.insert {n p hi : ℕ} {data : Bytes} (hp : n ≤ p ∧ p + data.length ≤ n + 2 ^ 30)
    (hend : p + data.length ≤ hi) (hhi : hi ≤ n + 2 ^ 30)
    (hne : data ≠ []) (hdata : data <+: stream.drop p) (l : List OooSeg) : ∀ {lo : ℕ}, n ≤ lo →
    lo ≤ p → Queued base stream hi lo l →
    (∀ prev ∈ (l.take (l.findIdx fun o => !seqLt o.seq (seqAt base p))).getLast?,
      seqLt (seqAt base p) (prev.seq + prev.data.length.toUInt32) = false) →
    (∀ next ∈ (l.drop (l.findIdx fun o => !seqLt o.seq (seqAt base p))).head?,
      seqLt next.seq (seqAt base p + data.length.toUInt32) = false) →
    Queued base stream hi lo (l.take (l.findIdx fun o => !seqLt o.seq (seqAt base p)) ++
      ⟨seqAt base p, data⟩ :: l.drop (l.findIdx fun o => !seqLt o.seq (seqAt base p))) := by
  have hpos := List.length_pos_iff.mpr hne
  induction l with
  | nil =>
    intro lo hlo hlop _ _ _
    exact ⟨p, hlop, hend, rfl, hne, hdata, trivial⟩
  | cons o l ih =>
    rintro lo hlo hlop ⟨q, hq, hqend, hseq, hone, hodata, hrest⟩ hprev hnext
    have holen := List.length_pos_iff.mpr hone
    have hcmp : seqLt o.seq (seqAt base p) = decide (q < p) := by
      rw [hseq, seqLt_seqAt base (by omega) (by omega)]
    rw [List.findIdx_cons] at hprev hnext ⊢
    by_cases hqp : q < p
    · simp only [hcmp, hqp, decide_true, Bool.not_true, cond_false, List.take_succ_cons,
        List.drop_succ_cons] at hprev hnext ⊢
      have hlast : ∀ prev ∈ (l.take (l.findIdx fun o => !seqLt o.seq (seqAt base p))).getLast?,
          seqLt (seqAt base p) (prev.seq + prev.data.length.toUInt32) = false := by
        intro prev hmem
        refine hprev prev ?_
        rw [List.getLast?_cons, Option.mem_def.mp hmem]
        rfl
      have hgap : q + o.data.length ≤ p := by
        -- Either `o` is the last piece before the place, or the next one lies in between.
        have halone : (l.take (l.findIdx fun o => !seqLt o.seq (seqAt base p))) = [] →
            q + o.data.length ≤ p := by
          intro hnil
          have hfree := hprev o (by rw [hnil]; rfl)
          rw [hseq, ← seqAt_add, seqLt_seqAt base (by omega) (by omega),
            decide_eq_false_iff_not] at hfree
          omega
        cases l with
        | nil => exact halone rfl
        | cons o' l =>
          obtain ⟨q', hq', hqend', hseq', -⟩ := hrest
          by_cases hbefore : q' < p
          · omega
          · apply halone
            rw [List.findIdx_cons, hseq', seqLt_seqAt base (by omega) (by omega)]
            simp [hbefore]
      exact ⟨q, hq, hqend, hseq, hone, hodata, ih (by omega) hgap hrest hlast hnext⟩
    · simp only [hcmp, hqp, decide_false, Bool.not_false, cond_true, List.take_zero, List.drop_zero,
        List.nil_append] at hnext ⊢
      have hfar := hnext o rfl
      rw [hseq, ← seqAt_add, seqLt_seqAt base (by omega) (by omega), decide_eq_false_iff_not] at hfar
      exact ⟨p, hlop, hend, rfl, hne, hdata, q, by simp only; omega, hqend, hseq, hone, hodata, hrest⟩

theorem totalBytes_insert (l l' : List OooSeg) (o : OooSeg) :
    totalBytes (l ++ o :: l') = totalBytes (l ++ l') + o.data.length := by
  simp [totalBytes]
  omega

theorem not_any {α : Type} {o : Option α} {f : α → Bool} (h : ¬ o.any f = true) :
    ∀ a ∈ o, f a = false := by
  rintro a rfl
  simpa using h

theorem storeOoo_held {n p : ℕ} {c : Ctx} {data : Bytes}
    (h : Held base stream before n (n + 1) (n + 2 ^ 30) c.intake) (hp : n < p)
    (hend : p + data.length ≤ n + 2 ^ 30) (hdata : data <+: stream.drop p) :
    Held base stream before n (n + 1) (n + 2 ^ 30) (c.storeOoo (seqAt base p) data).intake := by
  unfold Ctx.storeOoo
  split
  · exact h
  · rename_i hne
    have hne : data ≠ [] := by simpa using hne
    split
    · exact h
    · rename_i hcap
      simp only
      split
      · exact h
      · rename_i hprev
        split
        · exact h
        · rename_i hnext
          have hbytes := h.bytes
          refine ⟨h.rcvNxt, h.inStream, h.enqueued, ?_, ?_, Nat.not_lt.mp hcap⟩
          · refine Queued.insert ⟨by omega, hend⟩ hend (Nat.le_refl _) hne hdata c.s.ooo (by omega) hp
              h.queued ?_ ?_
            · exact not_any hprev
            · exact not_any hnext
          · refine Eq.trans ?_ (totalBytes_insert _ _ _).symm
            rw [List.take_append_drop]
            exact congrArg (· + data.length) hbytes

theorem acceptData_held {n p : ℕ} {c : Ctx} {data : Bytes}
    (h : Held base stream before n (n + 1) (n + 2 ^ 30) c.intake) (hp : n ≤ p)
    (hend : p + data.length ≤ n + 2 ^ 30) (hne : data ≠ []) (hdata : data <+: stream.drop p) :
    ∃ m, n ≤ m ∧ m ≤ n + 2 ^ 30 ∧
      Held base stream before m (m + 1) (m + 2 ^ 30) (c.acceptData (seqAt base p) data).intake := by
  have hnxt : c.s.rcvNxt = seqAt base n := h.rcvNxt
  unfold Ctx.acceptData
  split
  · rename_i heq
    have hpn : p = n := by
      have hmod := seqAt_inj ((beq_iff_eq.mp heq).trans hnxt)
      omega
    subst hpn
    have hkeep : (c.enqueueToHost data).s.rcvNxt = seqAt base p :=
      (congrArg Intake.rcvNxt (enqueueToHost_intake c data)).trans hnxt
    simp only
    rw [hkeep, ← seqAt_add]
    have hpass := h.pass hne hdata
    generalize (c.enqueueToHost data).setRcvNxt (seqAt base (p + data.length)) = c₁ at hpass ⊢
    obtain ⟨m, hm, hmhi, hheld⟩ := deliverOoo_held c₁.s.ooo rfl hpass (by omega) (by omega)
    refine ⟨m, by omega, by omega, hheld.rcvNxt, hheld.inStream, hheld.enqueued, ?_, hheld.bytes,
      hheld.cap⟩
    exact hheld.queued.mono (by omega) (Nat.le_refl _)
  · rename_i hother
    have hlt : n < p := by
      refine Nat.lt_of_le_of_ne hp ?_
      rintro rfl
      exact hother (beq_iff_eq.mpr hnxt.symm)
    exact ⟨n, Nat.le_refl n, by omega, storeOoo_held h hlt hend hdata⟩

theorem handleDataIn_held {n p : ℕ} {c : Ctx} {data : Bytes}
    (h : Held base stream before n (n + 1) (n + 2 ^ 30) c.intake) (hlo : n ≤ p + 2 ^ 30)
    (hend : p + data.length ≤ n + 2 ^ 30) (hdata : data <+: stream.drop p) :
    ∃ m, n ≤ m ∧ m ≤ n + 2 ^ 30 ∧
      Held base stream before m (m + 1) (m + 2 ^ 30)
        (c.handleDataIn (seqAt base p) data).intake := by
  have hstay : ∃ m, n ≤ m ∧ m ≤ n + 2 ^ 30 ∧
      Held base stream before m (m + 1) (m + 2 ^ 30) c.intake := ⟨n, Nat.le_refl n, by omega, h⟩
  have hnxt : c.s.rcvNxt = seqAt base n := h.rcvNxt
  unfold Ctx.handleDataIn
  simp only [hnxt, ← seqAt_add]
  rw [seqLt_seqAt base (by omega) (by omega), seqLt_seqAt base (by omega) (by omega)]
  split
  · exact hstay
  · rename_i hne
    have hne : data ≠ [] := by simpa using hne
    split
    · exact hstay
    · rename_i hnew
      have hnew : n < p + data.length := by simpa using hnew
      split
      · rename_i hold
        have hold : p < n := by simpa using hold
        rw [seqAt_sub base (Nat.le_of_lt hold),
          UInt32.toNat_ofNat_of_lt' (by show n - p < 2 ^ 32; omega), if_neg (by omega),
          Nat.add_sub_cancel' (Nat.le_of_lt hold)]
        have hlen : (data.drop (n - p)).length = p + data.length - n := by
          rw [List.length_drop]
          omega
        exact acceptData_held h (Nat.le_refl n) (by omega) (List.length_pos_iff.mp (by omega))
          (prefix_drop hdata (Nat.le_of_lt hold))
      · rename_i hold
        have hold : n ≤ p := by simpa using hold
        exact acceptData_held h hold hend hne hdata

/-! ## Runs -/

/-- A call of `handle_data_in` on a segment cut from the stream whose start and end lie within `2^30`
of `rcv_nxt`, or anything else the session does that leaves reassembly alone. The number is how far
`rcv_nxt` has moved. -/
inductive DataStep (base : UInt32) (stream : Bytes) : ℕ × Ctx → ℕ × Ctx → Prop
  | data (n : ℕ) (c : Ctx) (p : ℕ) (data : Bytes) (hne : data ≠ []) (hcut : data <+: stream.drop p)
      (hlo : n ≤ p + 2 ^ 30) (hhi : p + data.length ≤ n + 2 ^ 30) :
      DataStep base stream (n, c)
        (n + ((c.handleDataIn (seqAt base p) data).s.rcvNxt - c.s.rcvNxt).toNat,
          c.handleDataIn (seqAt base p) data)
  | other (n : ℕ) {c c' : Ctx} (h : c'.intake = c.intake) : DataStep base stream (n, c) (n, c')

abbrev DataRun (base : UInt32) (stream : Bytes) : ℕ × Ctx → ℕ × Ctx → Prop :=
  ReflTransGen (DataStep base stream)

/-- What reassembly promises once `rcv_nxt` has moved `n` bytes past `base`: those bytes went to the
host, in order and once, and the queue holds pieces of what follows. -/
structure Reassembled (base : UInt32) (stream before : Bytes) (n : ℕ) (c : Ctx) : Prop where
  rcvNxt : c.s.rcvNxt = seqAt base n
  enqueued : enqueuedOf c.io.trace = before ++ stream.take n
  inStream : n ≤ stream.length
  ordered : c.s.ooo.Pairwise fun a b =>
    seqLt a.seq b.seq = true ∧ seqLe (a.seq + a.data.length.toUInt32) b.seq = true
  nonempty : ∀ o ∈ c.s.ooo, o.data ≠ []
  after : ∀ o ∈ c.s.ooo, seqLt c.s.rcvNxt o.seq = true
  holds : ∀ o ∈ c.s.ooo, ∃ p, n < p ∧ p + o.data.length ≤ n + 2 ^ 30 ∧ o.seq = seqAt base p ∧
    o.data <+: stream.drop p
  bytes : c.s.oooBytes = totalBytes c.s.ooo
  cap : c.s.oooBytes ≤ maxOooBytes

theorem Queued.mem {hi : ℕ} {l : List OooSeg} : ∀ {lo : ℕ}, Queued base stream hi lo l →
    ∀ o ∈ l, ∃ p, lo ≤ p ∧ p + o.data.length ≤ hi ∧ o.seq = seqAt base p ∧ o.data ≠ [] ∧
      o.data <+: stream.drop p := by
  induction l with
  | nil => exact fun _ _ ho => by cases ho
  | cons x l ih =>
    rintro lo ⟨p, hp, hend, hseq, hne, hdata, hrest⟩ o ho
    obtain rfl | ho := List.mem_cons.mp ho
    · exact ⟨p, hp, hend, hseq, hne, hdata⟩
    · obtain ⟨q, hq, hfacts⟩ := ih hrest o ho
      exact ⟨q, by omega, hfacts⟩

theorem Queued.pairwise {hi : ℕ} {l : List OooSeg} : ∀ {lo : ℕ}, hi ≤ lo + 2 ^ 30 →
    Queued base stream hi lo l → l.Pairwise fun a b =>
      seqLt a.seq b.seq = true ∧ seqLe (a.seq + a.data.length.toUInt32) b.seq = true := by
  induction l with
  | nil => exact fun _ _ => .nil
  | cons a l ih =>
    rintro lo hhi ⟨p, hp, hend, hseq, hne, -, hrest⟩
    have hpos := List.length_pos_iff.mpr hne
    refine .cons (fun b hb => ?_) (ih (by omega) hrest)
    obtain ⟨q, hq, hqend, hbseq, -⟩ := hrest.mem b hb
    rw [hseq, hbseq, ← seqAt_add, seqLt_seqAt base (by omega) (by omega)]
    exact ⟨decide_eq_true (by omega), seqLe_seqAt base hq (by omega)⟩

theorem Held.reassembled {n : ℕ} {c : Ctx}
    (h : Held base stream before n (n + 1) (n + 2 ^ 30) c.intake) :
    Reassembled base stream before n c := by
  have hmem := h.queued.mem
  refine ⟨h.rcvNxt, h.enqueued, h.inStream, h.queued.pairwise (by omega), ?_, ?_, ?_, h.bytes, h.cap⟩
  · intro o ho
    obtain ⟨p, -, -, -, hne, -⟩ := hmem o ho
    exact hne
  · intro o ho
    obtain ⟨p, hp, hend, hseq, -⟩ := hmem o ho
    rw [show c.s.rcvNxt = seqAt base n from h.rcvNxt, hseq, seqLt_seqAt base (by omega) (by omega)]
    exact decide_eq_true hp
  · intro o ho
    obtain ⟨p, hp, hend, hseq, -, hdata⟩ := hmem o ho
    exact ⟨p, hp, hend, hseq, hdata⟩

/-- One step keeps the invariant, and `rcv_nxt` does not move backwards. -/
theorem DataStep.held {x y : ℕ × Ctx} (hstep : DataStep base stream x y)
    (h : Held base stream before x.1 (x.1 + 1) (x.1 + 2 ^ 30) x.2.intake) :
    Held base stream before y.1 (y.1 + 1) (y.1 + 2 ^ 30) y.2.intake ∧ x.1 ≤ y.1 ∧
      y.1 ≤ x.1 + 2 ^ 30 := by
  cases hstep with
  | data n c p data hne hcut hlo hhi =>
    obtain ⟨m, hnm, hmn, hheld⟩ := handleDataIn_held h hlo hhi hcut
    have hmove : n + ((c.handleDataIn (seqAt base p) data).s.rcvNxt - c.s.rcvNxt).toNat = m := by
      rw [show (c.handleDataIn (seqAt base p) data).s.rcvNxt = _ from hheld.rcvNxt,
        show c.s.rcvNxt = seqAt base n from h.rcvNxt, seqAt_sub base hnm,
        UInt32.toNat_ofNat_of_lt' (by show m - n < 2 ^ 32; omega)]
      omega
    simp only at hnm hmn ⊢
    rw [hmove]
    exact ⟨hheld, hnm, hmn⟩
  | other n hsame =>
    simp only at h ⊢
    rw [hsame]
    exact ⟨h, Nat.le_refl n, by omega⟩

theorem DataRun.held {c₀ : Ctx} {y : ℕ × Ctx} (hrun : DataRun base stream (0, c₀) y)
    (h : Held base stream before 0 1 (2 ^ 30) c₀.intake) :
    Held base stream before y.1 (y.1 + 1) (y.1 + 2 ^ 30) y.2.intake := by
  induction hrun with
  | refl => simpa using h
  | tail _ hstep ih => exact (hstep.held ih).1

/-- Reassembly in every state of every run, and `rcv_nxt` never moves backwards. -/
theorem reassembly {base : UInt32} {stream : Bytes} {c₀ c : Ctx} {n : ℕ}
    (hnxt : c₀.s.rcvNxt = base) (hempty : c₀.s.ooo = []) (hbytes : c₀.s.oooBytes = 0)
    (hrun : DataRun base stream (0, c₀) (n, c)) :
    Reassembled base stream (enqueuedOf c₀.io.trace) n c ∧
      ∀ n' c', DataStep base stream (n, c) (n', c') →
        n ≤ n' ∧ seqLe c.s.rcvNxt c'.s.rcvNxt = true := by
  have hstart : Held base stream (enqueuedOf c₀.io.trace) 0 1 (2 ^ 30) c₀.intake := by
    refine ⟨?_, Nat.zero_le _, (List.append_nil _).symm, ?_, ?_, ?_⟩
    · exact hnxt.trans (UInt32.add_zero _).symm
    · rw [show c₀.intake.ooo = [] from hempty]
      trivial
    · rw [show c₀.intake.ooo = [] from hempty]
      exact hbytes
    · rw [show c₀.intake.oooBytes = 0 from hbytes]
      exact Nat.zero_le _
  have hheld := hrun.held hstart
  refine ⟨hheld.reassembled, fun n' c' hstep => ?_⟩
  obtain ⟨hheld', hle, hfar⟩ := hstep.held hheld
  refine ⟨hle, ?_⟩
  rw [show c.s.rcvNxt = seqAt base n from hheld.rcvNxt,
    show c'.s.rcvNxt = seqAt base n' from hheld'.rcvNxt]
  exact seqLe_seqAt base hle (by simp only at hfar; omega)

/-- Two bytes short of the end of the sequence space, nothing received. -/
def wrapStart : Ctx := { s := { TcpSession.new sampleKey with rcvNxt := 0xFFFFFFFE } }

/-- Then the bytes 3 and 4 of the stream, past the wrap. -/
def wrapGap : Ctx := wrapStart.handleDataIn (seqAt 0xFFFFFFFE 2) [3, 4]

/-- Then the bytes 1 to 3, which overlap them. -/
def wrapFilled : Ctx := wrapGap.handleDataIn (seqAt 0xFFFFFFFE 0) [1, 2, 3]

theorem wrapped_run : DataRun 0xFFFFFFFE [1, 2, 3, 4, 5] (0, wrapStart) (4, wrapFilled) := by
  have hgap := @DataStep.data 0xFFFFFFFE [1, 2, 3, 4, 5] 0 wrapStart 2 [3, 4]
    (by decide) (by decide) (by decide) (by decide)
  have hfill := @DataStep.data 0xFFFFFFFE [1, 2, 3, 4, 5] 0 wrapGap 0 [1, 2, 3]
    (by decide) (by decide) (by decide) (by decide)
  rw [show 0 + ((wrapStart.handleDataIn (seqAt 0xFFFFFFFE 2) [3, 4]).s.rcvNxt -
    wrapStart.s.rcvNxt).toNat = 0 by decide +kernel] at hgap
  rw [show 0 + ((wrapGap.handleDataIn (seqAt 0xFFFFFFFE 0) [1, 2, 3]).s.rcvNxt -
    wrapGap.s.rcvNxt).toNat = 4 by decide +kernel] at hfill
  exact (ReflTransGen.single hgap).tail hfill

theorem reassembly_wrapped :
    wrapGap.s.ooo = [⟨0, [3, 4]⟩] ∧ Reassembled 0xFFFFFFFE [1, 2, 3, 4, 5] [] 4 wrapFilled :=
  ⟨by decide +kernel, (@reassembly _ _ wrapStart _ _ rfl rfl rfl wrapped_run).1⟩

end BaleVpn.Tcp
