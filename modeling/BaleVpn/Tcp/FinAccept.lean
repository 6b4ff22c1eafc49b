import BaleVpn.Tcp.RecvWindow
import BaleVpn.Tcp.WellFormed

/-!
# Accepting the peer's FIN

Each handler that takes payload takes a FIN only from a segment that started at `rcv_nxt`. A segment
that repeats received data and whose FIN is the next thing expected is therefore passed over. That
is the only case: everywhere else a FIN is taken exactly when it is next in sequence.
-/

namespace BaleVpn.Tcp

open Net Lib Relation

/-! ## Where the payload leaves `rcv_nxt` -/

def OooSeg.stop (o : OooSeg) : UInt32 := o.seq + o.data.length.toUInt32

/-- Where `deliver_ooo` takes `rcv_nxt`. -/
def walkOoo : List OooSeg → UInt32 → UInt32
  | [], r => r
  | o :: rest, r =>
    if !seqLt r o.stop then walkOoo rest r
    else if seqLt r o.seq then r
    else walkOoo rest o.stop

theorem deliverOoo_rcvNxt (l : List OooSeg) : ∀ c : Ctx,
    (Ctx.deliverOoo l c).s.rcvNxt = walkOoo l c.s.rcvNxt := by
  induction l with
  | nil => exact fun _ => rfl
  | cons o rest ih =>
    intro c
    have hdeliver : Ctx.deliverOoo (o :: rest) c =
        if !seqLt c.s.rcvNxt o.stop then Ctx.deliverOoo rest (c.popOoo o rest)
        else if seqLt c.s.rcvNxt o.seq then c
        else Ctx.deliverOoo rest (((c.popOoo o rest).enqueueToHost
          (o.data.drop (c.s.rcvNxt - o.seq).toNat)).setRcvNxt o.stop) := rfl
    rw [hdeliver]
    unfold walkOoo
    by_cases hpast : (!seqLt c.s.rcvNxt o.stop) = true
    · rw [if_pos hpast, if_pos hpast]
      exact ih (c.popOoo o rest)
    · rw [if_neg hpast, if_neg hpast]
      by_cases hstart : seqLt c.s.rcvNxt o.seq = true
      · rw [if_pos hstart, if_pos hstart]
      · rw [if_neg hstart, if_neg hstart]
        exact ih (Ctx.setRcvNxt _ _)

theorem walk_advance {r : UInt32} {o : OooSeg} (hlen : o.data.length < 2 ^ 31)
    (hpast : seqLt r o.stop = true) (hstart : seqLt r o.seq = false) :
    ∃ n, 0 < n ∧ n ≤ o.data.length ∧ o.stop = r + n.toUInt32 := by
  have hlen' : o.data.length.toUInt32.toNat = o.data.length := Nat.mod_eq_of_lt (by omega)
  rw [seqLt_iff] at hpast
  have hstart' : ¬ 2 ^ 31 ≤ (r - o.seq).toNat := by
    rw [← seqLt_iff, hstart]
    simp
  refine ⟨(o.stop - r).toNat, ?_, ?_, ?_⟩
  · unfold OooSeg.stop at hpast ⊢
    rw [UInt32.toNat_sub] at hpast ⊢
    have := r.toNat_lt
    have := (o.seq + o.data.length.toUInt32).toNat_lt
    omega
  · unfold OooSeg.stop at hpast ⊢
    rw [UInt32.toNat_sub, UInt32.toNat_add, hlen'] at hpast ⊢
    rw [UInt32.toNat_sub] at hstart'
    have := r.toNat_lt
    have := o.seq.toNat_lt
    omega
  · rw [show (o.stop - r).toNat.toUInt32 = o.stop - r from UInt32.ofNat_toNat]
    grind

theorem walkOoo_advance (l : List OooSeg) : ∀ r : UInt32, totalBytes l < 2 ^ 31 →
    ∃ n, n ≤ totalBytes l ∧ walkOoo l r = r + n.toUInt32 := by
  induction l with
  | nil => exact fun r _ => ⟨0, Nat.zero_le _, by simp [walkOoo]⟩
  | cons o rest ih =>
    intro r hsum
    have htotal : totalBytes (o :: rest) = o.data.length + totalBytes rest := by simp [totalBytes]
    unfold walkOoo
    by_cases hpast : seqLt r o.stop = true
    · rw [if_neg (by simp [hpast])]
      by_cases hstart : seqLt r o.seq = true
      · rw [if_pos hstart]
        exact ⟨0, Nat.zero_le _, by simp⟩
      · rw [if_neg hstart]
        obtain ⟨n, -, hn, hstop⟩ := walk_advance (by omega) hpast (by simpa using hstart)
        obtain ⟨m, hm, hwalk⟩ := ih o.stop (by omega)
        refine ⟨n + m, by omega, ?_⟩
        rw [hwalk, hstop, UInt32.add_assoc]
        congr 1
        exact (UInt32.ofNat_add n m).symm
    · rw [if_pos (by simpa using hpast)]
      obtain ⟨m, hm, hwalk⟩ := ih r (by omega)
      exact ⟨m, by omega, hwalk⟩

/-- The first stored segment that goes on past `r`, if any, starts after it. -/
def gapAt (l : List OooSeg) (r : UInt32) : Bool :=
  (l.find? fun o => seqLt r o.stop).all fun o => seqLt r o.seq

theorem walkOoo_eq_self (l : List OooSeg) : ∀ r : UInt32, totalBytes l < 2 ^ 31 →
    (walkOoo l r = r ↔ gapAt l r = true) := by
  induction l with
  | nil => exact fun r _ => ⟨fun _ => rfl, fun _ => rfl⟩
  | cons o rest ih =>
    intro r hsum
    have htotal : totalBytes (o :: rest) = o.data.length + totalBytes rest := by simp [totalBytes]
    unfold walkOoo gapAt
    by_cases hpast : seqLt r o.stop = true
    · rw [if_neg (by simp [hpast])]
      simp only [List.find?_cons, hpast]
      by_cases hstart : seqLt r o.seq = true
      · rw [if_pos hstart]
        simp [hstart]
      · rw [if_neg hstart]
        obtain ⟨n, hpos, hn, hstop⟩ := walk_advance (by omega) hpast (by simpa using hstart)
        obtain ⟨m, hm, hwalk⟩ := walkOoo_advance rest o.stop (by omega)
        have hmoved : walkOoo rest o.stop ≠ r := by
          intro heq
          rw [hwalk, hstop, UInt32.add_assoc] at heq
          have hzero : n.toUInt32 + m.toUInt32 = 0 := by grind
          have hnat := congrArg UInt32.toNat hzero
          rw [UInt32.toNat_add] at hnat
          simp only [Nat.toUInt32, UInt32.toNat_ofNat', UInt32.toNat_zero] at hnat
          omega
        simp [hmoved, hstart]
    · rw [if_pos (by simpa using hpast)]
      simp only [List.find?_cons, eq_false_of_ne_true hpast]
      exact ih r (by omega)

theorem seqLt_self (a : UInt32) : seqLt a a = false := by
  rw [← Bool.not_eq_true, seqLt_iff]
  simp

/-- The bytes before a segment's FIN are all there once its payload is: they were received before,
or the segment starts with received bytes and ends where nothing stored goes on. -/
def TcpSession.finOverlapped (s : TcpSession) (seq : UInt32) (payload : Bytes) : Bool :=
  let stop := seq + payload.length.toUInt32
  !payload.isEmpty && (stop == s.rcvNxt ||
    seqLt seq s.rcvNxt && seqLt s.rcvNxt stop && gapAt s.ooo stop)

theorem acceptData_rcvNxt (c : Ctx) (seq : UInt32) (data : Bytes) :
    (c.acceptData seq data).s.rcvNxt =
      if seq == c.s.rcvNxt then walkOoo c.s.ooo (c.s.rcvNxt + data.length.toUInt32)
      else c.s.rcvNxt := by
  have hintake := enqueueToHost_intake c data
  have hrcv : (c.enqueueToHost data).s.rcvNxt = c.s.rcvNxt := congrArg Intake.rcvNxt hintake
  have hooo : (c.enqueueToHost data).s.ooo = c.s.ooo := congrArg Intake.ooo hintake
  unfold Ctx.acceptData
  simp only
  split
  · rw [deliverOoo_rcvNxt]
    show walkOoo (c.enqueueToHost data).s.ooo
      ((c.enqueueToHost data).s.rcvNxt + data.length.toUInt32) = _
    rw [hrcv, hooo]
  · unfold Ctx.storeOoo
    simp only
    split
    · rfl
    · split
      · rfl
      · split
        · rfl
        · split <;> rfl

/-- Where `handle_data_in` leaves `rcv_nxt`: where the stored segments lead from the end of new
in-order data, and otherwise where it was. -/
theorem handleDataIn_rcvNxt (c : Ctx) {seq : UInt32} {data : Bytes} (hne : data ≠ [])
    (hlen : data.length < 2 ^ 16) :
    (c.handleDataIn seq data).s.rcvNxt =
      if seqLt c.s.rcvNxt (seq + data.length.toUInt32) ∧
          (seqLt seq c.s.rcvNxt ∨ seq = c.s.rcvNxt) then
        walkOoo c.s.ooo (seq + data.length.toUInt32)
      else c.s.rcvNxt := by
  have hlen' : data.length.toUInt32.toNat = data.length := Nat.mod_eq_of_lt (by omega)
  have hpos := List.length_pos_of_ne_nil hne
  unfold Ctx.handleDataIn
  simp only
  rw [if_neg (by simpa using hne)]
  by_cases hnew : seqLt c.s.rcvNxt (seq + data.length.toUInt32) = true
  · rw [if_neg (by simp [hnew])]
    by_cases hold : seqLt seq c.s.rcvNxt = true
    · rw [if_pos hold]
      -- The new bytes start inside the segment.
      have hskip : (c.s.rcvNxt - seq).toNat < data.length := by
        rw [seqLt_iff] at hnew hold
        rw [UInt32.toNat_sub, UInt32.toNat_add, hlen'] at hnew
        rw [UInt32.toNat_sub] at hold ⊢
        have := c.s.rcvNxt.toNat_lt
        have := seq.toNat_lt
        omega
      have hstart : seq + (c.s.rcvNxt - seq).toNat.toUInt32 = c.s.rcvNxt := by
        rw [show (c.s.rcvNxt - seq).toNat.toUInt32 = c.s.rcvNxt - seq from UInt32.ofNat_toNat]
        grind
      have hstop : c.s.rcvNxt + (data.length - (c.s.rcvNxt - seq).toNat).toUInt32 =
          seq + data.length.toUInt32 := by
        apply UInt32.toNat_inj.mp
        have hrest : (data.length - (c.s.rcvNxt - seq).toNat).toUInt32.toNat =
          data.length - (c.s.rcvNxt - seq).toNat := Nat.mod_eq_of_lt (by omega)
        rw [UInt32.toNat_add, UInt32.toNat_add, hrest, hlen']
        rw [UInt32.toNat_sub] at hskip ⊢
        have := c.s.rcvNxt.toNat_lt
        have := seq.toNat_lt
        omega
      rw [if_neg (Nat.not_le.mpr hskip), acceptData_rcvNxt, if_pos (beq_iff_eq.mpr hstart),
        List.length_drop, hstop, if_pos ⟨hnew, .inl hold⟩]
    · rw [if_neg hold, acceptData_rcvNxt]
      by_cases hseq : seq = c.s.rcvNxt
      · rw [if_pos (by simpa using hseq), if_pos ⟨hnew, .inr hseq⟩, hseq]
      · rw [if_neg (by simpa using hseq), if_neg (by simp [hold, hseq])]
  · rw [if_pos (by simpa using hnew), if_neg (fun h => hnew h.1)]

theorem emitAck_rcvNxt (c : Ctx) : c.emitAck.s.rcvNxt = c.s.rcvNxt := by
  have hcore := emitAck_core c
  generalize c.emitAck = c₁ at hcore ⊢
  exact congrArg (fun x : Core => x.recv.rcvNxt) hcore

theorem takePayload_fin_next (c : Ctx) {seq : UInt32} {payload : Bytes}
    (hlen : payload.length < 2 ^ 16) (hooo : totalBytes c.s.ooo < 2 ^ 31) :
    ((c.takePayload seq payload).s.rcvNxt = seq + payload.length.toUInt32 → seq = c.s.rcvNxt) ↔
      c.s.finOverlapped seq payload = false := by
  unfold Ctx.takePayload TcpSession.finOverlapped
  simp only
  by_cases hne : payload = []
  · subst hne
    simp only [List.isEmpty_nil, if_true, Bool.not_true, Bool.false_and, iff_true]
    intro h
    rw [h]
    simp
  · have hlen' : payload.length.toUInt32.toNat = payload.length := Nat.mod_eq_of_lt (by omega)
    have hpos := List.length_pos_of_ne_nil hne
    rw [if_neg (by simpa using hne)]
    have hack := emitAck_rcvNxt (c.handleDataIn seq payload)
    have hempty : payload.isEmpty = false := by simpa using hne
    rw [hack, handleDataIn_rcvNxt c hne hlen, hempty]
    have hmoved : seq + payload.length.toUInt32 ≠ seq := by
      intro heq
      have hnat := congrArg UInt32.toNat heq
      rw [UInt32.toNat_add, hlen'] at hnat
      have := seq.toNat_lt
      omega
    have hwalk := walkOoo_eq_self c.s.ooo (seq + payload.length.toUInt32) hooo
    generalize seq + payload.length.toUInt32 = stop at hmoved hwalk ⊢
    generalize c.s.rcvNxt = r
    by_cases hseq : seq = r
    · subst hseq
      simp [hmoved, seqLt_self]
    · by_cases hnew : seqLt r stop = true
      · have hstop : stop ≠ r := by
          rintro rfl
          simp [seqLt_self] at hnew
        by_cases hold : seqLt seq r = true
        · simp [hseq, hstop, hold, hnew, hwalk]
        · simp [hseq, hstop, hstop.symm, eq_false_of_ne_true hold, hnew]
      · have hiff : ¬ r = stop ↔ ¬ stop = r := ne_comm
        simpa [hseq, eq_false_of_ne_true hnew] using hiff

/-! ## The out-of-order store -/

/-- The store is counted right and within its cap. -/
structure Tallied (s : TcpSession) : Prop where
  tally : s.oooBytes = totalBytes s.ooo
  cap : s.oooBytes ≤ maxOooBytes

theorem Tallied.congr {s s' : TcpSession} (h : Tallied s) (hooo : s'.ooo = s.ooo)
    (hbytes : s'.oooBytes = s.oooBytes) : Tallied s' :=
  ⟨by rw [hooo, hbytes, h.tally], by rw [hbytes]; exact h.cap⟩

theorem Tallied.intake {c c' : Ctx} (h : Tallied c.s) (hooo : c'.intake.ooo = c.intake.ooo)
    (hbytes : c'.intake.oooBytes = c.intake.oooBytes) : Tallied c'.s := h.congr hooo hbytes

theorem enqueueToHost_tallied {c : Ctx} (h : Tallied c.s) (data : Bytes) :
    Tallied (c.enqueueToHost data).s :=
  h.intake (by rw [enqueueToHost_intake]) (by rw [enqueueToHost_intake])

theorem deliverOoo_tallied (l : List OooSeg) : ∀ {c : Ctx}, c.s.ooo = l → Tallied c.s →
    Tallied (Ctx.deliverOoo l c).s := by
  induction l with
  | nil => exact fun _ h => h
  | cons head rest ih =>
    intro c hooo h
    have hpop : Tallied (c.popOoo head rest).s := by
      have htally := h.tally
      have hcap := h.cap
      rw [hooo] at htally
      simp only [totalBytes, List.map_cons, List.sum_cons] at htally
      refine ⟨?_, ?_⟩
      · show c.s.oooBytes - head.data.length = totalBytes rest
        unfold totalBytes
        omega
      · show c.s.oooBytes - head.data.length ≤ maxOooBytes
        omega
    unfold Ctx.deliverOoo
    simp only
    split
    · exact ih rfl hpop
    · split
      · exact h
      · generalize (c.s.rcvNxt - head.seq).toNat = skip
        have henq := enqueueToHost_tallied hpop (head.data.drop skip)
        have hrest : ((c.popOoo head rest).enqueueToHost (head.data.drop skip)).s.ooo = rest :=
          enqueueToHost_ooo _ _
        exact ih (c := Ctx.setRcvNxt _ _) hrest (henq.congr rfl rfl)

theorem storeOoo_tallied {c : Ctx} (h : Tallied c.s) (seq : UInt32) (data : Bytes) :
    Tallied (c.storeOoo seq data).s := by
  unfold Ctx.storeOoo
  simp only
  split
  · exact h
  · split
    · exact h
    · rename_i hroom
      split
      · exact h
      · split
        · exact h
        · refine ⟨?_, Nat.not_lt.mp hroom⟩
          rw [totalBytes_insert, List.take_append_drop, ← h.tally]

theorem acceptData_tallied {c : Ctx} (h : Tallied c.s) (seq : UInt32) (data : Bytes) :
    Tallied (c.acceptData seq data).s := by
  unfold Ctx.acceptData
  simp only
  split
  · exact deliverOoo_tallied _ rfl ((enqueueToHost_tallied h data).congr rfl rfl)
  · exact storeOoo_tallied h seq data

theorem handleDataIn_tallied {c : Ctx} (h : Tallied c.s) (seq : UInt32) (data : Bytes) :
    Tallied (c.handleDataIn seq data).s := by
  unfold Ctx.handleDataIn
  simp only
  split
  · exact h
  · split
    · exact h
    · split
      · split
        · exact h
        · exact acceptData_tallied h _ _
      · exact acceptData_tallied h seq data

theorem Tallied.path {c c' : Ctx} (h : Tallied c.s) (hp : Path c.view c'.view) : Tallied c'.s := by
  obtain ⟨r, hr⟩ := hp.recv
  have hooo : c'.view.recv.ooo = c.view.recv.ooo := by rw [hr]
  have hbytes : c'.view.recv.oooBytes = c.view.recv.oooBytes := by rw [hr]
  exact h.congr hooo hbytes

theorem tryDrainToHost_tallied {c : Ctx} (h : Tallied c.s) : Tallied c.tryDrainToHost.s :=
  h.intake (by rw [tryDrainToHost_intake]) (by rw [tryDrainToHost_intake])

theorem Tallied.moves {w : Bool} {c c' : Ctx} (h : Tallied c.s) (hm : Moves w c c') :
    Tallied c'.s := by
  induction hm with
  | refl => exact h
  | @tail c₁ _ _ hmove ih =>
    cases hmove with
    | path hpath => exact ih.path hpath
    | drain => exact tryDrainToHost_tallied ih
    | wake _ => exact tryDrainToHost_tallied (c := c₁.setWritable) (ih.congr rfl rfl)

theorem Tallied.ending {final : Prop} {c c' : Ctx} (h : Tallied c.s) (he : Ending final c c') :
    Tallied c'.s :=
  h.congr (congrArg RecvVars.ooo he.recv) (congrArg RecvVars.oooBytes he.recv)

theorem Outcome.tallied {c c' : Ctx} {ev : Event} (h : Outcome c ev c') (hc : Tallied c.s) :
    Tallied c'.s := by
  cases h with
  | @segment seg _ _ _ hwork hend =>
    obtain ⟨c₁, c₂, hpre, htaken, hmoves⟩ := hwork
    have hc₁ := hc.path hpre.path
    cases htaken with
    | skip => exact (hc₁.moves hmoves).ending hend
    | data _ _ =>
      have hdata := handleDataIn_tallied hc₁ (TcpHeader.seq seg) (seg.drop (TcpHeader.dataOff seg))
      exact (hdata.moves ((emitAck_moves _).trans hmoves)).ending hend
  | host hmoves hend => exact (hc.moves hmoves).ending hend
  | tick hpath hend => exact (hc.path hpath).ending hend
  | windowUpdate hpath => exact hc.path hpath

theorem Reachable.tallied {key : FlowKey} {c : Ctx} (h : Reachable key c) : Tallied c.s := by
  obtain ⟨c₀, inputs, h₀, rfl⟩ := h
  refine run_induction (P := fun c => Tallied c.s) (Q := fun _ _ => True) ?_
    (fun _ _ _ hout _ hc => hout.tallied (hc.congr rfl rfl)) (each_const.mpr fun _ _ => trivial)
  have hs := h₀.started
  have hrecv : c₀.view.recv.ooo = [] ∧ c₀.view.recv.oooBytes = 0 := by
    generalize c₀.view = v at hs ⊢
    cases hs <;> exact ⟨rfl, rfl⟩
  have hnew : Tallied (.new key) := ⟨rfl, Nat.zero_le _⟩
  exact hnew.congr hrecv.1 hrecv.2

/-! ## What follows the payload -/

/-- The session has gone on from `c` without touching `rcv_nxt`. -/
structure Later (c c' : Ctx) : Prop where
  trace : c.io.trace <+: c'.io.trace
  rcvNxt : c'.s.rcvNxt = c.s.rcvNxt

theorem Later.refl (c : Ctx) : Later c c := ⟨List.prefix_refl _, rfl⟩

theorem Later.trans {c₁ c₂ c₃ : Ctx} (h : Later c₁ c₂) (h' : Later c₂ c₃) : Later c₁ c₃ :=
  ⟨h.trace.trans h'.trace, h'.rcvNxt.trans h.rcvNxt⟩

theorem Later.of_view {c c' : Ctx} (h : c'.view = c.view) : Later c c' := by
  refine ⟨?_, congrArg (fun v : View => v.recv.rcvNxt) h⟩
  rw [show c'.io.trace = c.io.trace from congrArg View.trace h]

theorem Later.of_send {c c' : Ctx} (h : SendPath c.view c'.view) : Later c c' := by
  refine ⟨?_, congrArg RecvVars.rcvNxt h.frame.recv⟩
  show c.view.trace <+: c'.view.trace
  generalize c'.view = v at h ⊢
  induction h with
  | refl => exact List.prefix_refl _
  | tail _ hstep ih =>
    obtain ⟨acts, hacts, -⟩ := hstep.adds
    rw [hacts]
    exact ih.trans (List.prefix_append _ _)

/-- A drain keeps the state unless a write fails. -/
def DrainKept (x y : Obs) : Prop :=
  y.s.state = x.s.state ∨ y.s.state = .closed ∧ .writeErr ∈ y.trace.drop x.trace.length

theorem DrainPath.later {x y : Obs} (h : DrainPath x y) :
    x.trace <+: y.trace ∧ y.s.rcvNxt = x.s.rcvNxt ∧ y.s.sentFin = x.s.sentFin ∧ DrainKept x y := by
  induction h with
  | refl => exact ⟨List.prefix_refl _, rfl, rfl, .inl rfl⟩
  | @tail y z _ hstep ih =>
    obtain ⟨⟨acts, hpre⟩, hrcv, hfin, hkept⟩ := ih
    obtain ⟨more, hmore, -⟩ := hstep.adds
    have hframe : z.s.rcvNxt = y.s.rcvNxt ∧ z.s.sentFin = y.s.sentFin := by
      cases hstep <;> exact ⟨rfl, rfl⟩
    have htrace : z.trace = x.trace ++ (acts ++ more) := by
      rw [hmore, ← hpre, List.append_assoc]
    refine ⟨⟨acts ++ more, htrace.symm⟩, hframe.1.trans hrcv, hframe.2.trans hfin, ?_⟩
    have hkeep : z.s.state = y.s.state → DrainKept x z := by
      intro hstate
      unfold DrainKept at hkept ⊢
      rw [hstate, htrace, List.drop_left]
      rw [← hpre, List.drop_left] at hkept
      exact hkept.imp id fun hk => ⟨hk.1, List.mem_append_left _ hk.2⟩
    cases hstep with
    | fail rst _ =>
      refine .inr ⟨rfl, ?_⟩
      show _ ∈ List.drop _ ((y.trace ++ .writeErr :: rst) ++ _)
      rw [← hpre, List.append_assoc, List.append_assoc, List.drop_left]
      simp
    | _ => exact hkeep rfl

theorem shutdownIfDrained_later (c : Ctx) : Later c c.shutdownIfDrained ∧
    c.shutdownIfDrained.s.state = c.s.state ∧ c.shutdownIfDrained.s.sentFin = c.s.sentFin := by
  unfold Ctx.shutdownIfDrained
  split
  · exact ⟨⟨List.prefix_append _ _, rfl⟩, rfl, rfl⟩
  · exact ⟨.refl c, rfl, rfl⟩

theorem enterTimeWait_later (c : Ctx) (now : UInt32) : Later c (c.enterTimeWait now) := by
  have hobs := closeHostSocket_obs (c.toTimeWait now)
  refine ⟨?_, congrArg (fun x : Obs => x.s.rcvNxt) hobs⟩
  have htrace : (c.enterTimeWait now).io.trace = c.io.trace ++ dropActs (c.toTimeWait now).s :=
    congrArg Obs.trace hobs
  rw [htrace]
  exact List.prefix_append _ _

theorem sendFin_later (c : Ctx) : Later c c.sendFin ∧ c.sendFin.s.sentFin = true ∧
    c.sendFin.s.state = if c.s.state == .closeWait then .lastAck else .finWait1 := by
  obtain ⟨s, b, -, -, hem⟩ :=
    emitSegment_emitted c.noteFinSent .fin (TCP_FIN ||| TCP_ACK) c.s.sndNxt [] true []
  have hview := advanceFin_view
    (c.noteFinSent.emitSegment .fin (TCP_FIN ||| TCP_ACK) c.s.sndNxt [] true []).2
  have hstart : c.noteFinSent.view = { c.view with send.sentFin := true } := rfl
  unfold Ctx.sendFin
  generalize c.noteFinSent.emitSegment .fin (TCP_FIN ||| TCP_ACK) c.s.sndNxt [] true [] = r
    at hem hview ⊢
  obtain ⟨ok, c₁⟩ := r
  simp only at hem hview ⊢
  have hfacts : c.view.trace <+: c₁.view.trace ∧ c₁.view.recv = c.view.recv ∧
      c₁.view.send.sentFin = true ∧ c₁.view.state = c.view.state := by
    generalize c₁.view = v at hem
    cases hem with
    | unbuilt _ => exact ⟨List.prefix_refl _, rfl, rfl, rfl⟩
    | refused _ => exact ⟨List.prefix_append _ _, rfl, rfl, rfl⟩
    | passed _ hr => cases hr
    | recorded d _ _ =>
      refine ⟨?_, rfl, rfl, rfl⟩
      exact (List.prefix_append _ _).trans (List.prefix_append _ _)
  obtain ⟨htrace, hrecv, hfin, hstate⟩ := hfacts
  generalize c₁.advanceFin = c₂ at hview ⊢
  refine ⟨⟨?_, ?_⟩, ?_, ?_⟩
  · show c.view.trace <+: c₂.view.trace
    rw [hview]
    exact htrace
  · show c₂.view.recv.rcvNxt = c.view.recv.rcvNxt
    rw [hview, ← hrecv]
  · show c₂.view.send.sentFin = true
    rw [hview]
    exact hfin
  · show c₂.view.state = if c.view.state == .closeWait then .lastAck else .finWait1
    rw [hview, ← hstate]

theorem trySegmentAndEmit_later (c : Ctx) : Later c c.trySegmentAndEmit ∧
    (c.trySegmentAndEmit.s.state = c.s.state ∨
      c.s.sentFin = false ∧ c.trySegmentAndEmit.s.sentFin = true ∧ Ctx.canFin c.s = true ∧
        c.trySegmentAndEmit.s.state = if c.s.state == .closeWait then .lastAck else .finWait1) := by
  have hloop := segmentLoop_path c.s.pending c
  have hl := Later.of_send hloop
  have hstate : (Ctx.segmentLoop c.s.pending c).s.state = c.s.state := hloop.frame.state
  have hfin : (Ctx.segmentLoop c.s.pending c).s.sentFin = c.s.sentFin := hloop.frame.sentFin
  unfold Ctx.trySegmentAndEmit
  generalize Ctx.segmentLoop c.s.pending c = c₁ at hl hstate hfin ⊢
  have hr : Later c₁ c₁.resumeReads ∧ c₁.resumeReads.s.state = c₁.s.state ∧
      c₁.resumeReads.s.sentFin = c₁.s.sentFin := by
    unfold Ctx.resumeReads
    split <;> exact ⟨⟨List.prefix_refl _, rfl⟩, rfl, rfl⟩
  generalize c₁.resumeReads = c₂ at hr ⊢
  have hl₂ := hl.trans hr.1
  have hstate₂ := hr.2.1.trans hstate
  have hfin₂ := hr.2.2.trans hfin
  have hclear : Later c₂ { c₂ with s.toClient := [], s.toClientOff := 0 } :=
    ⟨List.prefix_refl _, rfl⟩
  have hstate₃ : ({ c₂ with s.toClient := [], s.toClientOff := 0 } : Ctx).s.state = c.s.state :=
    hstate₂
  unfold Ctx.finishToClient
  simp only
  generalize ({ c₂ with s.toClient := [], s.toClientOff := 0 } : Ctx) = c₃
    at hclear hstate₃ ⊢
  split
  · split
    · rename_i hcan
      simp only [Bool.and_eq_true, Bool.not_eq_true'] at hcan
      obtain ⟨hsend, hsent, hst⟩ := sendFin_later c₃
      generalize c₃.sendFin = c₄ at hsend hsent hst ⊢
      refine ⟨(hl₂.trans hclear).trans hsend, .inr ⟨?_, hsent, ?_, ?_⟩⟩
      · rw [← hfin₂]
        exact hcan.1.2
      · have hcf : (c₂.s.state == .established || c₂.s.state == .closeWait) = true := hcan.2
        rwa [hstate₂] at hcf
      · rw [hst, hstate₃]
    · exact ⟨hl₂.trans hclear, .inl hstate₃⟩
  · exact ⟨hl₂, .inl hstate₂⟩

/-! ## Taking the FIN -/

/-- The state a FIN leads to from `st`; `c₁` is the session after the payload. From `Established` the
step may go on: our FIN may follow at once, and a failing write to the host closes the session. -/
def ClosesTo : TcpState → Ctx → Ctx → Prop
  | .synRcvd, _, c' => c'.s.state = .closeWait
  | .established, c₁, c' => c'.s.state = .closeWait ∨
      (c'.s.state = .lastAck ∧ c₁.s.sentFin = false ∧ c'.s.sentFin = true) ∨
      (c'.s.state = .closed ∧ .writeErr ∈ newActs c₁ c')
  | .finWait1, c₁, c' => c'.s.state = if c₁.ourFinAcked then .timeWait else .closing
  | .finWait2, _, c' => c'.s.state = .timeWait
  | _, _, _ => False

/-- The next thing the session does after `c` is an ACK of `n`. -/
def AcksNext (c c' : Ctx) (n : UInt32) : Prop :=
  ∃ s b pkt ok, c.io.trace ++ [.emit .ack s b pkt ok] <+: c'.io.trace ∧ b.ack = n

/-- The FIN of a segment is consumed between `c₁` and `c'`. -/
structure Consumed (st : TcpState) (c₁ c' : Ctx) : Prop where
  rcvNxt : c'.s.rcvNxt = c₁.s.rcvNxt + 1
  closes : ClosesTo st c₁ c'
  acked : AcksNext c₁ c' (c₁.s.rcvNxt + 1)

theorem emitAck_acks (c : Ctx) (hkey : c.s.key.IsV4) : AcksNext c c.emitAck c.s.rcvNxt := by
  obtain ⟨s, b, -, hf, hem⟩ :=
    emitSegment_emitted c .ack TCP_ACK c.s.sndNxt [] false c.s.buildSackOption
  obtain ⟨pkt, hpkt⟩ := hf.builds hkey
    (by rw [buildSackOption_length]; split <;> omega)
    (by rw [buildSackOption_length, List.length_nil]; split <;> omega)
  have hack : b.ack = c.s.rcvNxt := by
    obtain ⟨-, ts, -, rfl⟩ := hf
    rfl
  have hem' : Emitted c .ack TCP_ACK c.s.sndNxt [] false c.s.buildSackOption s b
    (c.emitSegment .ack TCP_ACK c.s.sndNxt [] false c.s.buildSackOption).1 c.emitAck.view := hem
  unfold AcksNext
  generalize c.emitAck = c₁ at hem' ⊢
  have htrace : c₁.io.trace = c₁.view.trace := rfl
  rw [htrace]
  generalize c₁.view = v at hem'
  generalize (c.emitSegment .ack TCP_ACK c.s.sndNxt [] false c.s.buildSackOption).1 = ok at hem'
  cases hem' with
  | unbuilt hb => rw [hpkt] at hb; cases hb
  | refused _ => exact ⟨s, b, _, false, List.prefix_refl _, hack⟩
  | passed _ _ => exact ⟨s, b, _, true, List.prefix_refl _, hack⟩
  | recorded _ _ hr => cases hr

theorem emitAck_later (c : Ctx) : Later c c.emitAck := by
  have hpath := emitAck_path c (.inl rfl)
  generalize c.emitAck = c₁ at hpath ⊢
  exact Later.of_send hpath.send

theorem AcksNext.later {c c₁ c₂ : Ctx} {n : UInt32} (h : AcksNext c c₁ n) (hl : Later c₁ c₂) :
    AcksNext c c₂ n := by
  obtain ⟨s, b, pkt, ok, htrace, hack⟩ := h
  exact ⟨s, b, pkt, ok, htrace.trans hl.trace, hack⟩

theorem nowMs_later (c : Ctx) : Later c c.nowMs.2 := Later.of_view rfl

theorem refreshZwp_later (c : Ctx) : Later c c.refreshZwp := Later.of_view (refreshZwp_view c)

theorem refreshZwp_state (c : Ctx) : c.refreshZwp.s.state = c.s.state :=
  congrArg (fun v : View => v.state) (refreshZwp_view c)

theorem refreshZwp_sentFin (c : Ctx) : c.refreshZwp.s.sentFin = c.s.sentFin :=
  congrArg (fun v : View => v.send.sentFin) (refreshZwp_view c)

/-- `c₂` is `c` with the FIN counted and acknowledged, in the state `st`. -/
structure FinTaken (st : TcpState) (c c₂ : Ctx) : Prop where
  rcvNxt : c₂.s.rcvNxt = c.s.rcvNxt + 1
  state : c₂.s.state = st
  sentFin : c₂.s.sentFin = c.s.sentFin
  trace : c.io.trace <+: c₂.io.trace
  acked : AcksNext c c₂ (c.s.rcvNxt + 1)

theorem finTaken (c : Ctx) (st : TcpState) (hkey : c.s.key.IsV4) :
    FinTaken st c ({ c with s.rcvNxt := c.s.rcvNxt + 1, s.state := st } : Ctx).emitAck := by
  obtain ⟨c₁, hc₁⟩ : ∃ c₁, ({ c with s.rcvNxt := c.s.rcvNxt + 1, s.state := st } : Ctx) = c₁ :=
    ⟨_, rfl⟩
  have hrcv : c₁.s.rcvNxt = c.s.rcvNxt + 1 := by rw [← hc₁]
  have hst : c₁.s.state = st := by rw [← hc₁]
  have hfin : c₁.s.sentFin = c.s.sentFin := by rw [← hc₁]
  have htrace : c₁.io.trace = c.io.trace := by rw [← hc₁]
  have hkey₁ : c₁.s.key.IsV4 := by rw [← hc₁]; exact hkey
  rw [hc₁]
  have hcore := emitAck_core c₁
  have hl := emitAck_later c₁
  have hack := emitAck_acks c₁ hkey₁
  generalize c₁.emitAck = c₂ at hcore hl hack ⊢
  refine ⟨hl.rcvNxt.trans hrcv, (congrArg Core.state hcore).trans hst,
    (congrArg (fun x : Core => x.send.sentFin) hcore).trans hfin, htrace ▸ hl.trace, ?_⟩
  unfold AcksNext at hack ⊢
  rw [htrace, hrcv] at hack
  exact hack

theorem FinTaken.consumed {st st' : TcpState} {c c₂ c' : Ctx} (h : FinTaken st c c₂)
    (hl : Later c₂ c') (hcl : ClosesTo st' c c') : Consumed st' c c' :=
  ⟨hl.rcvNxt.trans h.rcvNxt, hcl, h.acked.later hl⟩

section Fin

variable {c : Ctx} {inOrder : Bool} {seq : UInt32} {payload : Bytes}

theorem synRcvdFin_spec (hkey : c.s.key.IsV4) :
    if c.finInOrder inOrder seq payload then
      Consumed .synRcvd c (c.synRcvdFin inOrder seq payload).refreshZwp
    else (c.synRcvdFin inOrder seq payload).refreshZwp.s.rcvNxt = c.s.rcvNxt := by
  have htaken := finTaken c .closeWait hkey
  unfold Ctx.synRcvdFin
  generalize Ctx.emitAck { c with s.rcvNxt := c.s.rcvNxt + 1, s.state := .closeWait } = c₂ at htaken ⊢
  split
  · exact htaken.consumed (refreshZwp_later c₂) ((refreshZwp_state c₂).trans htaken.state)
  · exact ((emitAck_later c).trans (refreshZwp_later _)).rcvNxt

theorem newActs_of_grows {c c₁ c₂ : Ctx} (h : c.io.trace <+: c₁.io.trace)
    (h' : c₁.io.trace <+: c₂.io.trace) {a : Action} (ha : a ∈ newActs c c₁ ∨ a ∈ newActs c₁ c₂) :
    a ∈ newActs c c₂ := by
  obtain ⟨acts, hacts⟩ := h
  obtain ⟨more, hmore⟩ := h'
  unfold newActs at ha ⊢
  rw [← hmore, ← hacts, List.append_assoc, List.drop_left]
  rw [← hmore, List.drop_left, ← hacts, List.drop_left] at ha
  exact List.mem_append.mpr ha

theorem establishedFin_spec (hkey : c.s.key.IsV4) :
    if c.finInOrder inOrder seq payload then
      Consumed .established c (c.establishedFin inOrder seq payload).trySegmentAndEmit.refreshZwp
    else (c.establishedFin inOrder seq payload).trySegmentAndEmit.refreshZwp.s.rcvNxt =
      c.s.rcvNxt := by
  have htaken := finTaken c .closeWait hkey
  unfold Ctx.establishedFin
  simp only
  generalize Ctx.emitAck { c with s.rcvNxt := c.s.rcvNxt + 1, s.state := .closeWait } = c₂ at htaken ⊢
  split
  · obtain ⟨htrace₃, hrcv₃, hfin₃, hkept⟩ := DrainPath.later (tryDrainToHost_drain c₂)
    have hl₃ : Later c₂ c₂.tryDrainToHost := ⟨htrace₃, hrcv₃⟩
    have hkept₃ : c₂.tryDrainToHost.s.state = c₂.s.state ∨
      c₂.tryDrainToHost.s.state = .closed ∧ .writeErr ∈ newActs c₂ c₂.tryDrainToHost := hkept
    have hfin₃' : c₂.tryDrainToHost.s.sentFin = c₂.s.sentFin := hfin₃
    generalize c₂.tryDrainToHost = c₃ at hl₃ hkept₃ hfin₃' ⊢
    obtain ⟨hl₄, hstate₄, hfin₄⟩ := shutdownIfDrained_later c₃
    generalize c₃.shutdownIfDrained = c₄ at hl₄ hstate₄ hfin₄ ⊢
    obtain ⟨hl₅, hstate₅⟩ := trySegmentAndEmit_later c₄
    generalize c₄.trySegmentAndEmit = c₅ at hl₅ hstate₅ ⊢
    have hl₆ := refreshZwp_later c₅
    have hst₆ := refreshZwp_state c₅
    have hfin₆ := refreshZwp_sentFin c₅
    generalize c₅.refreshZwp = c₆ at hl₆ hst₆ hfin₆ ⊢
    have hrest : Later c₃ c₆ := (hl₄.trans hl₅).trans hl₆
    refine htaken.consumed (hl₃.trans hrest) ?_
    have hfin : c₄.s.sentFin = c.s.sentFin := (hfin₄.trans hfin₃').trans htaken.sentFin
    rcases hkept₃ with hopen | ⟨hclosed, herr⟩
    · have hcw : c₄.s.state = .closeWait := (hstate₄.trans hopen).trans htaken.state
      rcases hstate₅ with hsame | ⟨hbefore, hafter, -, hlast⟩
      · exact .inl ((hst₆.trans hsame).trans hcw)
      · refine .inr (.inl ⟨?_, hfin ▸ hbefore, hfin₆.trans hafter⟩)
        rw [hst₆, hlast, hcw]
        rfl
    · have hcl : c₄.s.state = .closed := hstate₄.trans hclosed
      refine .inr (.inr ⟨?_, ?_⟩)
      · rcases hstate₅ with hsame | ⟨-, -, hcan, -⟩
        · exact (hst₆.trans hsame).trans hcl
        · rw [Ctx.canFin, hcl] at hcan
          cases hcan
      · exact newActs_of_grows htaken.trace (hl₃.trans hrest).trace
          (.inr (newActs_of_grows hl₃.trace hrest.trace (.inl herr)))
  · obtain ⟨hl₅, -⟩ := trySegmentAndEmit_later c.emitAck
    exact (((emitAck_later c).trans hl₅).trans (refreshZwp_later _)).rcvNxt

theorem finWait1Close_spec (hkey : c.s.key.IsV4) {flags : UInt8}
    (hflag : hasFlag flags TCP_FIN = true) :
    if c.finInOrder inOrder seq payload then
      Consumed .finWait1 c (c.finWait1Close flags inOrder seq payload).refreshZwp
    else (c.finWait1Close flags inOrder seq payload).refreshZwp.s.rcvNxt = c.s.rcvNxt := by
  have htaken := finTaken c c.s.state hkey
  unfold Ctx.finWait1Close
  simp only
  rw [if_pos hflag]
  generalize Ctx.emitAck { c with s.rcvNxt := c.s.rcvNxt + 1, s.state := c.s.state } = c₂
    at htaken ⊢
  split
  · split
    · rename_i hacked
      have hl := (nowMs_later c₂).trans (enterTimeWait_later c₂.nowMs.2 c₂.nowMs.1)
      have hst := enterTimeWait_state c₂.nowMs.2 c₂.nowMs.1
      generalize c₂.nowMs.2.enterTimeWait c₂.nowMs.1 = c₃ at hl hst ⊢
      refine htaken.consumed (hl.trans (refreshZwp_later c₃)) ?_
      show c₃.refreshZwp.s.state = if c.ourFinAcked then .timeWait else .closing
      rw [refreshZwp_state, hst, if_pos hacked]
    · rename_i hacked
      have hl : Later c₂ { c₂ with s.state := .closing } := ⟨List.prefix_refl _, rfl⟩
      have hst : ({ c₂ with s.state := .closing } : Ctx).s.state = .closing := rfl
      generalize ({ c₂ with s.state := .closing } : Ctx) = c₃ at hl hst ⊢
      refine htaken.consumed (hl.trans (refreshZwp_later c₃)) ?_
      show c₃.refreshZwp.s.state = if c.ourFinAcked then .timeWait else .closing
      rw [refreshZwp_state, hst, if_neg hacked]
  · exact (refreshZwp_later c).rcvNxt

theorem finWait2Close_spec (hkey : c.s.key.IsV4) {flags : UInt8}
    (hflag : hasFlag flags TCP_FIN = true) :
    if c.finInOrder inOrder seq payload then
      Consumed .finWait2 c (c.finWait2Close flags inOrder seq payload).refreshZwp
    else (c.finWait2Close flags inOrder seq payload).refreshZwp.s.rcvNxt = c.s.rcvNxt := by
  have htaken := finTaken c c.s.state hkey
  unfold Ctx.finWait2Close
  simp only [hflag, Bool.true_and]
  generalize Ctx.emitAck { c with s.rcvNxt := c.s.rcvNxt + 1, s.state := c.s.state } = c₂
    at htaken ⊢
  split
  · have hl := (nowMs_later c₂).trans (enterTimeWait_later c₂.nowMs.2 c₂.nowMs.1)
    have hst := enterTimeWait_state c₂.nowMs.2 c₂.nowMs.1
    generalize c₂.nowMs.2.enterTimeWait c₂.nowMs.1 = c₃ at hl hst ⊢
    exact htaken.consumed (hl.trans (refreshZwp_later c₃)) ((refreshZwp_state c₃).trans hst)
  · exact (refreshZwp_later c).rcvNxt

end Fin

/-! ## The handlers -/

namespace Ctx

/-- `process_syn_rcvd` up to the answer of `open_host_socket`. -/
def establish (c : Ctx) (ack : UInt32) (wnd : UInt16) : Bool × Ctx :=
  let (n, c) := c.nowMs
  let c := (c.onAck ack n).setSndWnd wnd
  ({ c with s.state := .established } : Ctx).openHostSocket

/-- The session when its handler comes to the payload of a segment. -/
def beforePayload (c : Ctx) (flags : UInt8) (ack : UInt32) (wnd : UInt16) : Ctx :=
  match c.s.state with
  | .synRcvd => (c.establish ack wnd).2
  | .finWait2 => c.setSndWnd wnd
  | _ => (c.ackIfFlagged flags ack).setSndWnd wnd

/-- The session when the payload is handled. -/
def afterPayload (c : Ctx) (flags : UInt8) (seq ack : UInt32) (wnd : UInt16) (payload : Bytes) : Ctx :=
  (c.beforePayload flags ack wnd).takePayload seq payload

end Ctx

/-- The payload of a segment is taken in this state; in `SynRcvd` if the segment completes the
handshake. -/
def TakesPayload (c : Ctx) (flags : UInt8) (ack : UInt32) (wnd : UInt16) : Prop :=
  c.s.state.takesData = true ∨ c.s.state = .synRcvd ∧ hasFlag flags TCP_ACK = true ∧
    ack = c.s.sndNxt ∧ (c.establish ack wnd).1 = true

theorem key_stable : Stable fun v => v.key.IsV4 where
  micro h hv := by
    cases h with
    | sender h => exact h.frame.key ▸ hv
    | _ => exact hv
  host h hx := by
    have hkey := h.frame.key
    show (Obs.s _).key.IsV4
    rw [hkey]
    exact hx
  wake _ hv := hv
  rst _ _ _ hx := hx
  closed _ hx := hx
  timeWait _ _ _ hv := hv

theorem Reachable.key_isV4 {key : FlowKey} {c : Ctx} (h : Reachable key c) : c.s.key.IsV4 := by
  obtain ⟨c₀, inputs, h₀, rfl⟩ := h
  have hkey : c₀.view.key.IsV4 := by
    have hv4 := h₀.1
    have hs := h₀.started
    generalize c₀.view = v at hs ⊢
    cases hs <;> exact hv4
  exact key_stable.run hkey inputs

theorem takePayload_key {c : Ctx} (h : c.s.key.IsV4) (seq : UInt32) (payload : Bytes) :
    (c.takePayload seq payload).s.key.IsV4 := by
  unfold Ctx.takePayload
  split
  · exact h
  · have hdata := key_stable.kept.hostPath (handleDataIn_path c seq payload) h
    have hdata' : (c.handleDataIn seq payload).s.key.IsV4 := hdata
    generalize c.handleDataIn seq payload = c₁ at hdata' ⊢
    have hcore := emitAck_core c₁
    generalize c₁.emitAck = c₂ at hcore ⊢
    rw [show c₂.s.key = c₁.s.key from congrArg Core.key hcore]
    exact hdata'

theorem establish_path (c : Ctx) (h : c.s.state = .synRcvd) (ack : UInt32) (wnd : UInt16) :
    Path c.view (c.establish ack wnd).2.view ∧
      (c.establish ack wnd).2.s.toRecvVars = c.s.toRecvVars := by
  have hack := (onAck_path c.nowMs.2 ack c.nowMs.1).path
  have hstate : (c.nowMs.2.onAck ack c.nowMs.1).s.state = .synRcvd := hack.frame.state.trans h
  unfold Ctx.establish
  simp only
  generalize c.nowMs.2.onAck ack c.nowMs.1 = c₁ at hack hstate ⊢
  have hwnd := setSndWnd_prelude (c := c) hack wnd
  obtain ⟨c₂, hc₂⟩ : ∃ c₂, ({ c₁.setSndWnd wnd with s.state := .established } : Ctx) = c₂ :=
    ⟨_, rfl⟩
  have hest : Path c.view c₂.view := by
    rw [← hc₂]
    exact hwnd.path.tail (.establish _ hstate)
  have hrecv : c₂.s.toRecvVars = c.s.toRecvVars := by
    rw [← hc₂]
    exact hwnd.recv
  rw [hc₂]
  have hopen := openHostSocket_path c₂ (by rw [← hc₂])
  exact ⟨hest.trans hopen.1, hopen.2.1.trans hrecv⟩

theorem beforePayload_path (c : Ctx) (flags : UInt8) (ack : UInt32) (wnd : UInt16) :
    Path c.view (c.beforePayload flags ack wnd).view ∧
      (c.beforePayload flags ack wnd).s.toRecvVars = c.s.toRecvVars := by
  have hack := setSndWnd_prelude (ackIfFlagged_path c flags ack).path wnd
  unfold Ctx.beforePayload
  split
  · rename_i h
    exact establish_path c h ack wnd
  · exact ⟨(@setSndWnd_prelude c c .refl wnd).path, rfl⟩
  · exact ⟨hack.path, hack.recv⟩

/-- The rule of the code: a FIN is consumed if its segment started at `rcv_nxt` and, after the
payload, ends there; else it is not counted. -/
theorem dispatchState_fin {c : Ctx} {flags : UInt8} {ack : UInt32} {wnd : UInt16}
    (hkey : c.s.key.IsV4) (hflag : hasFlag flags TCP_FIN = true)
    (htakes : TakesPayload c flags ack wnd) (seq : UInt32) (payload : Bytes) :
    if (c.afterPayload flags seq ack wnd payload).finInOrder (seq == c.s.rcvNxt) seq payload then
      Consumed c.s.state (c.afterPayload flags seq ack wnd payload)
        (c.dispatchState flags seq ack wnd payload)
    else (c.dispatchState flags seq ack wnd payload).s.rcvNxt =
      (c.afterPayload flags seq ack wnd payload).s.rcvNxt := by
  obtain ⟨hpath, hrecv⟩ := beforePayload_path c flags ack wnd
  have hrcv : c.s.rcvNxt = (c.beforePayload flags ack wnd).s.rcvNxt :=
    (congrArg RecvVars.rcvNxt hrecv).symm
  have hkey₁ := takePayload_key (key_stable.kept.path hpath hkey) seq payload
  unfold Ctx.afterPayload Ctx.dispatchState
  rw [hrcv]
  unfold Ctx.beforePayload at hkey₁ ⊢
  cases hstate : c.s.state with
  | synRcvd =>
    obtain hst | ⟨-, hackf, hack, hopen⟩ := htakes
    · rw [hstate] at hst
      cases hst
    · simp only [hstate] at hkey₁ ⊢
      have hproc : c.processSynRcvd flags seq ack wnd payload =
          (c.establish ack wnd).2.synRcvdOpened flags seq payload := by
        unfold Ctx.processSynRcvd
        rw [if_neg (by simp [hackf]), if_neg (by simp [hack])]
        show (if !(c.establish ack wnd).1 then _ else _) = _
        rw [hopen]
        rfl
      rw [hproc]
      unfold Ctx.synRcvdOpened
      simp only
      rw [if_pos hflag]
      exact synRcvdFin_spec hkey₁
  | established =>
    simp only [hstate] at hkey₁ ⊢
    unfold Ctx.processEstablished
    simp only
    rw [if_pos hflag]
    exact establishedFin_spec hkey₁
  | finWait1 =>
    simp only [hstate] at hkey₁ ⊢
    exact finWait1Close_spec hkey₁ hflag
  | finWait2 =>
    simp only [hstate] at hkey₁ ⊢
    exact finWait2Close_spec hkey₁ hflag
  | _ =>
    obtain hst | ⟨hst, -⟩ := htakes
    · rw [hstate] at hst
      cases hst
    · rw [hstate] at hst
      cases hst

/-! ## Any segmentation -/

/-- A segment with a FIN reaches a handler that takes payload. -/
structure FinArrives (c : Ctx) (seg : Bytes) (o : Oracle) : Prop where
  header : 20 ≤ TcpHeader.dataOff seg ∧ TcpHeader.dataOff seg ≤ seg.length
  fitsIp : seg.length ≤ 65535
  fin : hasFlag (TcpHeader.flags seg) TCP_FIN = true
  noRst : hasFlag (TcpHeader.flags seg) TCP_RST = false
  takes : TakesPayload
    ((c.load o).preprocess ((seg.take (TcpHeader.dataOff seg)).drop 20) (TcpHeader.seq seg))
    (TcpHeader.flags seg) (TcpHeader.ack seg) (TcpHeader.window seg)

/-- The session once it has handled the payload of `seg`. -/
def payloadHandled (c : Ctx) (seg : Bytes) (o : Oracle) : Ctx :=
  ((c.load o).preprocess ((seg.take (TcpHeader.dataOff seg)).drop 20) (TcpHeader.seq seg)).afterPayload
    (TcpHeader.flags seg) (TcpHeader.seq seg) (TcpHeader.ack seg) (TcpHeader.window seg)
    (seg.drop (TcpHeader.dataOff seg))

/-- If every byte before the FIN has been received, the segment's step consumes the FIN; else it does
not count it. -/
def FinBySequence (c : Ctx) (seg : Bytes) (o : Oracle) : Prop :=
  let c₁ := payloadHandled c seg o
  let c' := c.step ⟨.segment seg, o⟩
  let next := TcpHeader.seq seg + (seg.drop (TcpHeader.dataOff seg)).length.toUInt32
  (c₁.s.rcvNxt = next → Consumed c.s.state c₁ c') ∧
    (c₁.s.rcvNxt ≠ next → c'.s.rcvNxt = c₁.s.rcvNxt)

theorem onSegment_dispatch {c : Ctx} {seg : Bytes}
    (hhdr : 20 ≤ TcpHeader.dataOff seg ∧ TcpHeader.dataOff seg ≤ seg.length)
    (hrst : hasFlag (TcpHeader.flags seg) TCP_RST = false) (hopen : c.s.state ≠ .closed) :
    (c.onSegment seg).2 =
      (c.preprocess ((seg.take (TcpHeader.dataOff seg)).drop 20) (TcpHeader.seq seg)).dispatchState
        (TcpHeader.flags seg) (TcpHeader.seq seg) (TcpHeader.ack seg) (TcpHeader.window seg)
        (seg.drop (TcpHeader.dataOff seg)) := by
  have hstate : (c.preprocess ((seg.take (TcpHeader.dataOff seg)).drop 20)
      (TcpHeader.seq seg)).s.state = c.s.state :=
    congrArg (fun v : View => v.state) (preprocess_view c _ _)
  unfold Ctx.onSegment
  rw [if_neg (by omega)]
  simp only
  rw [if_neg (by simp; omega), hrst, if_neg (by decide), if_neg (by rw [hstate]; simpa using hopen)]

theorem dispatchState_fin_iff {c : Ctx} {flags : UInt8} {ack : UInt32} {wnd : UInt16}
    (hkey : c.s.key.IsV4) (htally : Tallied c.s) (hflag : hasFlag flags TCP_FIN = true)
    (htakes : TakesPayload c flags ack wnd) (seq : UInt32) {payload : Bytes}
    (hlen : payload.length < 2 ^ 16) :
    (((c.afterPayload flags seq ack wnd payload).s.rcvNxt = seq + payload.length.toUInt32 →
        Consumed c.s.state (c.afterPayload flags seq ack wnd payload)
          (c.dispatchState flags seq ack wnd payload)) ∧
      ((c.afterPayload flags seq ack wnd payload).s.rcvNxt ≠ seq + payload.length.toUInt32 →
        (c.dispatchState flags seq ack wnd payload).s.rcvNxt =
          (c.afterPayload flags seq ack wnd payload).s.rcvNxt)) ↔
      c.s.finOverlapped seq payload = false := by
  have hrule := dispatchState_fin hkey hflag htakes seq payload
  obtain ⟨-, hrecv⟩ := beforePayload_path c flags ack wnd
  have hcap := htally.cap
  have htotal : totalBytes (c.beforePayload flags ack wnd).s.ooo < 2 ^ 31 := by
    rw [congrArg RecvVars.ooo hrecv, ← htally.tally]
    unfold maxOooBytes at hcap
    omega
  have hover : (c.beforePayload flags ack wnd).s.finOverlapped seq payload =
      c.s.finOverlapped seq payload := by
    unfold TcpSession.finOverlapped
    rw [hrecv]
  have hiff := @takePayload_fin_next (c.beforePayload flags ack wnd) seq _ hlen htotal
  rw [hover, congrArg RecvVars.rcvNxt hrecv] at hiff
  rw [← hiff]
  show _ ↔ ((c.afterPayload flags seq ack wnd payload).s.rcvNxt = _ → _)
  generalize c.afterPayload flags seq ack wnd payload = c₁ at hrule ⊢
  generalize c.dispatchState flags seq ack wnd payload = c' at hrule ⊢
  unfold Ctx.finInOrder at hrule
  generalize seq + payload.length.toUInt32 = next at hrule ⊢
  by_cases hnext : c₁.s.rcvNxt = next
  · by_cases hseq : seq = c.s.rcvNxt
    · rw [if_pos (by simp [hseq, hnext])] at hrule
      exact ⟨fun _ _ => hseq, fun _ => ⟨fun _ => hrule, fun hne => absurd hnext hne⟩⟩
    · rw [if_neg (by simp [hseq])] at hrule
      constructor
      · intro hall
        -- A consumed FIN would have moved `rcv_nxt`.
        have hmoved := (hall.1 hnext).rcvNxt
        rw [hrule] at hmoved
        have hnat := congrArg UInt32.toNat hmoved
        rw [UInt32.toNat_add] at hnat
        have hone : (1 : UInt32).toNat = 1 := rfl
        have := c₁.s.rcvNxt.toNat_lt
        omega
      · exact fun hall => absurd (hall hnext) hseq
  · rw [if_neg (by simp [Ne.symm hnext])] at hrule
    exact ⟨fun _ hn => absurd hn hnext, fun _ => ⟨fun hn => absurd hn hnext, fun _ => hrule⟩⟩

/-- A FIN is taken by its place in the sequence, however the peer cuts its segments, unless the
segment repeats received data and its FIN comes next. -/
theorem fin_by_sequence_iff {key : FlowKey} {c : Ctx} (h : Reachable key c) {seg : Bytes} {o : Oracle}
    (harr : FinArrives c seg o) : FinBySequence c seg o ↔
      c.s.finOverlapped (TcpHeader.seq seg) (seg.drop (TcpHeader.dataOff seg)) = false := by
  obtain ⟨hhdr, hlen, hfin, hrst, htakes⟩ := harr
  have hview : ((c.load o).preprocess ((seg.take (TcpHeader.dataOff seg)).drop 20)
      (TcpHeader.seq seg)).view = c.view := preprocess_view (c.load o) _ _
  have hstep : c.s.state ≠ .closed → c.step ⟨.segment seg, o⟩ = _ := fun hopen =>
    (if_neg (by simpa using hopen)).trans (onSegment_dispatch (c := c.load o) hhdr hrst hopen)
  unfold FinBySequence payloadHandled
  generalize (c.load o).preprocess ((seg.take (TcpHeader.dataOff seg)).drop 20)
    (TcpHeader.seq seg) = c₀ at htakes hview hstep ⊢
  have hcore : c₀.s.core = c.s.core := congrArg View.toCore hview
  have hstate : c₀.s.state = c.s.state := congrArg Core.state hcore
  have hrecv : c₀.s.toRecvVars = c.s.toRecvVars := congrArg Core.recv hcore
  have hkey : c₀.s.key.IsV4 := by
    rw [show c₀.s.key = c.s.key from congrArg Core.key hcore]
    exact h.key_isV4
  have htally : Tallied c₀.s :=
    h.tallied.congr (congrArg RecvVars.ooo hrecv) (congrArg RecvVars.oooBytes hrecv)
  have hopen : c.s.state ≠ .closed := by
    intro hclosed
    unfold TakesPayload at htakes
    rw [hstate, hclosed] at htakes
    rcases htakes with htakes | ⟨htakes, -⟩ <;> cases htakes
  have hover : c₀.s.finOverlapped (TcpHeader.seq seg) (seg.drop (TcpHeader.dataOff seg)) =
      c.s.finOverlapped (TcpHeader.seq seg) (seg.drop (TcpHeader.dataOff seg)) := by
    unfold TcpSession.finOverlapped
    rw [hrecv]
  have hshort : (seg.drop (TcpHeader.dataOff seg)).length < 2 ^ 16 := by
    rw [List.length_drop]
    omega
  rw [hstep hopen, ← hover, ← hstate]
  exact dispatchState_fin_iff hkey htally hfin htakes (TcpHeader.seq seg) hshort

/-- An established session. -/
def finSample : Ctx := (sampleStart 1000 []).run [sampleAck 1000]

theorem finSample_reachable (inputs : List Input) : Reachable sampleKey (finSample.run inputs) :=
  ⟨_, sampleAck 1000 :: inputs, sampleStart_accepted 1000 [] (by decide), rfl⟩

/-- The byte `7` at 101, and the segment that repeats it with a FIN. -/
def finByte : Input := ⟨.segment (clientSegment sampleKey TCP_ACK 101 1 1000 [] [7]), {}⟩

def finRepeat : Bytes := clientSegment sampleKey (TCP_ACK ||| TCP_FIN) 101 1 1000 [] [7]

theorem fin_by_sequence_in_order : FinBySequence finSample finRepeat {} :=
  (fin_by_sequence_iff (finSample_reachable [])
    ⟨by decide, by decide, by decide, by decide, .inl (by decide +kernel)⟩).mpr (by decide +kernel)

theorem repeated_segment_loses_fin :
    ¬ ∀ (key : FlowKey) (c : Ctx) (seg : Bytes) (o : Oracle), Reachable key c → FinArrives c seg o →
      FinBySequence c seg o := by
  intro hall
  have hrule := hall sampleKey _ finRepeat {} (finSample_reachable [finByte])
    ⟨by decide, by decide, by decide, by decide, .inl (by decide +kernel)⟩
  have hmoved := (hrule.1 (by decide +kernel)).rcvNxt
  exact absurd hmoved (by decide +kernel)

end BaleVpn.Tcp
