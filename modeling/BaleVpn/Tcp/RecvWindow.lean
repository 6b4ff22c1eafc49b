import BaleVpn.Net.RoundTrip
import BaleVpn.Tcp.Reassembly

/-!
# The receive window

`emit_segment` advertises what `rcv_wnd` leaves beside the buffered bytes, but no path that accepts
data looks at it. What bounds the buffers is the client: they grow by at most the payload of a
segment, and only when a segment brings some.
-/

namespace BaleVpn.Tcp

open Net Lib Relation

/-! ## Accounts -/

/-- The out-of-order queue is counted right, and at most `n` bytes are buffered towards the host. -/
structure Buffered (n : ℕ) (s : TcpSession) : Prop where
  tally : s.oooBytes = totalBytes s.ooo
  le : s.buffered ≤ n

theorem RecvVars.push_length (x : RecvVars) (data : Bytes) :
    (x.push data).toHost.length - (x.push data).toHostOff ≤
      (x.toHost.length - x.toHostOff) + data.length := by
  unfold RecvVars.push
  split
  · simp only [List.length_append, List.length_drop]
    omega
  · simp only [List.length_append]
    omega

theorem DrainStep.buffered {n : ℕ} {x y : Obs} (h : DrainStep x y) (hx : Buffered n x.s) :
    Buffered n y.s := by
  have hle := hx.le
  unfold TcpSession.buffered at hle
  cases h with
  | write data rest hdata =>
    refine ⟨hx.tally, ?_⟩
    simp only [TcpSession.buffered]
    omega
  | zero | clear =>
    refine ⟨hx.tally, ?_⟩
    simp only [TcpSession.buffered, List.length_nil]
    omega
  | blocked | fail => exact ⟨hx.tally, hx.le⟩

theorem tryDrainToHost_buffered {n : ℕ} {c : Ctx} (h : Buffered n c.s) :
    Buffered n c.tryDrainToHost.s := by
  have hpath := tryDrainToHost_drain c
  show Buffered n c.tryDrainToHost.obs.s
  generalize c.tryDrainToHost.obs = y at hpath ⊢
  induction hpath with
  | refl => exact h
  | tail _ hstep ih => exact hstep.buffered ih

theorem enqueueToHost_buffered {n : ℕ} {c : Ctx} (h : Buffered n c.s) (data : Bytes) :
    Buffered (n + data.length) (c.enqueueToHost data).s := by
  have happend : Buffered (n + data.length) (c.appendToHost data).s := by
    have hpush : (c.s.toRecvVars.push data).ooo = c.s.ooo ∧
        (c.s.toRecvVars.push data).oooBytes = c.s.oooBytes := by
      unfold RecvVars.push
      split <;> exact ⟨rfl, rfl⟩
    have hlen := RecvVars.push_length c.s.toRecvVars data
    have hle := h.le
    refine ⟨?_, ?_⟩
    · show (c.s.toRecvVars.push data).oooBytes = totalBytes (c.s.toRecvVars.push data).ooo
      rw [hpush.1, hpush.2]
      exact h.tally
    · show ((c.s.toRecvVars.push data).toHost.length - (c.s.toRecvVars.push data).toHostOff) +
        (c.s.toRecvVars.push data).oooBytes ≤ n + data.length
      unfold TcpSession.buffered at hle
      rw [hpush.2]
      omega
  unfold Ctx.enqueueToHost
  simp only
  split
  · exact tryDrainToHost_buffered happend
  · exact happend

theorem enqueueToHost_ooo (c : Ctx) (data : Bytes) : (c.enqueueToHost data).s.ooo = c.s.ooo :=
  congrArg Intake.ooo (enqueueToHost_intake c data)

theorem popOoo_buffered {n : ℕ} {c : Ctx} (h : Buffered n c.s) {head : OooSeg} {rest : List OooSeg}
    (hooo : c.s.ooo = head :: rest) : head.data.length ≤ n ∧
      Buffered (n - head.data.length) (c.popOoo head rest).s := by
  have htally := h.tally
  have hle := h.le
  rw [hooo] at htally
  simp only [totalBytes, List.map_cons, List.sum_cons] at htally
  unfold TcpSession.buffered at hle
  refine ⟨by omega, ?_, ?_⟩
  · show c.s.oooBytes - head.data.length = totalBytes rest
    unfold totalBytes
    omega
  · show (c.s.toHost.length - c.s.toHostOff) + (c.s.oooBytes - head.data.length) ≤ _
    omega

theorem deliverOoo_buffered (l : List OooSeg) : ∀ {n : ℕ} {c : Ctx}, c.s.ooo = l →
    Buffered n c.s → Buffered n (Ctx.deliverOoo l c).s := by
  induction l with
  | nil => exact fun _ h => h
  | cons head rest ih =>
    intro n c hooo h
    obtain ⟨hlen, hpop⟩ := popOoo_buffered h hooo
    unfold Ctx.deliverOoo
    simp only
    split
    · exact ih rfl ⟨hpop.tally, hpop.le.trans (Nat.sub_le _ _)⟩
    · split
      · exact h
      · generalize (c.s.rcvNxt - head.seq).toNat = skip
        have henq := enqueueToHost_buffered hpop (head.data.drop skip)
        have hrest : ((c.popOoo head rest).enqueueToHost (head.data.drop skip)).s.ooo = rest :=
          enqueueToHost_ooo _ _
        refine ih (c := Ctx.setRcvNxt _ _) hrest ⟨henq.tally, ?_⟩
        refine henq.le.trans ?_
        rw [List.length_drop]
        omega

theorem storeOoo_buffered {n : ℕ} {c : Ctx} (h : Buffered n c.s) (seq : UInt32) (data : Bytes) :
    Buffered (n + data.length) (c.storeOoo seq data).s := by
  have hkeep : Buffered (n + data.length) c.s := ⟨h.tally, h.le.trans (Nat.le_add_right _ _)⟩
  unfold Ctx.storeOoo
  simp only
  split
  · exact hkeep
  · split
    · exact hkeep
    · split
      · exact hkeep
      · split
        · exact hkeep
        · have htally := h.tally
          have hle := h.le
          unfold TcpSession.buffered at hle
          refine ⟨?_, ?_⟩
          · rw [totalBytes_insert, List.take_append_drop, ← htally]
          · simp only [TcpSession.buffered]
            omega

theorem acceptData_buffered {n : ℕ} {c : Ctx} (h : Buffered n c.s) (seq : UInt32) (data : Bytes) :
    Buffered (n + data.length) (c.acceptData seq data).s := by
  unfold Ctx.acceptData
  simp only
  split
  · have henq := enqueueToHost_buffered h data
    exact deliverOoo_buffered _ rfl ⟨henq.tally, henq.le⟩
  · exact storeOoo_buffered h seq data

theorem handleDataIn_buffered {n : ℕ} {c : Ctx} (h : Buffered n c.s) (seq : UInt32) (data : Bytes) :
    Buffered (n + data.length) (c.handleDataIn seq data).s := by
  have hkeep : Buffered (n + data.length) c.s := ⟨h.tally, h.le.trans (Nat.le_add_right _ _)⟩
  unfold Ctx.handleDataIn
  simp only
  split
  · exact hkeep
  · split
    · exact hkeep
    · split
      · split
        · exact hkeep
        · have hsome := acceptData_buffered h (seq + (c.s.rcvNxt - seq).toNat.toUInt32)
            (data.drop (c.s.rcvNxt - seq).toNat)
          refine ⟨hsome.tally, hsome.le.trans ?_⟩
          rw [List.length_drop]
          omega
      · exact acceptData_buffered h seq data

/-! ## Events -/

theorem Buffered.of_recv {n : ℕ} {s s' : TcpSession} (h : Buffered n s) {r : UInt32}
    (hr : s'.toRecvVars = { s.toRecvVars with rcvNxt := r }) : Buffered n s' := by
  refine ⟨?_, ?_⟩
  · rw [hr]
    exact h.tally
  · refine le_of_eq_of_le ?_ h.le
    unfold TcpSession.buffered
    rw [hr]

theorem Micro.recv {v v' : View} (h : Micro v v') :
    ∃ r, v'.recv = { v.recv with rcvNxt := r } := by
  cases h with
  | sender h => exact ⟨v.recv.rcvNxt, h.frame.recv⟩
  | finIn => exact ⟨v.recv.rcvNxt + 1, rfl⟩
  | _ => exact ⟨v.recv.rcvNxt, rfl⟩

theorem Path.recv {v v' : View} (h : Path v v') : ∃ r, v'.recv = { v.recv with rcvNxt := r } := by
  induction h with
  | refl => exact ⟨v.recv.rcvNxt, rfl⟩
  | tail _ hstep ih =>
    obtain ⟨r, hr⟩ := ih
    obtain ⟨r', hr'⟩ := hstep.recv
    exact ⟨r', by rw [hr', hr]⟩

theorem Buffered.path {n : ℕ} {c c' : Ctx} (h : Buffered n c.s) (hp : Path c.view c'.view) :
    Buffered n c'.s := by
  obtain ⟨r, hr⟩ := hp.recv
  exact h.of_recv hr

theorem Buffered.moves {n : ℕ} {w : Bool} {c c' : Ctx} (h : Buffered n c.s)
    (hm : Moves w c c') : Buffered n c'.s := by
  induction hm with
  | refl => exact h
  | @tail c₁ _ _ hmove ih =>
    cases hmove with
    | path hpath => exact ih.path hpath
    | drain => exact tryDrainToHost_buffered ih
    | wake _ => exact tryDrainToHost_buffered (c := c₁.setWritable) ⟨ih.tally, ih.le⟩

theorem closed_recv (x : Obs) : x.closed.s.toRecvVars = x.s.toRecvVars := rfl

theorem abort_recv (c : Ctx) : c.abort.s.toRecvVars = c.s.toRecvVars := by
  obtain ⟨acts, -, hobs⟩ := abort_obs c
  rw [show c.abort.s = c.abort.obs.s from rfl, hobs, closed_recv]

theorem Ending.recv {final : Prop} {c c' : Ctx} (h : Ending final c c') :
    c'.s.toRecvVars = c.s.toRecvVars := by
  cases h with
  | stay => rfl
  | abort => exact abort_recv c
  | abortClosed => exact abort_recv c
  | close _ => rw [show c.markClosed.s = c.markClosed.obs.s from rfl, markClosed_obs, closed_recv]; rfl
  | timeWait _ now hv =>
    have hrecv := congrArg (fun v : View => v.recv) hv
    have hclose := closeHostSocket_obs (c.toTimeWait now)
    exact hrecv.trans (congrArg (fun x : Obs => x.s.toRecvVars) hclose)

/-- A segment that may bring data finds room for all of it, up to the allowance of `65535`. -/
def RoomFor (c : Ctx) : Event → Prop
  | .segment seg => c.s.state = .synRcvd ∨ c.s.state.takesData = true →
      c.s.buffered + (seg.drop (TcpHeader.dataOff seg)).length ≤ c.s.rcvWnd.toNat + 65535
  | _ => True

instance (c : Ctx) : (ev : Event) → Decidable (RoomFor c ev)
  | .segment _ => inferInstanceAs (Decidable (_ ∨ _ → _ ≤ _))
  | .host _ | .tick _ | .windowUpdate => inferInstanceAs (Decidable True)

theorem Work.buffered {n : ℕ} {took : Bool} {seq : UInt32} {data : Bytes} {c c' : Ctx}
    (h : Work took seq data c c') (hc : Buffered n c.s)
    (hroom : c.s.state = .synRcvd ∨ c.s.state.takesData = true → c.s.buffered + data.length ≤ n) :
    Buffered n c'.s := by
  obtain ⟨c₁, c₂, hpre, htaken, hmoves⟩ := h
  have hrecv : c₁.s.toRecvVars = { c.s.toRecvVars with rcvNxt := c.s.rcvNxt } := hpre.recv
  cases htaken with
  | skip => exact (hc.of_recv hrecv).moves hmoves
  | data _ htakes =>
    have hstate : c.s.state = .synRcvd ∨ c.s.state.takesData = true := by
      obtain h | ⟨-, h⟩ := hpre.kept
      · exact .inl h
      · exact .inr (h ▸ htakes)
    have hnow : Buffered c.s.buffered c.s := ⟨hc.tally, le_rfl⟩
    have hdata := handleDataIn_buffered (hnow.of_recv hrecv) seq data
    have hfits : Buffered n (c₁.handleDataIn seq data).s :=
      ⟨hdata.tally, hdata.le.trans (hroom hstate)⟩
    exact hfits.moves ((emitAck_moves _).trans hmoves)

theorem Outcome.buffered {n : ℕ} {c c' : Ctx} {ev : Event} (h : Outcome c ev c')
    (hc : Buffered n c.s) (hn : n = c.s.rcvWnd.toNat + 65535) (hroom : RoomFor c ev) :
    Buffered n c'.s := by
  cases h with
  | @segment seg _ c₁ _ hwork hend =>
    have hfits : Buffered n c₁.s := hwork.buffered hc fun hs => (hroom hs).trans_eq hn.symm
    exact hfits.of_recv (r := c₁.s.rcvNxt) hend.recv
  | @host _ c₁ _ hmoves hend => exact (hc.moves hmoves).of_recv (r := c₁.s.rcvNxt) hend.recv
  | @tick _ c₁ _ hpath hend => exact (hc.path hpath).of_recv (r := c₁.s.rcvNxt) hend.recv
  | windowUpdate hpath => exact hc.path hpath

theorem rcvWnd_stable : Stable fun v => v.recv.rcvWnd = 1024 * 1024 where
  micro h hv := by
    obtain ⟨r, hr⟩ := h.recv
    rw [hr]
    exact hv
  host h hx := h.frame.rcvWnd.trans hx
  wake _ hv := hv
  rst _ _ _ hx := hx
  closed _ hx := hx
  timeWait _ _ _ hv := hv

/-- As long as every segment with data finds room for it, the buffers stay within `rcv_wnd` and one
maximal payload. -/
theorem buffers_bounded {key : FlowKey} {c₀ : Ctx} (h₀ : Accepted key c₀) {inputs : List Input}
    (hroom : Each (fun pre i => RoomFor (c₀.run pre) i.event) inputs) :
    (c₀.run inputs).s.buffered ≤ (c₀.run inputs).s.rcvWnd.toNat + 65535 := by
  have hrecv : c₀.s.toRecvVars = { rcvNxt := c₀.s.rcvNxt } := by
    have hs := h₀.started
    show c₀.view.recv = { rcvNxt := c₀.view.recv.rcvNxt }
    generalize c₀.view = v at hs ⊢
    cases hs <;> rfl
  have hwnd : c₀.s.rcvWnd = 1024 * 1024 := by rw [hrecv]
  have hstart : Buffered (1024 * 1024 + 65535) c₀.s :=
    Buffered.of_recv (s := .new key) ⟨rfl, Nat.zero_le _⟩ (r := c₀.s.rcvNxt) hrecv
  have hinv := run_induction
    (P := fun c => c.s.rcvWnd = 1024 * 1024 ∧ Buffered (1024 * 1024 + 65535) c.s)
    (Q := fun c i => RoomFor c i.event) ⟨hwnd, hstart⟩ ?_ hroom
  · rw [hinv.1]
    exact hinv.2.le
  · intro c i _ hout hroom hc
    refine ⟨rcvWnd_stable.outcome hout hc.1, hout.buffered hc.2 ?_ hroom⟩
    show _ = c.s.rcvWnd.toNat + 65535
    rw [hc.1]
    rfl

/-! ## A client that ignores the window -/

/-- In-order data with nothing waiting behind it goes to the host, whatever is buffered already. -/
theorem handleDataIn_in_order {c : Ctx} {data : Bytes} (hpos : 0 < data.length)
    (hlen : data.length < 2 ^ 31) (hooo : c.s.ooo = []) :
    c.handleDataIn c.s.rcvNxt data =
      (c.enqueueToHost data).setRcvNxt ((c.enqueueToHost data).s.rcvNxt + data.length.toUInt32) := by
  have hne : data.isEmpty = false := by
    rw [List.isEmpty_eq_false_iff]
    exact List.ne_nil_of_length_pos hpos
  have hzero : c.s.rcvNxt = seqAt c.s.rcvNxt 0 := (UInt32.add_zero _).symm
  have hnew : seqLt c.s.rcvNxt (c.s.rcvNxt + data.length.toUInt32) = true := by
    have hpast := seqLt_seqAt c.s.rcvNxt (i := 0) (j := data.length) (by omega) (by omega)
    rw [← hzero] at hpast
    exact hpast.trans (decide_eq_true hpos)
  have hold : seqLt c.s.rcvNxt c.s.rcvNxt = false := by
    have hsame := seqLt_seqAt c.s.rcvNxt (i := 0) (j := 0) (by omega) (by omega)
    rw [← hzero] at hsame
    exact hsame
  have hrest : (c.enqueueToHost data).s.ooo = [] := (enqueueToHost_ooo c data).trans hooo
  unfold Ctx.handleDataIn Ctx.acceptData
  simp only [hne, hnew, hold, Bool.false_eq_true, Bool.not_true, beq_self_eq_true, if_true, if_false]
  generalize c.enqueueToHost data = c₁ at hrest ⊢
  rw [show (c₁.setRcvNxt (c₁.s.rcvNxt + data.length.toUInt32)).s.ooo = [] from hrest]
  rfl

/-- The host has closed its side and its socket does not take bytes; `n` bytes have come in order. -/
structure Filling (n : ℕ) (c : Ctx) : Prop where
  state : c.s.state = .finWait2
  blocked : c.s.hostWritable = false
  recv : c.s.toRecvVars = { rcvNxt := seqAt 101 n, toHost := List.replicate n 0 }

section

variable {n size : ℕ} {c : Ctx} (h : Filling n c)

include h

theorem Filling.congr {c' : Ctx} (hcore : c'.s.core = c.s.core) : Filling n c' :=
  ⟨(congrArg Core.state hcore).trans h.state,
    (congrArg (fun v : Core => v.host.hostWritable) hcore).trans h.blocked,
    (congrArg Core.recv hcore).trans h.recv⟩

theorem Filling.buffered_eq : c.s.buffered = n := by
  unfold TcpSession.buffered
  rw [h.recv]
  simp only [List.length_replicate, Nat.sub_zero, Nat.add_zero]

theorem Filling.rcvWnd_eq : c.s.rcvWnd = 1024 * 1024 := by rw [h.recv]

theorem Filling.enqueue : (c.enqueueToHost (List.replicate size 0)) =
    c.appendToHost (List.replicate size 0) := by
  have hblocked : (c.appendToHost (List.replicate size 0)).s.hostWritable = false := h.blocked
  unfold Ctx.enqueueToHost
  simp only [hblocked, Bool.false_eq_true, if_false]

theorem Filling.push : c.s.toRecvVars.push (List.replicate size 0) =
    { rcvNxt := seqAt 101 n, toHost := List.replicate (n + size) 0 } := by
  rw [h.recv, ← List.replicate_append_replicate]
  rfl

theorem Filling.handleDataIn (hpos : 0 < size) (hsize : size < 2 ^ 31) :
    Filling (n + size) (c.handleDataIn (seqAt 101 n) (List.replicate size 0)) := by
  have hnxt : c.s.rcvNxt = seqAt 101 n := by rw [h.recv]
  have hooo : c.s.ooo = [] := by rw [h.recv]
  have hlen : (List.replicate size (0 : UInt8)).length = size := List.length_replicate
  rw [← hnxt, handleDataIn_in_order (by omega) (by omega) hooo, h.enqueue, hlen]
  have hrecv : (c.appendToHost (List.replicate size 0)).s.toRecvVars = _ := h.push
  have hstate : (c.appendToHost (List.replicate size 0)).s.state = .finWait2 := h.state
  have hblocked : (c.appendToHost (List.replicate size 0)).s.hostWritable = false := h.blocked
  generalize c.appendToHost (List.replicate size 0) = c₁ at hrecv hstate hblocked ⊢
  refine ⟨hstate, hblocked, ?_⟩
  show { c₁.s.toRecvVars with rcvNxt := c₁.s.rcvNxt + size.toUInt32 } = _
  rw [hrecv, seqAt_add]

end

/-- The next `size` bytes of the client. -/
def uploadAt (size n : ℕ) : Input :=
  ⟨.segment (clientSegment sampleKey TCP_ACK (seqAt 101 n) 2 65535 [] (List.replicate size 0)), {}⟩

/-- `k` segments of `size` bytes, one after the other. -/
def upload (size k : ℕ) : List Input := (List.range k).map fun i => uploadAt size (i * size)

theorem Filling.step {n size : ℕ} {c : Ctx} (h : Filling n c) (hpos : 0 < size)
    (hsize : size < 2 ^ 31) : Filling (n + size) (c.step (uploadAt size n)) := by
  have hload : Filling n (c.load {}) := h.congr rfl
  have hstep : c.step (uploadAt size n) = ((c.load {}).onSegment (clientSegment sampleKey TCP_ACK
      (seqAt 101 n) 2 65535 [] (List.replicate size 0))).2 := by
    unfold Ctx.step
    rw [h.state]
    rfl
  rw [hstep]
  unfold clientSegment
  generalize hb : TcpBuild.mk _ _ _ _ _ _ _ _ _ _ = b
  have hopts : b.options = [] := by rw [← hb]
  have hoff : TcpHeader.dataOff (tcpBytes b 0) = 20 := by
    rw [tcpBytes_dataOff _ (by rw [hopts]; decide) (by rw [hopts]; decide), hopts]
    rfl
  have hseglen : (tcpBytes b 0).length = 20 + size := by
    rw [tcpBytes_length, ← hb]
    simp only [List.length_nil, List.length_replicate, Nat.add_zero]
  have hpayload : (tcpBytes b 0).drop 20 = List.replicate size 0 := by
    rw [tcpBytes_drop, ← hb]
    rfl
  have hflags : TcpHeader.flags (tcpBytes b 0) = TCP_ACK := by rw [tcpBytes_flags, ← hb]
  have hseq : TcpHeader.seq (tcpBytes b 0) = seqAt 101 n := by rw [tcpBytes_seq, ← hb]
  unfold Ctx.onSegment
  simp only [hoff, hseglen, hpayload, hflags, hseq]
  rw [if_neg (by omega), if_neg (by simp)]
  have hpre := preprocess_view (c.load {}) (((tcpBytes b 0).take 20).drop 20) (seqAt 101 n)
  generalize (c.load {}).preprocess (((tcpBytes b 0).take 20).drop 20) (seqAt 101 n) = c₁ at hpre ⊢
  have h₁ : Filling n c₁ := hload.congr (congrArg View.toCore hpre)
  rw [if_neg (by decide), if_neg (by rw [h₁.state]; decide)]
  unfold Ctx.dispatchState Ctx.processFinWait2
  simp only [h₁.state]
  have hwnd : Filling n (c₁.setSndWnd (TcpHeader.window (tcpBytes b 0))) :=
    ⟨h₁.state, h₁.blocked, h₁.recv⟩
  generalize c₁.setSndWnd (TcpHeader.window (tcpBytes b 0)) = c₂ at hwnd ⊢
  have hne : (List.replicate size (0 : UInt8)).isEmpty = false := by
    rw [List.isEmpty_eq_false_iff]
    exact List.ne_nil_of_length_pos (by simpa using hpos)
  have hdata := hwnd.handleDataIn hpos hsize
  have hfin : hasFlag TCP_ACK TCP_FIN = false := by decide
  unfold Ctx.takePayload Ctx.finWait2Close
  simp only [hne, hfin, Bool.false_and, Bool.false_eq_true, if_false]
  generalize c₂.handleDataIn (seqAt 101 n) (List.replicate size 0) = c₃ at hdata ⊢
  have hack := hdata.congr (emitAck_core c₃)
  generalize c₃.emitAck = c₄ at hack ⊢
  have hzwp := congrArg View.toCore (refreshZwp_view c₄)
  generalize c₄.refreshZwp = c₅ at hzwp ⊢
  exact hack.congr hzwp

theorem Filling.upload {size : ℕ} {c : Ctx} (h : Filling 0 c) (hpos : 0 < size)
    (hsize : size < 2 ^ 31) (k : ℕ) : Filling (k * size) (c.run (upload size k)) := by
  induction k with
  | zero => simpa [Tcp.upload, Ctx.run] using h
  | succ k ih =>
    unfold Tcp.upload at ih ⊢
    rw [List.range_succ, List.map_append, List.map_singleton, Ctx.run_snoc, Nat.succ_mul]
    exact ih.step hpos hsize

/-- The handshake, the host's end of stream, and the client's ACK of the FIN it causes. -/
def halfClosed : List Input :=
  [sampleAck 65535, ⟨.host { isReadable := true }, { reads := [.ok []] }⟩,
    ⟨.segment (clientSegment sampleKey TCP_ACK 101 2 65535 [] []), {}⟩]

theorem halfClosed_filling : Filling 0 ((sampleStart 65535 []).run halfClosed) where
  state := by decide +kernel
  blocked := by decide +kernel
  recv := by rfl

/-- Nineteen segments of 60000 bytes each, one window and more. -/
theorem receive_window_overrun :
    ¬ ∀ (key : FlowKey) (c : Ctx), Reachable key c → c.s.buffered ≤ c.s.rcvWnd.toNat + 65535 := by
  intro hall
  have hfull := @Filling.upload 60000 _ halfClosed_filling (by omega) (by omega) 19
  have hreach : Reachable sampleKey (((sampleStart 65535 []).run halfClosed).run (upload 60000 19)) :=
    ⟨_, halfClosed ++ upload 60000 19, sampleStart_accepted 65535 [] (by decide),
      by simp only [Ctx.run, List.foldl_append]⟩
  have hle := hall _ _ hreach
  rw [hfull.buffered_eq, hfull.rcvWnd_eq] at hle
  exact absurd hle (by decide)

theorem buffers_bounded_upload :
    ((sampleStart 65535 []).run (halfClosed ++ [uploadAt 5 0])).s.buffered = 5 ∧
      ((sampleStart 65535 []).run (halfClosed ++ [uploadAt 5 0])).s.buffered ≤
        ((sampleStart 65535 []).run (halfClosed ++ [uploadAt 5 0])).s.rcvWnd.toNat + 65535 :=
  ⟨by decide +kernel,
    buffers_bounded (sampleStart_accepted _ _ (by decide)) (by decide +kernel)⟩

end BaleVpn.Tcp
