import BaleVpn.Tcp.Abort
import BaleVpn.Tcp.Reassembly

/-!
# Bytes on their way to the host

What the session has acknowledged and queued for the host is either written or still in `to_host`.
A write that returns `Ok(0)` breaks this: the loop ends as if everything were written, and the buffer
is cleared. So does a close that completes before the host took everything: `enter_time_wait` and
`mark_closed` drop the socket without looking at `to_host`.
-/

namespace BaleVpn.Tcp

open Net Lib Relation

/-! ## The property -/

def Action.bytesWritten : Action → Bytes
  | .write data => data
  | _ => []

/-- The bytes the host's `write` accepted. -/
def writtenOf (t : List Action) : Bytes := t.flatMap Action.bytesWritten

/-- If the host socket is dropped, nothing is left to write. -/
def Action.DropsDrained : Action → Prop
  | .dropHost s => s.unwritten = []
  | _ => True

instance : (a : Action) → Decidable a.DropsDrained
  | .dropHost s => inferInstanceAs (Decidable (s.unwritten = []))
  | .emit .. | .armRto _ | .popRetx _ | .enqueue _ | .write _ | .writeZero | .writeBlocked
  | .writeErr | .read _ | .readEof | .hostOpen | .hostClosed | .shutdownWr | .markClosed =>
    isTrue trivial

/-- No byte is lost between `enqueue_to_host` and the host. -/
def NothingLost (c : Ctx) : Prop :=
  writtenOf c.io.trace ++ c.s.unwritten = enqueuedOf c.io.trace ∧
    ∀ a ∈ c.io.trace, a.DropsDrained

instance (c : Ctx) : Decidable (NothingLost c) := inferInstanceAs (Decidable (_ ∧ _))

/-- The host refused to take bytes. -/
def Action.stalls : Action → Bool
  | .writeZero | .writeBlocked | .writeErr => true
  | _ => false

def Action.isWriteZero : Action → Bool
  | .writeZero => true
  | _ => false

def Event.isRst : Event → Bool
  | .segment seg => hasFlag (TcpHeader.flags seg) TCP_RST
  | _ => false

/-- The host took all that the event gave it. -/
def TakenAtOnce (c : Ctx) (i : Input) : Prop :=
  c.s.hostWritable = true ∧ (newActs c (c.step i)).any Action.stalls = false

instance (c : Ctx) (i : Input) : Decidable (TakenAtOnce c i) := inferInstanceAs (Decidable (_ ∧ _))

/-- A segment that completes the close finds everything written. If it brings payload, the host
takes that at once. -/
def ClosesDrained (c : Ctx) (i : Input) : Event → Prop
  | .segment seg => c.s.completesClose seg = true → c.s.unwritten = [] ∧
      (c.s.takesLast (seg.drop (TcpHeader.dataOff seg)) = true → TakenAtOnce c i)
  | _ => True

instance (c : Ctx) (i : Input) : (ev : Event) → Decidable (ClosesDrained c i ev)
  | .segment seg => inferInstanceAs (Decidable (c.s.completesClose seg = true →
      c.s.unwritten = [] ∧
        (c.s.takesLast (seg.drop (TcpHeader.dataOff seg)) = true → TakenAtOnce c i)))
  | .host _ | .tick _ | .windowUpdate => isTrue trivial

/-- No write returns `Ok(0)`, and the close completes with everything written. -/
def Orderly (c : Ctx) (i : Input) : Prop :=
  (newActs c (c.step i)).any Action.isWriteZero = false ∧ ClosesDrained c i i.event

instance (c : Ctx) (i : Input) : Decidable (Orderly c i) := inferInstanceAs (Decidable (_ ∧ _))

/-! ## Custody -/

/-- Neither a RST was emitted nor did a write return `Ok(0)`. -/
def Unbroken (t : List Action) : Prop := ∀ a ∈ t, a.isRst = false ∧ a.isWriteZero = false

theorem Unbroken.of_append {t acts : List Action} (h : Unbroken (t ++ acts)) : Unbroken t :=
  fun a ha => h a (List.mem_append_left _ ha)

/-- Every byte queued for the host is written or in the buffer, and no write failed. -/
structure Custody (r : RecvVars) (t : List Action) : Prop where
  off : r.toHostOff ≤ r.toHost.length
  bytes : writtenOf t ++ r.toHost.drop r.toHostOff = enqueuedOf t
  noErr : t.any Action.isWriteErr = false

theorem writtenOf_append (t acts : List Action) :
    writtenOf (t ++ acts) = writtenOf t ++ writtenOf acts := List.flatMap_append

/-- An action that does not concern the bytes for the host. -/
structure Action.Apart (a : Action) : Prop where
  written : a.bytesWritten = []
  enqueued : a.bytesEnqueued = []
  notErr : a.isWriteErr = false

theorem Custody.apart {r r' : RecvVars} {t t' : List Action} (h : Custody r t)
    (hadds : Adds t t' Action.Apart) (hbuf : r'.toHost = r.toHost)
    (hoff : r'.toHostOff = r.toHostOff) : Custody r' t' := by
  obtain ⟨acts, rfl, hacts⟩ := hadds
  have hwritten : writtenOf acts = [] := by
    rw [writtenOf, List.flatMap_eq_nil_iff]
    exact fun a ha => (hacts a ha).written
  have hqueued : enqueuedOf acts = [] := enqueuedOf_nil acts fun a ha => (hacts a ha).enqueued
  refine ⟨by rw [hbuf, hoff]; exact h.off, ?_, ?_⟩
  · rw [writtenOf_append, enqueuedOf_append, hwritten, hqueued, hbuf, hoff, List.append_nil,
      List.append_nil]
    exact h.bytes
  · rw [List.any_append, h.noErr, Bool.false_or, List.any_eq_false]
    intro a ha
    rw [(hacts a ha).notErr]
    exact Bool.false_ne_true

theorem Action.Apart.of_towardsHost {a : Action} (h : a.towardsHost = false) : a.Apart := by
  cases a <;> first | exact ⟨rfl, rfl, rfl⟩ | cases h

theorem Micro.toHost {v v' : View} (h : Micro v v') :
    v'.recv.toHost = v.recv.toHost ∧ v'.recv.toHostOff = v.recv.toHostOff := by
  cases h with
  | sender h => rw [h.frame.recv]; exact ⟨rfl, rfl⟩
  | _ => exact ⟨rfl, rfl⟩

theorem RecvVars.push_unwritten {x : RecvVars} (h : x.toHostOff ≤ x.toHost.length) (data : Bytes) :
    (x.push data).toHostOff ≤ (x.push data).toHost.length ∧
      (x.push data).toHost.drop (x.push data).toHostOff = x.toHost.drop x.toHostOff ++ data := by
  unfold RecvVars.push
  split
  · exact ⟨Nat.zero_le _, rfl⟩
  · refine ⟨?_, List.drop_append_of_le_length h⟩
    simp only [List.length_append]
    omega

theorem RstActs.isRst {s : TcpSession} {acts : List Action} (h : RstActs s acts)
    (hkey : s.key.IsV4) : ∃ a ∈ acts, a.isRst = true := by
  obtain ⟨hnone, -⟩ | ⟨pkt, ok, -, rfl⟩ := h
  · obtain ⟨pkt, hpkt⟩ : ∃ pkt, buildTcp 64 (s.header (TCP_RST ||| TCP_ACK) s.sndNxt s.rcvNxt 0 [] [])
        = some pkt := buildTcp_eq_some hkey.2 hkey.1 (by simp [TcpSession.header])
          (by simp [TcpSession.header]) (by decide)
    rw [hpkt] at hnone
    cases hnone
  · exact ⟨_, List.mem_singleton_self _, rfl⟩

theorem Custody.write {r : RecvVars} {t : List Action} (h : Custody r t) {data rest : Bytes}
    (hdata : r.toHost.drop r.toHostOff = data ++ rest) :
    Custody { r with toHostOff := r.toHostOff + data.length } (t ++ [.write data]) := by
  have hoff := h.off
  have hlen := congrArg List.length hdata
  rw [List.length_drop, List.length_append] at hlen
  refine ⟨?_, ?_, ?_⟩
  · simp only
    omega
  · rw [writtenOf_append, enqueuedOf_append, ← h.bytes, hdata]
    simp only
    rw [← List.drop_drop, hdata, List.drop_left]
    simp [writtenOf, enqueuedOf, Action.bytesWritten, Action.bytesEnqueued]
  · rw [List.any_append, h.noErr]
    rfl

theorem Custody.enqueue {r : RecvVars} {t : List Action} (h : Custody r t) (data : Bytes) :
    Custody (r.push data) (t ++ [.enqueue data]) := by
  obtain ⟨hoff, hdrop⟩ := RecvVars.push_unwritten h.off data
  refine ⟨hoff, ?_, ?_⟩
  · rw [hdrop, writtenOf_append, enqueuedOf_append, ← h.bytes]
    simp [writtenOf, enqueuedOf, Action.bytesWritten, Action.bytesEnqueued]
  · rw [List.any_append, h.noErr]
    rfl

theorem DrainStep.custody {x y : Obs} (h : DrainStep x y) (hkey : x.s.key.IsV4)
    (hx : Custody x.s.toRecvVars x.trace) (hy : Unbroken y.trace) :
    Custody y.s.toRecvVars y.trace := by
  cases h with
  | write data rest hdata => exact hx.write hdata
  | blocked => exact hx.apart (.one ⟨rfl, rfl, rfl⟩) rfl rfl
  | zero => exact absurd (hy .writeZero (by simp)).2 (by decide)
  | clear hempty =>
    have hbytes : writtenOf x.trace ++ x.s.unwritten = enqueuedOf x.trace := hx.bytes
    rw [hempty] at hbytes
    exact ⟨Nat.le_refl 0, hbytes, hx.noErr⟩
  | fail acts hacts =>
    obtain ⟨a, ha, hrst⟩ := hacts.isRst hkey
    have hno := (hy a (by simp [Obs.closed, ha])).1
    rw [hrst] at hno
    cases hno

theorem HostStep.custody {x y : Obs} (h : HostStep x y) (hkey : x.s.key.IsV4)
    (hx : Custody x.s.toRecvVars x.trace) (hy : Unbroken y.trace) :
    Custody y.s.toRecvVars y.trace := by
  cases h with
  | book => exact hx.apart .none rfl rfl
  | enqueue data => exact hx.enqueue data
  | drain h => exact h.custody hkey hx hy

/-- In a session that sent no RST and whose writes all took something, the bytes for the host are in
custody; in `TimeWait` the socket is gone. -/
structure HostInv (v : View) : Prop where
  key : v.key.IsV4
  custody : Unbroken v.trace → Custody v.recv v.trace
  gone : v.state = .timeWait → v.host.host = false

theorem Unbroken.of_adds {t t' : List Action} {P : Action → Prop} (h : Unbroken t')
    (hadds : Adds t t' P) : Unbroken t := by
  obtain ⟨acts, rfl, -⟩ := hadds
  exact h.of_append

/-- The states after the first FIN, but for `TimeWait`. -/
def TcpState.isClosing : TcpState → Bool
  | .finWait1 | .finWait2 | .closeWait | .closing | .lastAck => true
  | _ => false

theorem Micro.state {v v' : View} (h : Micro v v') : v'.state = v.state ∨
    (v.state = .synRcvd ∧ v'.state = .established) ∨ v'.state.isClosing = true := by
  cases h with
  | sender h => exact .inl h.frame.state
  | finLost | fin =>
    refine .inr (.inr ?_)
    simp only
    split <;> rfl
  | establish h => exact .inr (.inl ⟨h, rfl⟩)
  | finIn st h =>
    obtain rfl | rfl := h
    · exact .inl rfl
    · exact .inr (.inr rfl)
  | settle st h => obtain rfl | rfl := h <;> exact .inr (.inr rfl)
  | _ => exact .inl rfl

theorem Micro.host {v v' : View} (h : Micro v v') :
    v'.host.host = v.host.host ∨ (v.state = .established ∧ v'.state = .established) := by
  cases h with
  | sender h => exact .inl (congrArg HostVars.host h.frame.host)
  | openHost h _ => exact .inr ⟨h, h⟩
  | _ => exact .inl rfl

theorem Micro.key {v v' : View} (h : Micro v v') : v'.key = v.key := by
  cases h with
  | sender h => exact h.frame.key
  | _ => rfl

theorem Micro.hostInv {v v' : View} (h : Micro v v') (hv : HostInv v) : HostInv v' := by
  obtain ⟨hbuf, hoff⟩ := h.toHost
  have hadds := h.towardsHost
  refine ⟨h.key ▸ hv.key, fun hclean => ?_, fun hwait => ?_⟩
  · exact (hv.custody (hclean.of_adds hadds)).apart
      (hadds.mono fun _ ha => .of_towardsHost ha) hbuf hoff
  · obtain hstate | ⟨-, hstate⟩ | hstate := h.state
    · rw [hwait] at hstate
      obtain hhost | ⟨hest, -⟩ := h.host
      · rw [hhost]
        exact hv.gone hstate.symm
      · rw [hest] at hstate
        cases hstate
    · rw [hwait] at hstate
      cases hstate
    · rw [hwait] at hstate
      cases hstate

theorem HostStep.host {x y : Obs} (h : HostStep x y) : y.s.host = x.s.host ∨ y.s.host = false := by
  cases h with
  | book => exact .inl rfl
  | enqueue data => exact .inl rfl
  | drain h =>
    cases h with
    | fail => exact .inr rfl
    | _ => exact .inl rfl

theorem hostInv_stable : Stable HostInv where
  micro h hv := h.hostInv hv
  wake _ hv := ⟨hv.key, hv.custody, hv.gone⟩
  host {x y} h hx := by
    have hkey : y.s.key.IsV4 := h.frame.key ▸ hx.key
    refine ⟨hkey, fun hclean => h.custody hx.key (hx.custody (hclean.of_adds h.adds)) hclean, ?_⟩
    intro hwait
    obtain hhost | hhost := h.host
    · obtain hstate | hstate := h.frame.state
      · exact hhost.trans (hx.gone (hstate.symm.trans hwait))
      · cases hstate.symm.trans hwait
    · exact hhost
  rst x acts h hx := by
    refine ⟨hx.key, fun hclean => ?_, hx.gone⟩
    obtain ⟨a, ha, hrst⟩ := h.isRst hx.key
    have hno := (hclean a (List.mem_append_right _ ha)).1
    rw [hrst] at hno
    cases hno
  closed x hx := by
    refine ⟨hx.key, fun hclean => ?_, fun hstate => (by cases hstate)⟩
    refine (hx.custody hclean.of_append).apart ⟨_, rfl, ?_⟩
      rfl rfl
    refine List.forall_mem_cons.mpr ⟨⟨rfl, rfl, rfl⟩, fun a ha => ?_⟩
    rw [(mem_dropActs ha).1]
    exact ⟨rfl, rfl, rfl⟩
  timeWait v acts h hv := by
    refine ⟨hv.key, fun hclean => ?_, fun _ => rfl⟩
    refine (hv.custody hclean.of_append).apart ⟨acts, rfl, fun a ha => ?_⟩ rfl rfl
    obtain rfl | ⟨s, -, rfl⟩ := h
    · cases ha
    · rw [List.mem_singleton.mp ha]
      exact ⟨rfl, rfl, rfl⟩

theorem DrainPath.adds {x y : Obs} (h : DrainPath x y) : Adds x.trace y.trace Action.HostSide := by
  induction h with
  | refl => exact .none
  | tail _ hstep ih => exact ih.trans hstep.adds

/-! ## A host that takes everything -/

/-- Everything is written, and the host would take more. -/
structure Drained (c : Ctx) : Prop where
  host : c.s.host = true
  writable : c.s.hostWritable = true
  empty : c.s.unwritten = []

/-- Since the trace was `t`, the host stalled. -/
def Stalled (t : List Action) (c : Ctx) : Prop :=
  ∃ acts, c.io.trace = t ++ acts ∧ acts.any Action.stalls = true

variable {t : List Action}

theorem Stalled.extend {c c' : Ctx} (h : Stalled t c) {P : Action → Prop}
    (hadds : Adds c.io.trace c'.io.trace P) : Stalled t c' := by
  obtain ⟨acts, htrace, hacts⟩ := h
  obtain ⟨more, hmore, -⟩ := hadds
  exact ⟨acts ++ more, by rw [hmore, htrace, List.append_assoc], by rw [List.any_append, hacts]; rfl⟩

theorem Stalled.not_calm {c : Ctx} (h : Stalled t c) {t₀ before : List Action}
    (ht : t = t₀ ++ before) : ¬ Adds t₀ c.io.trace fun a => a.stalls = false := by
  rintro ⟨acts, hacts, hcalm⟩
  obtain ⟨late, hlate, hstall⟩ := h
  obtain ⟨a, ha, hbad⟩ := List.any_eq_true.mp hstall
  rw [hlate, ht, List.append_assoc, List.append_cancel_left_eq] at hacts
  rw [hcalm a (hacts ▸ List.mem_append_right _ ha)] at hbad
  cases hbad

theorem Stalled.log {c : Ctx} (h : t <+: c.io.trace) {a : Action} (ha : a.stalls = true) :
    Stalled t (c.log a) := by
  obtain ⟨acts, hacts⟩ := h
  refine ⟨acts ++ [a], ?_, ?_⟩
  · rw [← List.append_assoc, hacts]
    rfl
  · rw [List.any_append]
    simp [ha]

theorem abort_adds (c : Ctx) : Adds c.io.trace c.abort.io.trace Action.HostSide := by
  obtain ⟨acts, hacts, hobs⟩ := abort_obs c
  have hclosed := closed_adds ⟨c.s, c.io.trace ++ acts⟩
  rw [← hobs] at hclosed
  exact Adds.trans ⟨acts, rfl, hacts.hostSide⟩ hclosed

theorem hostBlocked_stalled {c : Ctx} (h : t <+: c.io.trace) : Stalled t c.hostBlocked :=
  Stalled.log (c := { c with s.hostWritable := false }) h rfl

theorem writeErr_stalled {c : Ctx} (h : t <+: c.io.trace) : Stalled t (c.log .writeErr).abort := by
  have hlog : Stalled t (c.log .writeErr) := .log h rfl
  exact hlog.extend (abort_adds (c.log .writeErr))

theorem hostTook_trace (c : Ctx) (n : ℕ) (h : t <+: c.io.trace) :
    t <+: (c.hostTook n).io.trace := h.trans (List.prefix_append _ _)

theorem drainLoop_drained (ws : List WriteRes) : ∀ c : Ctx, t <+: c.io.trace → c.s.host = true →
    c.s.hostWritable = true → Stalled t (Ctx.drainLoop ws c).2 ∨
      (Ctx.drainLoop ws c).1 = true ∧ Drained (Ctx.drainLoop ws c).2 := by
  induction ws with
  | nil =>
    intro c hpre hhost hwritable
    unfold Ctx.drainLoop
    split
    · exact .inl (hostBlocked_stalled hpre)
    · rename_i hend
      exact .inr ⟨rfl, hhost, hwritable, (unwritten_eq_nil c.s).mpr (Nat.not_lt.mp hend)⟩
  | cons w ws ih =>
    intro c hpre hhost hwritable
    unfold Ctx.drainLoop
    split
    · obtain ⟨c₀, hc₀⟩ : ∃ c₀ : Ctx, c₀ = { c with io.oracle.writes := ws } := ⟨_, rfl⟩
      have hpre₀ : t <+: c₀.io.trace := by rw [hc₀]; exact hpre
      have hhost₀ : c₀.s.host = true := by rw [hc₀]; exact hhost
      have hwritable₀ : c₀.s.hostWritable = true := by rw [hc₀]; exact hwritable
      simp only
      rw [← hc₀]
      match w with
      | .ok 0 => exact .inl (.log hpre₀ rfl)
      | .ok (n + 1) =>
        exact ih (c₀.hostTook (n + 1)) (hostTook_trace c₀ (n + 1) hpre₀) hhost₀ hwritable₀
      | .wouldBlock => exact .inl (hostBlocked_stalled hpre₀)
      | .interrupted => exact ih c₀ hpre₀ hhost₀ hwritable₀
      | .err => exact .inl (writeErr_stalled hpre₀)
    · rename_i hend
      exact .inr ⟨rfl, hhost, hwritable, (unwritten_eq_nil c.s).mpr (Nat.not_lt.mp hend)⟩

/-- The host took everything since the trace was `t`, or it stalled. -/
def Flows (t : List Action) (c : Ctx) : Prop := (t <+: c.io.trace ∧ Drained c) ∨ Stalled t c

theorem tryDrainToHost_flows {c : Ctx} (hpre : t <+: c.io.trace) (hhost : c.s.host = true)
    (hwritable : c.s.hostWritable = true) : Flows t c.tryDrainToHost := by
  have hloop := drainLoop_drained c.io.oracle.writes c hpre hhost hwritable
  have hdrain := tryDrainToHost_drain c
  unfold Ctx.tryDrainToHost at hdrain ⊢
  simp only [hhost, hwritable, Bool.not_true, Bool.false_eq_true, if_false] at hdrain ⊢
  generalize Ctx.drainLoop c.io.oracle.writes c = r at hloop hdrain ⊢
  obtain ⟨done, c₁⟩ := r
  obtain hstalled | ⟨hdone, hdrained⟩ := hloop
  · refine .inr (hstalled.extend (P := fun _ => True) ?_)
    simp only
    split <;> exact .none
  · simp only at hdone hdrained hdrain ⊢
    rw [hdone] at hdrain ⊢
    obtain ⟨acts, hacts, -⟩ := DrainPath.adds hdrain
    refine .inl ⟨hpre.trans ⟨acts, hacts.symm⟩, hdrained.host, hdrained.writable, rfl⟩

theorem enqueueToHost_flows {c : Ctx} (hpre : t <+: c.io.trace) (hhost : c.s.host = true)
    (hwritable : c.s.hostWritable = true) (data : Bytes) : Flows t (c.enqueueToHost data) := by
  have hgo : (c.appendToHost data).s.hostWritable = true := hwritable
  unfold Ctx.enqueueToHost
  simp only [hgo, if_true]
  exact tryDrainToHost_flows (c := c.appendToHost data) (hpre.trans (List.prefix_append _ _)) hhost
    hwritable

theorem Flows.book {c c' : Ctx} (h : Flows t c) (htrace : c'.io.trace = c.io.trace)
    (hhost : c'.s.toHostVars = c.s.toHostVars) (hbuf : c'.s.unwritten = c.s.unwritten) :
    Flows t c' := by
  obtain ⟨hpre, h⟩ | h := h
  · refine .inl ⟨htrace ▸ hpre, ?_, ?_, hbuf.trans h.empty⟩
    · rw [hhost]; exact h.host
    · rw [hhost]; exact h.writable
  · exact .inr (h.extend (P := fun _ => True) (by rw [htrace]; exact .none))

theorem Flows.enqueue {c : Ctx} (h : Flows t c) (data : Bytes) :
    Flows t (c.enqueueToHost data) := by
  obtain ⟨hpre, h⟩ | h := h
  · exact enqueueToHost_flows hpre h.host h.writable data
  · exact .inr (h.extend (HostPath.adds (enqueueToHost_path c data)))

theorem deliverOoo_flows (l : List OooSeg) : ∀ {c : Ctx}, Flows t c →
    Flows t (Ctx.deliverOoo l c) := by
  induction l with
  | nil => exact id
  | cons head rest ih =>
    intro c h
    have hpop : Flows t (c.popOoo head rest) := h.book rfl rfl rfl
    unfold Ctx.deliverOoo
    simp only
    split
    · exact ih hpop
    · split
      · exact h
      · exact ih ((hpop.enqueue _).book rfl rfl rfl)

theorem storeOoo_flows {c : Ctx} (h : Flows t c) (seq : UInt32) (data : Bytes) :
    Flows t (c.storeOoo seq data) := by
  unfold Ctx.storeOoo
  simp only
  split
  · exact h
  · split
    · exact h
    · split
      · exact h
      · split
        · exact h
        · exact h.book rfl rfl rfl

theorem acceptData_flows {c : Ctx} (h : Flows t c) (seq : UInt32) (data : Bytes) :
    Flows t (c.acceptData seq data) := by
  unfold Ctx.acceptData
  simp only
  split
  · exact deliverOoo_flows _ ((h.enqueue data).book rfl rfl rfl)
  · exact storeOoo_flows h seq data

theorem handleDataIn_flows {c : Ctx} (h : Flows t c) (seq : UInt32) (data : Bytes) :
    Flows t (c.handleDataIn seq data) := by
  unfold Ctx.handleDataIn
  simp only
  split
  · exact h
  · split
    · exact h
    · split
      · split
        · exact h
        · exact acceptData_flows h _ _
      · exact acceptData_flows h _ _

/-! ## The close -/

/-- The socket is gone, and the session is past the states that open it. -/
structure HostGone (v : View) : Prop where
  host : v.host.host = false
  state : v.state ≠ .synRcvd ∧ v.state ≠ .established

theorem HostGone.path {v v' : View} (h : Path v v') (hv : HostGone v) : HostGone v' := by
  induction h with
  | refl => exact hv
  | tail _ hstep ih =>
    refine ⟨?_, ?_⟩
    · obtain hhost | ⟨hest, -⟩ := hstep.host
      · rw [hhost]
        exact ih.host
      · exact absurd hest ih.state.2
    · obtain hstate | ⟨hsyn, -⟩ | hstate := hstep.state
      · rw [hstate]
        exact ih.state
      · exact absurd hsyn ih.state.1
      · constructor <;> intro heq <;> rw [heq] at hstate <;> cases hstate

theorem HostGone.hostPath {x y : Obs} (h : HostPath x y) (hx : HostGone x.view) :
    HostGone y.view := by
  induction h with
  | refl => exact hx
  | tail _ hstep ih =>
    refine ⟨?_, ?_⟩
    · exact hstep.host.elim (fun h => h.trans ih.host) id
    · obtain hstate | hstate := hstep.frame.state
      · exact ⟨fun h => ih.state.1 (hstate.symm.trans h), fun h => ih.state.2 (hstate.symm.trans h)⟩
      · constructor <;> intro heq <;> cases hstate.symm.trans heq

/-- The session has nothing to lose when its host socket goes. -/
def Spare (c : Ctx) : Prop := HostGone c.view ∨ c.s.unwritten = []

theorem DrainPath.unwritten {x y : Obs} (h : DrainPath x y) (hx : x.s.unwritten = []) :
    y.s.unwritten = [] := by
  induction h with
  | refl => exact hx
  | tail _ hstep ih =>
    cases hstep with
    | write data rest hdata =>
      rw [ih] at hdata
      obtain ⟨rfl, -⟩ := List.nil_eq_append_iff.mp hdata
      exact ih
    | zero | clear => rfl
    | blocked | fail => exact ih

theorem Path.unwritten {c c' : Ctx} (h : Path c.view c'.view) : c'.s.unwritten = c.s.unwritten := by
  have hbuf : ∀ {v v' : View}, Path v v' →
      v'.recv.toHost.drop v'.recv.toHostOff = v.recv.toHost.drop v.recv.toHostOff := by
    intro v v' h
    induction h with
    | refl => rfl
    | tail _ hstep ih => rw [hstep.toHost.1, hstep.toHost.2, ih]
  exact hbuf h

theorem Spare.moves {w : Bool} {c c' : Ctx} (h : Moves w c c') (hc : Spare c) : Spare c' := by
  induction h with
  | refl => exact hc
  | @tail c₁ _ _ hmove ih =>
    cases hmove with
    | path hpath => exact ih.imp (.path hpath) (Path.unwritten hpath).trans
    | drain =>
      exact ih.imp (.hostPath (tryDrainToHost_path c₁)) (tryDrainToHost_drain c₁).unwritten
    | wake _ =>
      refine ih.imp (fun h => ?_) (tryDrainToHost_drain c₁.setWritable).unwritten
      exact HostGone.hostPath (tryDrainToHost_path c₁.setWritable) ⟨h.host, h.state⟩

theorem completesClose_state {s : TcpSession} {seg : Bytes} (h : s.completesClose seg = true) :
    s.state ≠ .synRcvd ∧ s.state ≠ .established := by
  unfold TcpSession.completesClose at h
  split at h <;> simp_all

theorem Work.spare {took : Bool} {seg data : Bytes} {c c' : Ctx}
    (h : Work took (TcpHeader.seq seg) data c c') (hdone : c.s.completesClose seg = true)
    (hempty : c.s.unwritten = []) (htook : took = true → c.s.hostWritable = true ∧
      Adds c.io.trace c'.io.trace fun a => a.stalls = false) : Spare c' := by
  obtain ⟨c₁, c₂, hpre, htaken, hmoves⟩ := h
  refine Spare.moves hmoves ?_
  cases htaken with
  | skip => exact .inr ((Path.unwritten hpre.path).trans hempty)
  | data hne _ =>
    refine Spare.moves (w := false) (emitAck_moves _) ?_
    have hstate := completesClose_state hdone
    have hpath := handleDataIn_path c₁ (TcpHeader.seq seg) data
    cases hhost : c.s.host with
    | false =>
      have hgone : HostGone c.view := ⟨hhost, hstate⟩
      exact .inl (.hostPath hpath (.path hpre.path hgone))
    | true =>
      obtain ⟨hwritable, hcalm⟩ := htook rfl
      have hvars := (hpre.kept.resolve_left hstate.1).1
      have hdrained : Drained c₁ := by
        refine ⟨?_, ?_, (Path.unwritten hpre.path).trans hempty⟩
        · rw [hvars]; exact hhost
        · rw [hvars]; exact hwritable
      obtain ⟨-, hdrained⟩ | hstalled :=
        handleDataIn_flows (.inl ⟨List.prefix_refl _, hdrained⟩) (TcpHeader.seq seg) data
      · exact .inr hdrained.empty
      · obtain ⟨before, hbefore, -⟩ := hpre.path.towardsHost
        obtain ⟨after, hafter, -⟩ := Moves.guarded ((emitAck_moves _).trans hmoves)
        have hlate : Stalled c₁.io.trace c' :=
          hstalled.extend (P := fun _ => True) ⟨after, hafter, fun _ _ => trivial⟩
        exact absurd hcalm (hlate.not_calm hbefore)

theorem Ending.drops {final : Prop} {c c' : Ctx} (h : Ending final c c') (hkey : c.s.key.IsV4)
    (hspare : final → Spare c) (hclean : Unbroken c'.io.trace)
    (hc : ∀ a ∈ c.io.trace, a.DropsDrained) : ∀ a ∈ c'.io.trace, a.DropsDrained := by
  have habort : Unbroken c.abort.io.trace → False := by
    intro hno
    obtain ⟨acts, hacts, hobs⟩ := abort_obs c
    obtain ⟨a, ha, hrst⟩ := hacts.isRst hkey
    have hmem : a ∈ c.abort.io.trace := by
      rw [show c.abort.io.trace = _ from congrArg Obs.trace hobs]
      simp [Obs.closed, ha]
    rw [(hno a hmem).1] at hrst
    cases hrst
  have hdrop : final → ∀ s : TcpSession, s.host = c.s.host → s.unwritten = c.s.unwritten →
      ∀ a ∈ dropActs s, a.DropsDrained := by
    intro hf s hhost hbuf a ha
    obtain ⟨rfl, hopen⟩ := mem_dropActs ha
    obtain hgone | hempty := hspare hf
    · cases hopen.symm.trans (hhost.trans hgone.host)
    · exact hbuf.trans hempty
  cases h with
  | stay => exact hc
  | abort => exact (habort hclean).elim
  | abortClosed => exact (habort (@Unbroken.of_append _ [.hostClosed] hclean)).elim
  | close hf =>
    rw [show c.markClosed.io.trace = _ from congrArg Obs.trace (markClosed_obs c)]
    refine List.forall_mem_append.mpr ⟨hc, List.forall_mem_cons.mpr ⟨trivial, ?_⟩⟩
    exact hdrop hf { c.s with state := .closed } rfl rfl
  | timeWait hf now hv =>
    have htrace : c'.io.trace = c.io.trace ++ dropActs (c.toTimeWait now).s :=
      (congrArg View.trace hv).trans (congrArg Obs.trace (closeHostSocket_obs (c.toTimeWait now)))
    rw [htrace]
    exact List.forall_mem_append.mpr ⟨hc, hdrop hf (c.toTimeWait now).s rfl rfl⟩

theorem Guarded.drops {t t' : List Action} (h : Guarded t t')
    (herr : t'.any Action.isWriteErr = false) (ht : ∀ a ∈ t, a.DropsDrained) :
    ∀ a ∈ t', a.DropsDrained := by
  obtain ⟨acts, rfl, hacts⟩ := h
  rw [List.any_append, Bool.or_eq_false_iff] at herr
  refine List.forall_mem_append.mpr ⟨ht, fun a ha => ?_⟩
  have hopen := hacts herr.2 a ha
  cases a <;> trivial

theorem Adds.of_newActs {c c₁ c' : Ctx} (h₁ : ∃ acts, c₁.io.trace = c.io.trace ++ acts)
    (h' : ∃ acts, c'.io.trace = c₁.io.trace ++ acts) {f : Action → Bool}
    (hf : (newActs c c').any f = false) : Adds c.io.trace c₁.io.trace fun a => f a = false := by
  obtain ⟨acts, hacts⟩ := h₁
  obtain ⟨rest, hrest⟩ := h'
  refine ⟨acts, hacts, fun a ha => ?_⟩
  unfold newActs at hf
  rw [hrest, hacts, List.append_assoc, List.drop_left, List.any_append, Bool.or_eq_false_iff] at hf
  exact eq_false_of_ne_true (List.any_eq_false.mp hf.1 a ha)

/-- One event of a run in which closes complete with everything written. -/
theorem step_drops {c : Ctx} {i : Input} (hout : Outcome (c.load i.oracle) i.event (c.step i))
    (hinv : HostInv c.view) (hcond : ClosesDrained c i i.event) (hrst : i.event.isRst = false)
    (hclean : Unbroken (c.step i).io.trace) (hc : ∀ a ∈ c.io.trace, a.DropsDrained) :
    ∀ a ∈ (c.step i).io.trace, a.DropsDrained := by
  have hstable := hostInv_stable
  -- The work before the end of the event closes nothing, since no write failed in it.
  have hwork : ∀ {c₁ : Ctx} {final : Prop}, Guarded c.io.trace c₁.io.trace → HostInv c₁.view →
      (final → Spare c₁) → Ending final c₁ (c.step i) →
      ∀ a ∈ (c.step i).io.trace, a.DropsDrained := by
    intro c₁ final hguard hinv₁ hspare hend
    obtain ⟨rest, hrest⟩ := hend.extends
    have hclean₁ : Unbroken c₁.io.trace := @Unbroken.of_append _ rest (hrest ▸ hclean)
    exact hend.drops hinv₁.key hspare hclean (hguard.drops (hinv₁.custody hclean₁).noErr hc)
  generalize hc' : c.step i = c' at hout hwork ⊢
  generalize i.event = ev at hout hcond hrst
  cases hout with
  | @segment seg took c₁ _ hw hend =>
    refine hwork hw.guarded (hstable.kept.work hw hinv) ?_ hend
    rintro (hflag | ⟨hdone, htook⟩)
    · cases hrst.symm.trans hflag
    · obtain ⟨hempty, htaken⟩ := hcond hdone
      refine hw.spare hdone hempty fun ht => ?_
      obtain ⟨hwritable, hcalm⟩ := htaken (htook.symm.trans ht)
      obtain ⟨acts, hacts, -⟩ := hw.guarded
      rw [hc'] at hcalm
      exact ⟨hwritable, .of_newActs (c := c.load i.oracle) ⟨acts, hacts⟩ hend.extends hcalm⟩
  | host h hend =>
    have hguard := Moves.guarded h
    exact hwork hguard (hstable.kept.moves h hinv) False.elim hend
  | tick h hend =>
    have hguard := Path.guarded h
    refine hwork hguard (hstable.kept.path h hinv) (fun hwait => .inl ?_) hend
    refine HostGone.path h ⟨hinv.gone hwait, ?_⟩
    constructor <;> intro heq <;> cases hwait.symm.trans heq
  | windowUpdate h =>
    have hguard := Path.guarded h
    exact hwork hguard (hstable.kept.path h hinv) False.elim .stay

/-! ## Runs -/

theorem Outcome.extends {c c' : Ctx} {ev : Event} (h : Outcome c ev c') :
    ∃ acts, c'.io.trace = c.io.trace ++ acts := by
  have htrans : ∀ {c₁ : Ctx} {final : Prop}, Guarded c.io.trace c₁.io.trace → Ending final c₁ c' →
      ∃ acts, c'.io.trace = c.io.trace ++ acts := by
    intro c₁ final hguard hend
    obtain ⟨acts, hacts, -⟩ := hguard
    obtain ⟨rest, hrest⟩ := hend.extends
    exact ⟨acts ++ rest, by rw [hrest, hacts, List.append_assoc]⟩
  cases h with
  | segment h hend => exact htrans h.guarded hend
  | host h hend => exact htrans (Moves.guarded h) hend
  | tick h hend => exact htrans (Path.guarded h) hend
  | windowUpdate h => exact @htrans _ False (Path.guarded h) .stay

theorem Started.hostInv {key : FlowKey} (hkey : key.IsV4) {v : View} (h : Started key v) :
    HostInv v := by
  have hfields : v.key = key ∧ v.state = .synRcvd ∧ v.recv.toHost = [] ∧ v.recv.toHostOff = 0 := by
    cases h <;> exact ⟨rfl, rfl, rfl, rfl⟩
  have hapart : ∀ a ∈ v.trace, a.Apart := fun a ha => .of_towardsHost (h.towardsHost a ha)
  have hfresh : Custody {} [] := ⟨Nat.le_refl 0, rfl, rfl⟩
  refine ⟨hfields.1 ▸ hkey, fun _ => ?_, fun hwait => ?_⟩
  · exact hfresh.apart ⟨v.trace, rfl, hapart⟩ hfields.2.2.1 hfields.2.2.2
  · cases hfields.2.1.symm.trans hwait

/-- What runs whose closes complete with everything written keep. -/
structure Lossless (c : Ctx) : Prop where
  inv : HostInv c.view
  noZero : ∀ a ∈ c.io.trace, a.isWriteZero = false
  drops : (∀ a ∈ c.io.trace, a.isRst = false) → ∀ a ∈ c.io.trace, a.DropsDrained

theorem Lossless.unbroken {c : Ctx} (h : Lossless c) (hrst : ∀ a ∈ c.io.trace, a.isRst = false) :
    Unbroken c.io.trace := fun a ha => ⟨hrst a ha, h.noZero a ha⟩

theorem Lossless.step {c : Ctx} {i : Input}
    (hout : Outcome (c.load i.oracle) i.event (c.step i)) (h : Lossless c) (horderly : Orderly c i)
    (hrst : i.event.isRst = false) : Lossless (c.step i) := by
  obtain ⟨acts, hacts⟩ : ∃ acts, (c.step i).io.trace = c.io.trace ++ acts := hout.extends
  have hzero : ∀ a ∈ (c.step i).io.trace, a.isWriteZero = false := by
    have hnew := horderly.1
    unfold newActs at hnew
    rw [hacts, List.drop_left] at hnew
    rw [hacts]
    refine List.forall_mem_append.mpr ⟨h.noZero, fun a ha => ?_⟩
    exact eq_false_of_ne_true (List.any_eq_false.mp hnew a ha)
  refine ⟨hostInv_stable.outcome hout h.inv, hzero, fun hno => ?_⟩
  have hbefore : ∀ a ∈ c.io.trace, a.isRst = false :=
    fun a ha => hno a (hacts ▸ List.mem_append_left _ ha)
  exact step_drops hout h.inv horderly.2 hrst (fun a ha => ⟨hno a ha, hzero a ha⟩) (h.drops hbefore)

theorem Accepted.lossless {key : FlowKey} {c₀ : Ctx} (h : Accepted key c₀) : Lossless c₀ := by
  have hacts := h.started.towardsHost
  refine ⟨h.started.hostInv h.1, fun a ha => ?_, fun _ a ha => ?_⟩
  · have hside := hacts a ha
    cases a <;> first | rfl | cases hside
  · have hside := hacts a ha
    cases a <;> trivial

/-- In every run in which no write returns `Ok(0)` and closes complete with everything written, as
long as no RST is sent or received, no byte on its way to the host is lost. -/
theorem nothing_lost {key : FlowKey} {c₀ : Ctx} (h₀ : Accepted key c₀) {inputs : List Input}
    (hin : ∀ i ∈ inputs, i.event.isRst = false)
    (hout : ∀ a ∈ (c₀.run inputs).io.trace, a.isRst = false)
    (horderly : Each (fun pre i => Orderly (c₀.run pre) i) inputs) :
    NothingLost (c₀.run inputs) := by
  have hrun : Lossless (c₀.run inputs) := by
    refine run_induction (Q := fun c i => Orderly c i ∧ i.event.isRst = false) h₀.lossless
      (fun c i _ hstep hq h => h.step hstep hq.1 hq.2) ?_
    rintro pre i post rfl
    exact ⟨horderly pre i post rfl, hin i (by simp)⟩
  exact ⟨(hrun.inv.custody (hrun.unbroken hout)).bytes, hrun.drops hout⟩

/-! ## Concrete runs -/

/-- An established session whose host accepts writes takes the bytes 7 and 8, one at a time, and
closes: the host's end first, then the client's. -/
def orderlyInputs : List Input :=
  [sampleAck 1000, ⟨.host { isWritable := true }, {}⟩,
    ⟨.segment (clientSegment sampleKey TCP_ACK 101 1 1000 [] [7, 8]), { writes := [.ok 1, .ok 1] }⟩,
    ⟨.host { isReadable := true }, { reads := [.ok []] }⟩,
    ⟨.segment (clientSegment sampleKey (TCP_FIN ||| TCP_ACK) 103 2 1000 [] [9]),
      { writes := [.ok 1] }⟩]

theorem nothing_lost_orderly :
    writtenOf ((sampleStart 1000 []).run orderlyInputs).io.trace = [7, 8, 9] ∧
      ((sampleStart 1000 []).run orderlyInputs).s.state = .timeWait ∧
      NothingLost ((sampleStart 1000 []).run orderlyInputs) :=
  ⟨by decide +kernel, by decide +kernel, nothing_lost (sampleStart_accepted _ _ (by decide))
    (by decide +kernel) (by decide +kernel) (by decide +kernel)⟩

/-- The client sends the byte 7 and closes while the host is not writable; the host's end of stream
and the ACK of the session's FIN then close the session with the byte unwritten. -/
def unwrittenClose : List Input :=
  [sampleAck 1000,
    ⟨.segment (clientSegment sampleKey (TCP_FIN ||| TCP_ACK) 101 1 1000 [] [7]), {}⟩,
    ⟨.host { isReadable := true }, { reads := [.ok []] }⟩,
    ⟨.segment (clientSegment sampleKey TCP_ACK 103 2 1000 [] []), {}⟩]

/-- The host answers the write of the byte 7 with `Ok(0)`. -/
def zeroWrite : List Input :=
  [sampleAck 1000, ⟨.host { isWritable := true }, {}⟩,
    ⟨.segment (clientSegment sampleKey TCP_ACK 101 1 1000 [] [7]), { writes := [.ok 0] }⟩]

theorem acknowledged_byte_lost :
    ¬ ∀ (key : FlowKey) (c₀ : Ctx) (inputs : List Input), Accepted key c₀ →
      (∀ i ∈ inputs, i.event.isRst = false) →
        (∀ a ∈ (c₀.run inputs).io.trace, a.isRst = false) → NothingLost (c₀.run inputs) := by
  intro hall
  have hlost := hall sampleKey _ unwrittenClose (sampleStart_accepted 1000 [] (by decide))
    (by decide +kernel) (by decide +kernel)
  exact absurd hlost (by decide +kernel)

example : writtenOf ((sampleStart 1000 []).run zeroWrite).io.trace = [] ∧
    ((sampleStart 1000 []).run zeroWrite).s.unwritten = [] ∧
    enqueuedOf ((sampleStart 1000 []).run zeroWrite).io.trace = [7] := by decide +kernel

end BaleVpn.Tcp
