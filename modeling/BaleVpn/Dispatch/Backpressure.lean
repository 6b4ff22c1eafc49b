import BaleVpn.Carrier.Outbound
import BaleVpn.Dispatch.Nat
import BaleVpn.Tcp.AdvertisedWindow
import BaleVpn.Tcp.WellFormed

/-!
# Back-pressure (`nat/dispatcher.rs`, `lib.rs`)

Every sweep looks how full the send queue of the tunnel is and makes one window scale of it for all TCP
sessions. A session reads the scale whenever it builds a segment, so that what the last sweep found bounds every
window until the next one. A sweep that raises the scale by enough, or from zero, has each session that may still
receive send an ACK at once.

An ACK on request is still under silly-window avoidance: what it announces is within one MSS of what there is.
-/

namespace BaleVpn.Dispatch

open Carrier Lib Net Tcp

/-! ## The scale -/

def globalRwndLo : UInt16 := 500
def globalRwndHi : UInt16 := 900
def rwndGrewThreshold : UInt16 := 100

/-- What the sampler of `set_pressure_fn` finds: there is none, its tunnel is gone, or a send queue with so many
free slots. -/
inductive Sample
  | unset
  | gone
  | capacity (free : ℕ)
  deriving DecidableEq, Repr

/-- The used part of the queue, in thousandths. -/
def Sample.pressure : Sample → UInt16
  | .unset | .gone => 0
  | .capacity free => ((SEND_QUEUE_CAP - min free SEND_QUEUE_CAP) * 1000 / max SEND_QUEUE_CAP 1).toUInt16

/-- The scale formula of `update_global_rwnd_scale`. -/
def rwndScale (pressure : UInt16) : UInt16 :=
  if pressure ≤ globalRwndLo then globalRwndScaleFull
  else if pressure ≥ globalRwndHi then 0
  else
    let num := (globalRwndHi - pressure).toUInt32 * globalRwndScaleFull.toUInt32
    let den := (globalRwndHi - globalRwndLo).toUInt32
    (num / den).toUInt16

/-- `NatDispatcher` with its window scale. -/
structure Throttled where
  nat : NatDispatcher := {}
  globalRwndScale : UInt16 := globalRwndScaleFull
  lastRwndScale : UInt16 := globalRwndScaleFull

inductive ThrottledMove
  | packet (bytes : Bytes) (o : NatOracle)
  | host (k : FlowKey) (ev : HostEvent) (o : Oracle)
  | sweep (sample : Sample) (now udpIdleMs : UInt32) (o : FlowKey → Oracle)

namespace Throttled

/-- `update_global_rwnd_scale`, with whether it fans out. -/
def updateGlobalRwndScale (d : Throttled) (sample : Sample) : Bool × Throttled :=
  let scale := rwndScale sample.pressure
  let prev := d.lastRwndScale
  let unblocked := prev == 0 && scale > 0
  let grew := scale > prev && scale - prev ≥ rwndGrewThreshold
  (unblocked || grew, { d with globalRwndScale := scale, lastRwndScale := scale })

/-- The outside of a session, which holds the dispatcher's scale. -/
def oracle (d : Throttled) (o : Oracle) : Oracle := { o with rwndScale := d.globalRwndScale }

def step (d : Throttled) : ThrottledMove → Throttled × NatLog
  | .packet bytes o =>
    let (_, nat, log) := d.nat.process bytes { o with rwndScale := d.globalRwndScale }
    ({ d with nat }, log)
  | .host k ev o =>
    let (nat, log) := d.nat.onHostEvent k ev (d.oracle o)
    ({ d with nat }, log)
  | .sweep sample now udpIdleMs o =>
    let (fanOut, d) := d.updateGlobalRwndScale sample
    let (nat, log) := d.nat.sweepIdle now udpIdleMs fanOut fun k => d.oracle (o k)
    ({ d with nat }, log)

def run (ms : List ThrottledMove) : Throttled := ms.foldl (fun d m => (d.step m).1) {}

end Throttled

/-- The scale by the last sample. -/
def sampledScale (ms : List ThrottledMove) : UInt16 :=
  ms.foldl (fun scale m =>
    match m with
    | .sweep sample _ _ _ => rwndScale sample.pressure
    | _ => scale) globalRwndScaleFull

/-- The states in which `fan_out_window_update` sends an ACK. -/
def Receiving (st : TcpState) : Prop := st ∈ [.established, .closeWait, .finWait1, .finWait2]

/-- The session has sent an ACK whose window is the one of the moment, but for silly-window avoidance. -/
def Announced (c : Ctx) (scale : UInt16) (acts : List Action) : Prop :=
  ∃ s b pkt ok, .emit .ack s b pkt ok ∈ acts ∧ b.flags = TCP_ACK ∧
    b.window.toNat ≤ (c.s.wireWindow TCP_ACK scale).toNat ∧
    (c.s.wireWindow TCP_ACK scale).toNat ≤ b.window.toNat + c.s.peerMss.toNat

/-! ## The formula -/

theorem rwndScale_toNat (p : UInt16) : (rwndScale p).toNat = min 1000 ((900 - p.toNat) * 1000 / 400) := by
  have hlo : p ≤ globalRwndLo ↔ p.toNat ≤ 500 := UInt16.le_iff_toNat_le
  have hhi : p ≥ globalRwndHi ↔ 900 ≤ p.toNat := UInt16.le_iff_toNat_le
  have hfull : globalRwndScaleFull.toNat = 1000 := rfl
  unfold rwndScale
  split_ifs with h500 h900
  · rw [hlo] at h500
    omega
  · rw [hhi] at h900
    rw [UInt16.toNat_zero]
    omega
  · rw [hlo] at h500
    rw [hhi] at h900
    have hsub : (globalRwndHi - p).toNat = 900 - p.toNat :=
      UInt16.toNat_sub_of_le _ _ (UInt16.le_iff_toNat_le.mpr (by show p.toNat ≤ 900; omega))
    have hnum : ((globalRwndHi - p).toUInt32 * globalRwndScaleFull.toUInt32).toNat = (900 - p.toNat) * 1000 := by
      rw [UInt32.toNat_mul, UInt16.toNat_toUInt32, UInt16.toNat_toUInt32, hsub, hfull]
      exact Nat.mod_eq_of_lt (by omega)
    have hden : (globalRwndHi - globalRwndLo).toUInt32.toNat = 400 := rfl
    simp only [UInt32.toNat_toUInt16, UInt32.toNat_div, hnum, hden]
    omega

theorem rwndScale_antitone {p q : UInt16} (h : p ≤ q) : rwndScale q ≤ rwndScale p := by
  rw [UInt16.le_iff_toNat_le, rwndScale_toNat, rwndScale_toNat]
  have hpq := UInt16.le_iff_toNat_le.mp h
  omega

/-- The windows are left alone up to half of the queue, and shut from 58 of its 64 slots on. -/
theorem rwndScale_slots (free : ℕ) :
    (rwndScale (Sample.capacity free).pressure = globalRwndScaleFull ↔ 32 ≤ free) ∧
      (rwndScale (Sample.capacity free).pressure = 0 ↔ free ≤ 6) := by
  have hfull : globalRwndScaleFull.toNat = 1000 := rfl
  have hpressure : (Sample.capacity free).pressure.toNat = (64 - min free 64) * 1000 / 64 := by
    have hcap : max SEND_QUEUE_CAP 1 = 64 := rfl
    rw [Sample.pressure, hcap, SEND_QUEUE_CAP]
    exact Nat.mod_eq_of_lt (by omega)
  rw [← UInt16.toNat_inj, ← UInt16.toNat_inj, rwndScale_toNat, hpressure, hfull, UInt16.toNat_zero]
  omega

/-! ## One session -/

/-- An event under way in a session that reads `scale`, since the trace was `t`. -/
structure Throttling (scale : UInt16) (t : List Action) (c : Ctx) : Prop where
  shift : c.s.ownWscale.toNat < 32
  oracle : c.io.oracle.rwndScale = scale
  adds : Adds t c.io.trace (Action.HonestAt scale)

variable {scale : UInt16} {t : List Action} {c c' : Ctx}

theorem effect_throttling {p : Stage} (h : Effect p c c') (hc : Throttling scale t c) :
    Throttling scale t c' := by
  have hfix := h.fixed
  have hshift : c'.s.ownWscale = c.s.ownWscale := congrArg PeerOpts.ownWscale hfix.peer
  refine ⟨by rw [hshift]; exact hc.shift, hfix.scale.trans hc.oracle, hc.adds.trans ?_⟩
  refine h.adds.mono fun a ha => ?_
  obtain hless | ⟨cause, flags, seq, payload, options, -, hhands⟩ := ha
  · cases a with
    | emit cause s b pkt ok =>
      intro _ _
      rw [hless.2]
      exact honest_zero _ _ _
    | _ => trivial
  · cases hhands with
    | segment ts pkt ok =>
      intro hsyn hb
      have hhonest := framing_honest c hsyn hb hc.shift
      rwa [hc.oracle] at hhonest
    | arm d => trivial

theorem effects_throttling {p : Stage} (h : Effects p c c') (hc : Throttling scale t c) :
    Throttling scale t c' :=
  h.invariant (fun _ _ heff => effect_throttling heff) hc

theorem sackEffects_throttling (h : SackEffects c c') (hc : Throttling scale t c) : Throttling scale t c' := by
  induction h with
  | refl => exact hc
  | tail _ heff ih => cases heff <;> exact ⟨ih.shift, ih.oracle, ih.adds⟩

theorem readSyn_io (c : Ctx) (seg : Bytes) :
    (c.readSyn seg).io.oracle = c.io.oracle ∧ (c.readSyn seg).io.trace = c.io.trace := by
  unfold Ctx.readSyn Ctx.negotiate Ctx.startTimestamps
  simp only
  split_ifs <;> exact ⟨rfl, rfl⟩

/-- A SYN may restart a closed session with another shift, but never one beyond 4. -/
theorem prepareSyn_throttling (hc : Throttling scale t c) (seg : Bytes) :
    Throttling scale t (c.prepareSyn seg) := by
  obtain ⟨isn, peer, hread, hpeer, -⟩ := readSyn_view c seg
  obtain ⟨horacle, htrace⟩ := readSyn_io c seg
  have hwscale : (c.readSyn seg).s.ownWscale = c.s.ownWscale :=
    (congrArg (fun v : View => v.peer.ownWscale) hread).trans hpeer
  have hio : (c.prepareSyn seg).io = (c.readSyn seg).io := rfl
  constructor
  · change (if (c.readSyn seg).s.peerWsOk then 4 else (c.readSyn seg).s.ownWscale).toNat < 32
    split_ifs
    · decide
    · rw [hwscale]
      exact hc.shift
  · rw [hio, horacle]
    exact hc.oracle
  · rw [hio, htrace]
    exact hc.adds

theorem acceptInitialSyn_throttling (hc : Throttling scale t c) (seg : Bytes) :
    Throttling scale t (c.acceptInitialSyn seg).2 := by
  unfold Ctx.acceptInitialSyn
  simp only
  split
  · exact hc
  · obtain ⟨opts, n, -, hopts⟩ := synAckOptions_spec (c.prepareSyn seg)
    have hprep := prepareSyn_throttling hc seg
    generalize c.prepareSyn seg = c₁ at hopts hprep ⊢
    have hstart : Throttling scale t { c₁ with io.readings := n } := ⟨hprep.shift, hprep.oracle, hprep.adds⟩
    simp only [hopts]
    generalize ({ c₁ with io.readings := n } : Ctx) = c₂ at hstart ⊢
    exact effects_throttling (sendSynAck_effects c₂ opts) hstart

theorem onSegment_throttling (hc : Throttling scale t c) (seg : Bytes) :
    Throttling scale t (c.onSegment seg).2 := by
  by_cases hclosed : c.s.state = .closed
  · unfold Ctx.onSegment
    split
    · exact hc
    · simp only
      split
      · exact hc
      · have hpre := sackEffects_throttling (preprocess_effects c ((seg.take (TcpHeader.dataOff seg)).drop 20)
          (TcpHeader.seq seg)) hc
        have hstate := preprocess_state c ((seg.take (TcpHeader.dataOff seg)).drop 20) (TcpHeader.seq seg)
        generalize c.preprocess ((seg.take (TcpHeader.dataOff seg)).drop 20) (TcpHeader.seq seg) = c₁
          at hpre hstate ⊢
        rw [hclosed] at hstate
        rw [hstate]
        split
        · exact effect_throttling (p := .rest) (.quiet (markClosed_quiet c₁)) hpre
        · exact acceptInitialSyn_throttling hpre seg
  · exact (onSegment_stages c hclosed seg).invariant (fun _ _ _ heff => effect_throttling heff)
      (fun _ _ heff => sackEffects_throttling (.single heff)) hc

theorem sweep_throttling (hc : Throttling scale t c) (now : UInt32) (fanOut : Bool) :
    Throttling scale t ((if fanOut then c.fanOutWindowUpdate else c).tick now).2 := by
  refine effects_throttling (tick_effects _ now) ?_
  split
  · exact effects_throttling (p := .rest) (fanOutWindowUpdate_effects c) hc
  · exact hc

theorem Throttling.acts (h : Throttling scale c.io.trace c') : ∀ a ∈ newActs c c', a.HonestAt scale := by
  obtain ⟨acts, htrace, hall⟩ := h.adds
  rw [newActs_append htrace]
  exact hall

theorem emitAck_announces (c : Ctx) (hkey : c.s.key.IsV4) : ∃ s b pkt ok,
    c.emitAck.io.trace = c.io.trace ++ [.emit .ack s b pkt ok] ∧ b.flags = TCP_ACK ∧
      b.window = (c.framing TCP_ACK).advWnd.toUInt16 := by
  have hhands := (emitSegment_handed c .ack TCP_ACK c.s.sndNxt [] false c.s.buildSackOption).adds
  obtain ⟨s, b, -, hframed, hemitted⟩ :=
    emitSegment_emitted c .ack TCP_ACK c.s.sndNxt [] false c.s.buildSackOption
  obtain ⟨pkt, hpkt⟩ := hframed.builds hkey (by rw [buildSackOption_length]; split <;> omega)
    (by rw [buildSackOption_length, List.length_nil]; split <;> omega)
  rw [show (c.emitSegment .ack TCP_ACK c.s.sndNxt [] false c.s.buildSackOption).2 = c.emitAck from rfl]
    at hhands hemitted
  generalize c.emitAck = c₁ at hhands hemitted ⊢
  have htrace : ∃ ok, c₁.io.trace = c.io.trace ++ [.emit .ack s b pkt ok] := by
    change ∃ ok, c₁.view.trace = _
    generalize c₁.view = v at hemitted
    generalize (c.emitSegment .ack TCP_ACK c.s.sndNxt [] false c.s.buildSackOption).1 = ok at hemitted
    cases hemitted with
    | unbuilt hb => cases hpkt.symm.trans hb
    | refused hb => exact ⟨false, by rw [← Option.some.inj (hb.symm.trans hpkt)]; rfl⟩
    | passed hb _ => exact ⟨true, by rw [← Option.some.inj (hb.symm.trans hpkt)]; rfl⟩
    | recorded _ _ hr => cases hr
  obtain ⟨ok, htrace⟩ := htrace
  obtain ⟨acts, hacts, hall⟩ := hhands
  obtain rfl := List.append_cancel_left (htrace.symm.trans hacts)
  refine ⟨s, b, pkt, ok, htrace, ?_⟩
  cases hall _ (List.mem_singleton_self _) with
  | segment ts _ _ => exact ⟨rfl, rfl⟩

/-- Silly-window avoidance holds back no more than one MSS. -/
theorem advertise_near (s : TcpSession) {w : UInt32} (hw : w.toNat ≤ 65535) :
    w.toNat ≤ (s.advertise w).advWnd.toNat + s.peerMss.toNat := by
  have hmss := s.peerMss.toNat_lt
  unfold TcpSession.advertise
  split
  · exact Nat.le_add_right _ _
  · rename_i hkeep
    simp only [Bool.or_eq_true, decide_eq_true_eq, not_or] at hkeep
    have hdown := Nat.not_lt.mp (mt UInt32.lt_iff_toNat_lt.mpr hkeep.1.2)
    have hup := Nat.not_le.mp (mt UInt32.le_iff_toNat_le.mpr hkeep.2)
    rw [UInt32.toNat_add, UInt16.toNat_toUInt32, Nat.mod_eq_of_lt (by omega)] at hup
    exact hup.le

theorem framing_near (c : Ctx) :
    (c.framing TCP_ACK).advWnd.toUInt16.toNat ≤ (c.s.wireWindow TCP_ACK c.io.oracle.rwndScale).toNat ∧
      (c.s.wireWindow TCP_ACK c.io.oracle.rwndScale).toNat ≤
        (c.framing TCP_ACK).advWnd.toUInt16.toNat + c.s.peerMss.toNat := by
  have hmax := wireWindow_le_max c.s TCP_ACK c.io.oracle.rwndScale
  have hle := UInt32.le_iff_toNat_le.mp (advertise_le c.s (c.s.wireWindow TCP_ACK c.io.oracle.rwndScale))
  have hnear := advertise_near c.s hmax
  have hcast : (c.framing TCP_ACK).advWnd.toUInt16.toNat = (c.framing TCP_ACK).advWnd.toNat := by
    rw [UInt32.toNat_toUInt16]
    exact Nat.mod_eq_of_lt (Nat.lt_of_le_of_lt (hle.trans hmax) (by decide))
  rw [hcast]
  exact ⟨hle, hnear⟩

/-! ## The table -/

structure TableSound (t : TcpTable) : Prop where
  guarded : TableGuarded t
  flow : ∀ k c, t k = some c → k.IsV4
  shift : ∀ k c, t k = some c → c.s.ownWscale.toNat < 32

/-- The sessions see `scale` during the event. -/
def ReadsScale (scale : UInt16) : TableEvent → Prop
  | .segment _ _ o => o.rwndScale = scale
  | .host _ _ o => o.rwndScale = scale
  | .sweep _ _ o => ∀ k, (o k).rwndScale = scale

variable {tab : TcpTable} {k : FlowKey}

theorem load_throttling (hshift : c.s.ownWscale.toNat < 32) (o : Oracle) :
    Throttling o.rwndScale c.io.trace (c.load o) := ⟨hshift, rfl, .none⟩

theorem new_throttling (k : FlowKey) (o : Oracle) :
    Throttling o.rwndScale [] (Ctx.load { s := .new k } o) :=
  ⟨show ({} : PeerOpts).ownWscale.toNat < 32 by decide, rfl, .none⟩

theorem TableSound.acts (h : TableSound tab) {e : TableEvent} (he : ReadsScale scale e) (k : FlowKey) :
    ∀ a ∈ tcpActs tab k e, a.HonestAt scale := by
  intro a ha
  unfold tcpActs at ha
  cases e with
  | segment k' seg o =>
    obtain rfl : o.rwndScale = scale := he
    simp only at ha
    split at ha
    · cases ha
    · split at ha
      · next c hmem => exact (onSegment_throttling (load_throttling (h.shift k c hmem) o) seg).acts a ha
      · split at ha
        · cases ha
        · obtain ⟨acts, htrace, hall⟩ := (onSegment_throttling (new_throttling k o) seg).adds
          rw [htrace, List.nil_append] at ha
          exact hall a ha
  | host k' ev o =>
    obtain rfl : o.rwndScale = scale := he
    simp only at ha
    split at ha
    · cases ha
    · split at ha
      · next c hmem =>
        exact (effects_throttling (p := .rest) (onHostEvent_effects (c.load o) ev)
          (load_throttling (h.shift k c hmem) o)).acts a ha
      · cases ha
  | sweep now fanOut o =>
    obtain rfl := he k
    simp only at ha
    split at ha
    · next c hmem => exact (sweep_throttling (load_throttling (h.shift k c hmem) (o k)) now fanOut).acts a ha
    · cases ha

theorem TableSound.set (h : TableSound tab) {e : Option Ctx} (hguarded : TableGuarded (tab.set k e))
    (he : ∀ c, e = some c → k.IsV4 ∧ c.s.ownWscale.toNat < 32) : TableSound (tab.set k e) := by
  refine ⟨hguarded, fun k' c hmem => ?_, fun k' c hmem => ?_⟩
  all_goals
    unfold TcpTable.set at hmem
    split at hmem
  · next hk => exact hk ▸ (he c hmem).1
  · exact h.flow k' c hmem
  · exact (he c hmem).2
  · exact h.shift k' c hmem

theorem TableSound.deliver (h : TableSound tab) (hflow : k.IsV4) (seg : Bytes)
    (hguarded : TableGuarded (tab.deliver k seg c).2) (hc : Throttling scale t c) :
    TableSound (tab.deliver k seg c).2 := by
  refine h.set hguarded fun c₁ hc₁ => ⟨hflow, ?_⟩
  split at hc₁
  · cases hc₁
  · obtain rfl := Option.some.inj hc₁
    exact (onSegment_throttling hc seg).shift

theorem TableSound.segment (h : TableSound tab) (hflow : k.IsV4) (seg : Bytes) (o : Oracle) :
    TableSound (tab.step (.segment k seg o)) := by
  have hguarded := step_guarded h.guarded (.segment k seg o)
  change TableGuarded (handleTcp tab k seg o).2 at hguarded
  change TableSound (handleTcp tab k seg o).2
  unfold handleTcp at hguarded ⊢
  split
  · exact h
  · next hlen =>
    rw [if_neg hlen] at hguarded
    split
    · next c hmem =>
      rw [hmem] at hguarded
      exact h.deliver hflow seg hguarded (load_throttling (h.shift k c hmem) o)
    · next hnone =>
      rw [hnone] at hguarded
      split
      · exact h
      · next hflags =>
        simp only [hflags] at hguarded
        exact h.deliver hflow seg hguarded (new_throttling k o)

theorem TableSound.host (h : TableSound tab) (k : FlowKey) (ev : HostEvent) (o : Oracle) :
    TableSound (tab.step (.host k ev o)) := by
  have hguarded := step_guarded h.guarded (.host k ev o)
  change TableGuarded (tab.onHostEvent k ev o) at hguarded
  change TableSound (tab.onHostEvent k ev o)
  unfold TcpTable.onHostEvent at hguarded ⊢
  split
  · next c hmem =>
    rw [hmem] at hguarded
    refine h.set hguarded fun c₁ hc₁ => ?_
    obtain rfl := Option.some.inj hc₁
    exact ⟨h.flow k c hmem, (effects_throttling (p := .rest) (onHostEvent_effects (c.load o) ev)
      (load_throttling (h.shift k c hmem) o)).shift⟩
  · exact h

theorem TableSound.sweep (h : TableSound tab) (now : UInt32) (fanOut : Bool) (o : FlowKey → Oracle) :
    TableSound (tab.step (.sweep now fanOut o)) := by
  refine ⟨step_guarded h.guarded _, fun k c hmem => ?_, fun k c hmem => ?_⟩
  all_goals obtain ⟨c₀, hmem₀, hsweep⟩ := Option.bind_eq_some_iff.mp hmem
  · exact h.flow k c₀ hmem₀
  · have hc := sweep_throttling (load_throttling (h.shift k c₀ hmem₀) (o k)) now fanOut
    unfold sweepSession at hsweep
    simp only at hsweep
    generalize Ctx.tick _ now = r at hc hsweep
    obtain ⟨alive, c₁⟩ := r
    split at hsweep
    · obtain rfl := Option.some.inj hsweep
      exact hc.shift
    · cases hsweep

theorem fanOutWindowUpdate_receiving (hst : Receiving c.s.state) : c.fanOutWindowUpdate = c.emitAck := by
  unfold Ctx.fanOutWindowUpdate
  simp only [Receiving, List.mem_cons, List.not_mem_nil, or_false] at hst
  rcases hst with hst | hst | hst | hst <;> rw [hst]

theorem TableSound.announced (h : TableSound tab) (hmem : tab k = some c) (hst : Receiving c.s.state)
    (now : UInt32) {o : FlowKey → Oracle} (ho : (o k).rwndScale = scale) :
    Announced c scale (tcpActs tab k (.sweep now true o)) := by
  obtain rfl := ho
  have hkey : c.s.key = k := (h.guarded k c hmem).1
  obtain ⟨s, b, pkt, ok, htrace, hflags, hwindow⟩ := emitAck_announces (c.load (o k))
    (by rw [show (c.load (o k)).s.key = k from hkey]; exact h.flow k c hmem)
  have hfan : (c.load (o k)).fanOutWindowUpdate = (c.load (o k)).emitAck := fanOutWindowUpdate_receiving hst
  have hsent := effects_throttling (p := .rest) (fanOutWindowUpdate_effects (c.load (o k)))
    (load_throttling (h.shift k c hmem) (o k))
  rw [hfan] at hsent
  obtain ⟨acts, hticked, -⟩ := (effects_throttling (tick_effects (c.load (o k)).emitAck now)
    ⟨hsent.shift, hsent.oracle, .none⟩).adds
  have hacts : tcpActs tab k (.sweep now true o) = [.emit .ack s b pkt ok] ++ acts := by
    unfold tcpActs
    rw [hmem]
    simp only [if_true, hfan]
    refine newActs_append (c := c) ?_
    rw [hticked, htrace, List.append_assoc]
    rfl
  obtain ⟨hle, hnear⟩ := framing_near (c.load (o k))
  rw [← hwindow] at hle hnear
  rw [hacts]
  exact ⟨s, b, pkt, ok, List.mem_append_left _ (List.mem_singleton_self _), hflags, hle, hnear⟩

/-! ## Packets -/

theorem addrAt_isV4 (data : Bytes) (i : ℕ) : (addrAt data i).isV4 = true := rfl

theorem parse_isV4 {data : Bytes} {p : IpPacket} (h : IpPacket.parse data = some p) :
    p.src.isV4 = true ∧ p.dst.isV4 = true := by
  unfold IpPacket.parse at h
  simp only at h
  split_ifs at h
  obtain rfl := Option.some.inj h
  exact ⟨addrAt_isV4 _ _, addrAt_isV4 _ _⟩

theorem finish_parsed {e : FragEntry} {p : IpPacket} (h : e.finish = .rebuilt p) :
    ∃ data, IpPacket.parse data = some p := by
  unfold FragEntry.finish at h
  split at h
  · cases h
  · split at h
    · cases h
    · next hp =>
      obtain rfl := FragResult.rebuilt.inj h
      exact ⟨_, hp⟩

theorem handleFragment_rebuilt {frag : FragTable} {p q : IpPacket} {now : UInt32} {tie : ℕ}
    (h : (handleFragment frag p now tie).2 = .rebuilt q) : ∃ data, IpPacket.parse data = some q := by
  unfold handleFragment at h
  simp only at h
  split_ifs at h
  exact finish_parsed h

theorem routeL4_isV4 {p : IpPacket} (h : p.src.isV4 = true ∧ p.dst.isV4 = true) {seg : Bytes}
    (hroute : routeL4 p = .call (.tcp k seg)) : k.IsV4 := by
  unfold routeL4 at hroute
  split_ifs at hroute
  · cases hroute
  · obtain ⟨rfl, rfl⟩ := L4Call.tcp.inj (Routed.call.inj hroute)
    exact h

/-- A packet reaches the table as one segment of an IPv4 flow, or not at all. -/
inductive Reaches (n : NatDispatcher) (scale : UInt16) : NatDispatcher × NatLog → Prop
  | not {n' : NatDispatcher} {l : NatLog} (htcp : n'.tcp = n.tcp) (hlog : l.tcp = fun _ => []) :
      Reaches n scale (n', l)
  | segment {n' : NatDispatcher} {l : NatLog} {k : FlowKey} {seg : Bytes} {o : Oracle} (hk : k.IsV4)
      (ho : o.rwndScale = scale) (htcp : n'.tcp = n.tcp.step (.segment k seg o))
      (hlog : l.tcp = fun k' => tcpActs n.tcp k' (.segment k seg o)) : Reaches n scale (n', l)

theorem route_reaches (n : NatDispatcher) (frag : FragTable) (o : NatOracle) {p : IpPacket}
    (hp : p.src.isV4 = true ∧ p.dst.isV4 = true) :
    Reaches n o.rwndScale (({ n with frag } : NatDispatcher).route o (routeL4 p)).2 := by
  rcases hroute : routeL4 p with - | - | ⟨k, payload⟩ | ⟨k, seg⟩
  · exact .not rfl rfl
  · exact .not rfl rfl
  · exact .not rfl rfl
  · exact .segment (routeL4_isV4 hp hroute) rfl rfl rfl

theorem process_reaches (n : NatDispatcher) (bytes : Bytes) (o : NatOracle) :
    Reaches n o.rwndScale (n.process bytes o).2 := by
  unfold NatDispatcher.process
  split
  · exact .not rfl rfl
  · next p hparse =>
    split
    · split
      · exact .not rfl rfl
      · exact .not rfl rfl
      · next frag q hrebuilt =>
        obtain ⟨data, hq⟩ := handleFragment_rebuilt (congrArg Prod.snd hrebuilt)
        exact route_reaches n frag o.later (parse_isV4 hq)
    · exact route_reaches n n.frag o (parse_isV4 hparse)

/-! ## Runs -/

/-- The dispatcher after these moves: its table is sound, and both scales are the sampled one. -/
structure ThrottledSound (ms : List ThrottledMove) (d : Throttled) : Prop where
  table : TableSound d.nat.tcp
  global : d.globalRwndScale = sampledScale ms
  last : d.lastRwndScale = sampledScale ms

theorem sampledScale_snoc (ms : List ThrottledMove) (m : ThrottledMove) : sampledScale (ms ++ [m]) =
    match m with
    | .sweep sample _ _ _ => rwndScale sample.pressure
    | _ => sampledScale ms := by
  rw [sampledScale, List.foldl_append]
  rfl

theorem fansOut_iff (d : Throttled) (sample : Sample) : (d.updateGlobalRwndScale sample).1 = true ↔
    d.lastRwndScale = 0 ∧ 0 < rwndScale sample.pressure ∨
      d.lastRwndScale.toNat + 100 ≤ (rwndScale sample.pressure).toNat := by
  generalize hscale : rwndScale sample.pressure = new
  have hgrew : new > d.lastRwndScale ∧ new - d.lastRwndScale ≥ rwndGrewThreshold ↔
      d.lastRwndScale.toNat + 100 ≤ new.toNat := by
    have hthreshold : rwndGrewThreshold.toNat = 100 := rfl
    rw [gt_iff_lt, UInt16.lt_iff_toNat_lt, ge_iff_le, UInt16.le_iff_toNat_le, hthreshold]
    constructor
    · rintro ⟨hlt, hle⟩
      rw [UInt16.toNat_sub_of_le _ _ (UInt16.le_iff_toNat_le.mpr hlt.le)] at hle
      omega
    · intro hle
      refine ⟨by omega, ?_⟩
      rw [UInt16.toNat_sub_of_le _ _ (UInt16.le_iff_toNat_le.mpr (by omega))]
      omega
  rw [← hgrew]
  simp [Throttled.updateGlobalRwndScale, hscale]

theorem TableSound.reaches {n : NatDispatcher} (h : TableSound n.tcp) {r : NatDispatcher × NatLog}
    (hr : Reaches n scale r) :
    TableSound r.1.tcp ∧ ∀ k, ∀ a ∈ r.2.tcp k, a.HonestAt scale := by
  cases hr with
  | not htcp hlog =>
    refine ⟨htcp ▸ h, fun k a ha => ?_⟩
    rw [show _ = _ from congrFun hlog k] at ha
    cases ha
  | segment hk ho htcp hlog =>
    refine ⟨htcp ▸ h.segment hk _ _, fun k a ha => ?_⟩
    rw [show _ = _ from congrFun hlog k] at ha
    exact h.acts (e := .segment _ _ _) ho k a ha

theorem ThrottledSound.move {ms : List ThrottledMove} {d : Throttled} (h : ThrottledSound ms d)
    (m : ThrottledMove) : ThrottledSound (ms ++ [m]) (d.step m).1 ∧
      ∀ k, ∀ a ∈ (d.step m).2.tcp k, a.HonestAt (sampledScale (ms ++ [m])) := by
  rw [sampledScale_snoc]
  cases m with
  | packet bytes o =>
    obtain ⟨htable, hhonest⟩ := h.table.reaches
      (process_reaches d.nat bytes { o with rwndScale := d.globalRwndScale })
    refine ⟨⟨htable, ?_, ?_⟩, ?_⟩
    · rw [sampledScale_snoc]
      exact h.global
    · rw [sampledScale_snoc]
      exact h.last
    · rw [← h.global]
      exact hhonest
  | host k ev o =>
    refine ⟨⟨h.table.host k ev (d.oracle o), ?_, ?_⟩, ?_⟩
    · rw [sampledScale_snoc]
      exact h.global
    · rw [sampledScale_snoc]
      exact h.last
    · rw [← h.global]
      exact h.table.acts (e := .host k ev (d.oracle o)) rfl
  | sweep sample now udpIdleMs o =>
    have hscale : (d.updateGlobalRwndScale sample).2.globalRwndScale = rwndScale sample.pressure := rfl
    refine ⟨⟨h.table.sweep now _ _, ?_, ?_⟩, ?_⟩
    · rw [sampledScale_snoc]
      rfl
    · rw [sampledScale_snoc]
      rfl
    · exact h.table.acts (e := .sweep now _ _) fun _ => hscale

theorem ThrottledSound.announced {ms : List ThrottledMove} {d : Throttled} (h : ThrottledSound ms d)
    {sample : Sample} (now udpIdleMs : UInt32) (o : FlowKey → Oracle)
    (hgrew : sampledScale ms = 0 ∧ 0 < rwndScale sample.pressure ∨
      (sampledScale ms).toNat + 100 ≤ (rwndScale sample.pressure).toNat)
    (hmem : d.nat.tcp k = some c) (hst : Receiving c.s.state) :
    Announced c (rwndScale sample.pressure) ((d.step (.sweep sample now udpIdleMs o)).2.tcp k) := by
  rw [← h.last, ← fansOut_iff] at hgrew
  have hlog : (d.step (.sweep sample now udpIdleMs o)).2.tcp k =
      tcpActs d.nat.tcp k (.sweep now (d.updateGlobalRwndScale sample).1
        fun k => (d.updateGlobalRwndScale sample).2.oracle (o k)) := rfl
  rw [hlog, hgrew]
  exact h.table.announced hmem hst now rfl

theorem ThrottledSound.run (ms : List ThrottledMove) : ThrottledSound ms (Throttled.run ms) := by
  induction ms using List.reverseRecOn with
  | nil => exact ⟨⟨fun _ _ => nofun, fun _ _ => nofun, fun _ _ => nofun⟩, rfl, rfl⟩
  | append_singleton ms m ih =>
    rw [Throttled.run, List.foldl_append]
    exact (ih.move m).1

/-- In every run, whatever the sessions send in a move promises no more than the scale of the last sample leaves,
and a sweep whose scale leaves zero or grows by a tenth has every session that may still receive announce its
window, within one MSS of what there is. -/
theorem windows_follow_queue (ms : List ThrottledMove) :
    Each (fun pre m =>
      (∀ k, ∀ a ∈ ((Throttled.run pre).step m).2.tcp k, a.HonestAt (sampledScale (pre ++ [m]))) ∧
        ∀ sample now udpIdleMs o, m = .sweep sample now udpIdleMs o →
          (sampledScale pre = 0 ∧ 0 < rwndScale sample.pressure ∨
            (sampledScale pre).toNat + 100 ≤ (rwndScale sample.pressure).toNat) →
          ∀ k c, (Throttled.run pre).nat.tcp k = some c → Receiving c.s.state →
            Announced c (rwndScale sample.pressure) (((Throttled.run pre).step m).2.tcp k)) ms := by
  rintro pre m - -
  have h := ThrottledSound.run pre
  refine ⟨(h.move m).2, fun sample now udpIdleMs o hm hgrew k c hmem hst => ?_⟩
  subst hm
  exact h.announced now udpIdleMs o hgrew hmem hst

end BaleVpn.Dispatch
