import BaleVpn.Tcp.Congestion
import BaleVpn.Tcp.Phases

/-!
# A sender that drives itself

The invariant of the sender behind the progress of pending data: its window is sound, a queue that is
not empty has its RTO armed, and whatever `try_segment_and_emit` leaves pending has something in
flight.
-/

namespace BaleVpn.Tcp

open Net

/-! ## Stranding -/

/-- The callback refused a segment of an idle sender, or the RTO was armed at zero. -/
def Action.strands : Action → Bool
  | .emit .data s _ _ ok => !ok && s.retx.isEmpty
  | .armRto d => d == 0
  | _ => false

/-- Nothing in the trace strands pending data. -/
def Unstranded (trace : List Action) : Prop := ∀ a ∈ trace, a.strands = false

instance (trace : List Action) : Decidable (Unstranded trace) :=
  inferInstanceAs (Decidable (∀ a ∈ trace, a.strands = false))

theorem Unstranded.of_append {t acts : List Action} (h : Unstranded (t ++ acts)) : Unstranded t :=
  fun a ha => h a (List.mem_append_left acts ha)

theorem Unstranded.of_adds {t t' : List Action} {P : Action → Prop} (h : Unstranded t')
    (ha : Adds t t' P) : Unstranded t := by
  obtain ⟨acts, rfl, -⟩ := ha
  exact h.of_append
/-! ## The timer -/

/-- A queue that is not empty has its RTO armed. -/
def Armed (v : View) : Prop := Unstranded v.trace → v.queue ≠ [] → v.rto ≠ 0

theorem armedRto_ne_zero {t : List Action} {rto d : UInt32}
    (h : Unstranded (t ++ armActs rto d)) : armedRto rto d ≠ 0 := by
  unfold armActs at h
  unfold armedRto
  split at h
  · rename_i hz
    have := h (.armRto d) (by simp)
    rw [if_pos hz]
    simpa [Action.strands] using this
  · rename_i hz
    rwa [if_neg hz]

theorem Resend.armed {v v' : View} (h : Resend v v') (hv : Armed v) : Armed v' := by
  cases h with
  | arm d =>
    intro hun _
    have := hun (.armRto d) (by simp)
    simpa [Action.strands] using this
  | disarm hq => exact fun _ hne => absurd hq hne
  | ackOut ok hc hf hb => exact fun hun hne => hv hun.of_append hne
  | retransmit ok hc he hf hb => exact fun hun hne => hv hun.of_append hne

theorem Sender.armed {v v' : View} (h : Sender v v') (hv : Armed v) : Armed v' := by
  cases h with
  | resend h => exact h.armed hv
  | refuse hk hf hb => exact fun hun hne => hv hun.of_append hne
  | @send cause s b pkt chunk d hk hf hb =>
    intro hun _
    rw [List.append_cons v.trace] at hun
    exact armedRto_ne_zero hun
  | ackIn a popped rest hq hhi hlo hp hr =>
    intro hun hne
    refine hv hun.of_append ?_
    rw [hq]
    exact fun hnil => hne (List.append_eq_nil_iff.mp hnil).2

theorem SendPath.armed {v v' : View} (h : SendPath v v') (hv : Armed v) : Armed v' := by
  induction h with
  | refl => exact hv
  | tail _ hstep ih => exact hstep.armed ih

theorem SendPath.adds {v v' : View} (h : SendPath v v') : Adds v.trace v'.trace Action.Legit := by
  induction h with
  | refl => exact .none
  | tail _ hstep ih => exact ih.trans hstep.adds

/-! ## The invariant of the sender -/

/-- The sender is sound, its RTO armed and its flow an IPv4 one. -/
structure Lively (c : Ctx) : Prop where
  sound : Sound c.s
  armed : Armed c.view
  key : c.s.key.IsV4

theorem Lively.sends {c c' : Ctx} (h : Lively c) (hpath : SendPath c.view c'.view)
    (hs : Sound c'.s) : Lively c' := by
  refine ⟨hs, hpath.armed h.armed, ?_⟩
  rw [show c'.s.key = c.s.key from hpath.frame.key]
  exact h.key

theorem Lively.resends {c c' : Ctx} (h : Lively c) (hpath : ResendPath c.view c'.view)
    (hg : c'.s.toPacing.congestion = c.s.toPacing.congestion) : Lively c' :=
  h.sends hpath.send (h.sound.resend hpath hg)

theorem Lively.congr {c c' : Ctx} (h : Lively c) (hview : c'.view = c.view)
    (hg : c'.s.toPacing.congestion = c.s.toPacing.congestion) : Lively c' := by
  refine h.resends ?_ hg
  rw [hview]

/-- What the sender's invariant is about, at the two ends of a step that sends nothing. -/
structure Silent (c c' : Ctx) : Prop where
  una : c'.s.sndUna = c.s.sndUna
  nxt : c'.s.sndNxt = c.s.sndNxt
  peer : c'.s.toPeerOpts = c.s.toPeerOpts
  congestion : c'.s.toPacing.congestion = c.s.toPacing.congestion
  rto : c'.s.rtoDeadlineMs = c.s.rtoDeadlineMs
  retx : c'.s.retx = c.s.retx
  key : c'.s.key = c.s.key
  trace : c.io.trace <+: c'.io.trace

theorem Lively.of_silent {c c' : Ctx} (h : Lively c) (hq : Silent c c')
    (hcov : Covered c'.s.core ∨ Unanswered c'.s.core) : Lively c' := by
  have hqueue : c'.s.core.queue = c.s.core.queue := congrArg (List.map OutSeg.core) hq.retx
  refine ⟨⟨hcov, ?_, ?_, ?_⟩, ?_, ?_⟩
  · rw [hq.congestion, hqueue]
    exact h.sound.paced
  · rw [hq.peer]
    exact h.sound.mssPos
  · rw [hq.peer]
    exact h.sound.mssLe
  · intro hun hne
    obtain ⟨acts, hacts⟩ := hq.trace
    have hun' : Unstranded c'.io.trace := hun
    rw [← hacts] at hun'
    rw [show c'.view.rto = c.view.rto from hq.rto]
    refine h.armed hun'.of_append ?_
    rw [show c.view.queue = c'.view.queue from hqueue.symm]
    exact hne
  · rw [hq.key]
    exact h.key

theorem Lively.silent {c c' : Ctx} (h : Lively c) (hs : c.s.state ≠ .synRcvd) (hq : Silent c c') :
    Lively c' := by
  have hcov : Covered c.s.core := h.sound.covered.resolve_right fun hun => hs hun.state
  have hqueue : c'.s.core.queue = c.s.core.queue := congrArg (List.map OutSeg.core) hq.retx
  exact h.of_silent hq (.inl (hcov.congr hqueue hq.una hq.nxt))

theorem Lively.unopened {c c' : Ctx} (h : Lively c) (hstate : c'.s.state = c.s.state)
    (hsend : c'.s.toSendVars = c.s.toSendVars) (hq : Silent c c') : Lively c' := by
  have hqueue : c'.s.core.queue = c.s.core.queue := congrArg (List.map OutSeg.core) hq.retx
  refine h.of_silent hq (h.sound.covered.imp (·.congr hqueue hq.una hq.nxt) fun hun => ?_)
  refine ⟨hstate.trans hun.state, hqueue.trans hun.queue, ?_, ?_⟩
  · show c'.s.toSendVars.sndNxt = c'.s.toSendVars.sndUna + 1
    rw [hsend]
    exact hun.nxt
  · show c'.s.toSendVars.toClient.length ≤ c'.s.toSendVars.toClientOff
    rw [hsend]
    exact hun.drained

theorem HostPath.silent {c c' : Ctx} (h : HostPath c.obs c'.obs) : Silent c c' := by
  have hf : HostFrame c.s c'.s := h.frame
  obtain ⟨acts, hacts, -⟩ := h.adds
  exact ⟨congrArg SendVars.sndUna hf.send, congrArg SendVars.sndNxt hf.send, hf.peer,
    congrArg Pacing.congestion hf.pacing, congrArg Pacing.rtoDeadlineMs hf.pacing, hf.retx, hf.key,
    ⟨acts, hacts.symm⟩⟩

theorem abort_silent (c : Ctx) : Silent c c.abort := by
  obtain ⟨acts, -, hobs⟩ := abort_obs c
  have hs : c.abort.s = { c.s with state := .closed, host := false } := congrArg Obs.s hobs
  have htrace : c.abort.io.trace = _ := congrArg Obs.trace hobs
  refine ⟨?_, ?_, ?_, ?_, ?_, ?_, ?_, ?_⟩
  all_goals first | rw [hs] | rw [htrace]
  exact (List.prefix_append _ _).trans (List.prefix_append _ _)

theorem emitAck_lively {c : Ctx} (h : Lively c) (cause : Cause)
    (hc : cause = .ack ∨ cause = .zwpProbe) : Lively (c.emitAck cause) :=
  h.resends (emitAck_path c hc) (emitAck_congestion c cause)

/-! ## Segmenting -/

theorem Sound.pipe_idle {s : TcpSession} (h : Sound s) (hs : s.state ≠ .synRcvd)
    (hq : s.retx = []) : s.pipe = 0 := by
  have hcov : Covered s.core := h.covered.resolve_right fun hun => hs hun.state
  have hidle : s.sndUna = s.sndNxt := hcov.idle (congrArg (List.map OutSeg.core) hq)
  have hflight : s.flight = 0 := by
    unfold TcpSession.flight
    rw [hidle, UInt32.sub_self]
  unfold TcpSession.pipe
  rw [hflight]
  split
  · rename_i hgt
    have := UInt32.lt_iff_toNat_lt.mp hgt
    simp at this
  · rfl

theorem Sound.chunk_idle {s : TcpSession} (h : Sound s) (hs : s.state ≠ .synRcvd)
    (hq : s.retx = []) (hwnd : s.sndWnd ≠ 0) (hpend : s.toClientOff < s.toClient.length) :
    s.pipe < min s.sndWnd s.cwnd ∧
      0 < min (min s.peerMss.toNat s.pending) (min s.sndWnd s.cwnd - s.pipe).toNat := by
  have hpipe := h.pipe_idle hs hq
  have hcwnd : 0 < s.cwnd.toNat := by
    have hpaced := h.paced
    rw [show s.core.queue = [] from congrArg (List.map OutSeg.core) hq] at hpaced
    exact hpaced.idle
  have hwnd' : 0 < s.sndWnd.toNat := Nat.pos_of_ne_zero fun hz => hwnd (UInt32.toNat_inj.mp hz)
  have hmin := uint32_toNat_min s.sndWnd s.cwnd
  have hpos := h.mssPos
  rw [hpipe, UInt32.lt_iff_toNat_lt, UInt32.sub_zero]
  unfold TcpSession.pending
  have : (0 : UInt32).toNat = 0 := rfl
  omega

theorem segmentLoop_lively (fuel : ℕ) : ∀ {c : Ctx}, Lively c → Lively (Ctx.segmentLoop fuel c) := by
  induction fuel with
  | zero => exact fun h => h
  | succ fuel ih =>
    intro c h
    unfold Ctx.segmentLoop
    simp only [beq_iff_eq]
    split
    · split
      · exact h
      · split
        · exact h
        · rename_i hwnd hchunk
          have hk : ChunkOf .data c.s (min (min c.s.peerMss.toNat c.s.pending)
              (min c.s.sndWnd c.s.cwnd - c.s.pipe).toNat) :=
            ⟨Nat.pos_of_ne_zero hchunk, UInt32.not_le.mp hwnd, rfl⟩
          have hnext := h.sends (sendChunk_path c .data hk).1 (h.sound.sendChunk hk)
          split
          · exact ih hnext
          · exact hnext
    · exact h

theorem core_queue_eq_nil (s : TcpSession) : s.core.queue = [] ↔ s.retx = [] := by
  simp [TcpSession.core]

theorem sendChunk_retx (c : Ctx) (cause : Cause) (chunk : ℕ) (h : c.s.retx ≠ []) :
    (c.sendChunk cause chunk).2.s.retx ≠ [] := by
  have hsub := sendChunk_queue c cause chunk
  generalize (c.sendChunk cause chunk).2 = c' at hsub ⊢
  intro hnil
  rw [(core_queue_eq_nil c'.s).mpr hnil] at hsub
  exact h ((core_queue_eq_nil c.s).mp (List.eq_nil_of_subset_nil hsub))

theorem segmentLoop_retx (fuel : ℕ) : ∀ {c : Ctx}, c.s.retx ≠ [] →
    (Ctx.segmentLoop fuel c).s.retx ≠ [] := by
  induction fuel with
  | zero => exact fun h => h
  | succ fuel ih =>
    intro c h
    unfold Ctx.segmentLoop
    simp only
    split
    · split
      · exact h
      · split
        · exact h
        · have hnext := sendChunk_retx c .data
            (min (min c.s.peerMss.toNat c.s.pending) (min c.s.sndWnd c.s.cwnd - c.s.pipe).toNat) h
          split
          · exact ih hnext
          · exact hnext
    · exact h

/-- With the window open, something is in flight after the loop, unless the callback refused the
first segment of an idle sender. -/
theorem segmentLoop_in_flight {c : Ctx} (h : Lively c) (hs : c.s.state ≠ .synRcvd)
    (hwnd : c.s.sndWnd ≠ 0) (hpend : c.s.toClientOff < c.s.toClient.length)
    (hun : Unstranded (Ctx.segmentLoop c.s.pending c).io.trace) :
    (Ctx.segmentLoop c.s.pending c).s.retx ≠ [] := by
  by_cases hq : c.s.retx = []
  · obtain ⟨hpipe, hchunk⟩ := h.sound.chunk_idle hs hq hwnd hpend
    obtain ⟨fuel, hfuel⟩ : ∃ fuel, c.s.pending = fuel + 1 := by
      unfold TcpSession.pending
      exact ⟨c.s.toClient.length - c.s.toClientOff - 1, by omega⟩
    have hk : ChunkOf .data c.s (min (min c.s.peerMss.toNat c.s.pending)
        (min c.s.sndWnd c.s.cwnd - c.s.pipe).toNat) := ⟨hchunk, hpipe, rfl⟩
    have hsent := sendChunk_sent c hk
    generalize hn : min (min c.s.peerMss.toNat c.s.pending)
      (min c.s.sndWnd c.s.cwnd - c.s.pipe).toNat = n at hk hsent hchunk
    have hloop : Ctx.segmentLoop c.s.pending c = if (c.sendChunk .data n).1 then
        Ctx.segmentLoop fuel (c.sendChunk .data n).2 else (c.sendChunk .data n).2 := by
      rw [hfuel] at hn ⊢
      conv_lhs => unfold Ctx.segmentLoop
      rw [if_pos hpend]
      simp only [hfuel, hn, beq_iff_eq]
      rw [if_neg (UInt32.not_le.mpr hpipe), if_neg (by omega)]
    rw [hloop] at hun ⊢
    generalize c.sendChunk .data n = r at hsent hun ⊢
    obtain ⟨ok, c'⟩ := r
    simp only at hsent hun ⊢
    obtain ⟨v, hv⟩ : ∃ v, c'.view = v := ⟨_, rfl⟩
    rw [hv] at hsent
    cases hsent with
    | @unbuilt s b hf hb =>
      obtain ⟨pkt, hpkt⟩ := hf.builds h.key rfl (by
        have := List.length_take_le n (c.s.toClient.drop c.s.toClientOff)
        have := hk.bounds.1
        have := h.sound.mssLe
        have : ownMss.toNat = 960 := rfl
        simp only [SendVars.next, List.length_nil]
        omega)
      rw [hb] at hpkt
      cases hpkt
    | @refused s b pkt hadv hstep =>
      have htrace : c'.io.trace = c.io.trace ++ [.emit .data s b pkt false] :=
        congrArg View.trace hv
      simp only [Bool.false_eq_true, if_false, htrace] at hun
      have hbad := hun (.emit .data s b pkt false) (by simp)
      have hidle : s.retx = [] := by
        rw [hadv]
        exact hq
      simp [Action.strands, hidle] at hbad
    | sent hne hu hstep =>
      have hne' : c'.s.retx ≠ [] := by
        intro hnil
        refine hne ?_
        rw [← hv]
        exact congrArg (List.map OutSeg.core) hnil
      exact segmentLoop_retx fuel hne'
  · exact segmentLoop_retx _ hq

/-- Whatever is pending has something in flight and an open window. -/
def Moving (c : Ctx) : Prop :=
  Unstranded c.io.trace → c.s.toClientOff < c.s.toClient.length → c.s.sndWnd ≠ 0 ∧ c.s.retx ≠ []

/-- The window is open, or nothing is pending. -/
def TcpSession.Flows (s : TcpSession) : Prop :=
  s.sndWnd ≠ 0 ∨ s.toClient.length ≤ s.toClientOff

/-- A session that has not sent its FIN keeps the invariant, and its pending data moves. -/
structure Driven (c : Ctx) : Prop where
  lively : Lively c
  moving : Moving c

theorem Moving.of_drained {c : Ctx} (h : c.s.toClient.length ≤ c.s.toClientOff) : Moving c :=
  fun _ hlt => absurd hlt (Nat.not_lt.mpr h)

theorem Moving.congr {c c' : Ctx} (h : Moving c) (hsend : c'.s.toSendVars = c.s.toSendVars)
    (hretx : c.s.retx ≠ [] → c'.s.retx ≠ []) (htrace : c.io.trace <+: c'.io.trace) :
    Moving c' := by
  intro hun hlt
  obtain ⟨acts, hacts⟩ := htrace
  rw [← hacts] at hun
  have hwnd : c'.s.sndWnd = c.s.sndWnd := congrArg SendVars.sndWnd hsend
  rw [show c'.s.toClient = c.s.toClient from congrArg SendVars.toClient hsend,
    show c'.s.toClientOff = c.s.toClientOff from congrArg SendVars.toClientOff hsend] at hlt
  obtain ⟨hopen, hne⟩ := h hun.of_append hlt
  exact ⟨by rwa [hwnd], hretx hne⟩

theorem trySegmentAndEmit_driven {c : Ctx} (h : Lively c) (hs : c.s.state ≠ .synRcvd)
    (hflow : Unstranded c.io.trace → c.s.Flows) :
    c.trySegmentAndEmit.s.state.early = false ∨
      (c.trySegmentAndEmit.s.state = c.s.state ∧ Driven c.trySegmentAndEmit) := by
  have hlively := segmentLoop_lively c.s.pending h
  have hframe := (segmentLoop_path c.s.pending c).frame
  have hstate : (Ctx.segmentLoop c.s.pending c).s.state = c.s.state := hframe.state
  have hmoving : Moving (Ctx.segmentLoop c.s.pending c) := by
    intro hun hlt
    by_cases hpend : c.s.toClientOff < c.s.toClient.length
    · have hopen := hflow (hun.of_adds (segmentLoop_path c.s.pending c).adds)
      have hwnd : c.s.sndWnd ≠ 0 := hopen.resolve_right (Nat.not_le.mpr hpend)
      refine ⟨?_, segmentLoop_in_flight h hs hwnd hpend hun⟩
      rw [show (Ctx.segmentLoop c.s.pending c).s.sndWnd = c.s.sndWnd from hframe.sndWnd]
      exact hwnd
    · have hnone : c.s.pending = 0 := by
        unfold TcpSession.pending
        omega
      rw [hnone] at hlt
      exact absurd hlt hpend
  unfold Ctx.trySegmentAndEmit
  generalize Ctx.segmentLoop c.s.pending c = c₁ at hlively hstate hmoving ⊢
  have hresume : c₁.resumeReads.s.state = c₁.s.state ∧ Driven c₁.resumeReads := by
    unfold Ctx.resumeReads
    split
    · refine ⟨rfl, hlively.silent (by rw [hstate]; exact hs) ⟨rfl, rfl, rfl, rfl, rfl, rfl, rfl,
        List.prefix_refl _⟩, hmoving.congr rfl id (List.prefix_refl _)⟩
    · exact ⟨rfl, hlively, hmoving⟩
  generalize c₁.resumeReads = c₂ at hresume ⊢
  obtain ⟨hstate₂, hdriven⟩ := hresume
  have hstate₂ := hstate₂.trans hstate
  unfold Ctx.finishToClient
  split
  · have hcleared : Lively { c₂ with s.toClient := [], s.toClientOff := 0 } :=
      hdriven.lively.silent (by rw [hstate₂]; exact hs) ⟨rfl, rfl, rfl, rfl, rfl, rfl, rfl,
        List.prefix_refl _⟩
    have hempty : Moving { c₂ with s.toClient := [], s.toClientOff := 0 } :=
      .of_drained (Nat.le_refl 0)
    have hst : ({ c₂ with s.toClient := [], s.toClientOff := 0 } : Ctx).s.state = c.s.state :=
      hstate₂
    simp only
    generalize ({ c₂ with s.toClient := [], s.toClientOff := 0 } : Ctx) = c₃
      at hcleared hempty hst ⊢
    split
    · left
      rw [(sendFin_later c₃).2.2]
      split <;> rfl
    · exact .inr ⟨hst, hcleared, hempty⟩
  · exact .inr ⟨hstate₂, hdriven⟩

theorem refreshZwp_congestion (c : Ctx) :
    c.refreshZwp.s.toPacing.congestion = c.s.toPacing.congestion := by
  unfold Ctx.refreshZwp TcpSession.updateZwp
  simp only
  split
  · split <;> rfl
  · rfl

theorem refreshZwp_retx (c : Ctx) : c.refreshZwp.s.retx = c.s.retx := by
  unfold Ctx.refreshZwp TcpSession.updateZwp
  simp only
  split
  · split <;> rfl
  · rfl

theorem Driven.refreshZwp {c : Ctx} (h : Driven c) : Driven c.refreshZwp := by
  have hview := refreshZwp_view c
  have hretx := refreshZwp_retx c
  refine ⟨h.lively.congr hview (refreshZwp_congestion c), h.moving.congr ?_ ?_ ?_⟩
  · exact congrArg (fun v : View => v.send) hview
  · rw [hretx]
    exact id
  · rw [show c.refreshZwp.io.trace = c.io.trace from congrArg View.trace hview]

end BaleVpn.Tcp
