import BaleVpn.Tcp.Dispatcher
import BaleVpn.Tcp.Reach

/-!
# Reuse of a flow

A pure SYN on a flow without a session gets a new one. A SYN that finds a closed session still in
the table restarts that one, and `accept_initial_syn` sets only a few of its fields. Closed sessions
are in the table for one reason: a host event closed them, and neither a sweep nor a segment of the
flow has come since.
-/

namespace BaleVpn.Tcp

open Net Lib

/-! ## Segments -/

/-- A segment that `accept_initial_syn` accepts. -/
structure PureSyn (seg : Bytes) : Prop where
  header : 20 ≤ TcpHeader.dataOff seg ∧ TcpHeader.dataOff seg ≤ seg.length
  syn : hasFlag (TcpHeader.flags seg) TCP_SYN = true
  noAck : hasFlag (TcpHeader.flags seg) TCP_ACK = false
  noRst : hasFlag (TcpHeader.flags seg) TCP_RST = false

instance (seg : Bytes) : Decidable (PureSyn seg) :=
  decidable_of_iff ((20 ≤ TcpHeader.dataOff seg ∧ TcpHeader.dataOff seg ≤ seg.length) ∧
      hasFlag (TcpHeader.flags seg) TCP_SYN = true ∧ hasFlag (TcpHeader.flags seg) TCP_ACK = false ∧
      hasFlag (TcpHeader.flags seg) TCP_RST = false)
    ⟨fun h => ⟨h.1, h.2.1, h.2.2.1, h.2.2.2⟩, fun h => ⟨h.header, h.syn, h.noAck, h.noRst⟩⟩

theorem sendSynAck_state (c : Ctx) (opts : Bytes) : (c.sendSynAck opts).s.state = c.s.state := by
  obtain ⟨s, b, -, -, hem⟩ :=
    emitSegment_emitted c .synAck (TCP_SYN ||| TCP_ACK) c.s.sndUna [] true opts
  unfold Ctx.sendSynAck
  generalize c.emitSegment .synAck (TCP_SYN ||| TCP_ACK) c.s.sndUna [] true opts = r at hem ⊢
  obtain ⟨ok, c₁⟩ := r
  have hstate : c₁.view.state = c.view.state := by
    generalize c₁.view = v at hem
    cases hem <;> rfl
  exact hstate

theorem onSegment_pureSyn {c : Ctx} (hclosed : c.s.state = .closed) {seg : Bytes} (h : PureSyn seg) :
    (c.onSegment seg).2.s.state = .synRcvd := by
  obtain ⟨hhdr, hsyn, hack, hrst⟩ := h
  have hstate : (c.preprocess ((seg.take (TcpHeader.dataOff seg)).drop 20)
      (TcpHeader.seq seg)).s.state = .closed :=
    (congrArg (fun v : View => v.state) (preprocess_view c _ _)).trans hclosed
  unfold Ctx.onSegment
  rw [if_neg (by omega)]
  simp only
  generalize c.preprocess ((seg.take (TcpHeader.dataOff seg)).drop 20) (TcpHeader.seq seg) = c₁
    at hstate ⊢
  rw [if_neg (by simp; omega), hrst, if_neg (by decide), if_pos (by simp [hstate])]
  unfold Ctx.acceptInitialSyn
  simp only [hsyn, hack, Bool.not_true, Bool.or_self, Bool.false_eq_true, if_false]
  rw [sendSynAck_state]
  obtain ⟨opts, n, -, hopts⟩ := synAckOptions_spec (c₁.prepareSyn seg)
  rw [hopts]
  rfl

/-- What a session looks like that gets its SYN from `TcpSession::new`. -/
def freshSession (k : FlowKey) (seg : Bytes) (o : Oracle) : TcpSession := (start k seg o).s

theorem handleTcp_new {t : TcpTable} {k : FlowKey} (hnew : t k = none) {seg : Bytes} (h : PureSyn seg)
    (o : Oracle) : (handleTcp t k seg o).2 k = some (start k seg o) := by
  have hsyn : (start k seg o).s.state = .synRcvd := onSegment_pureSyn rfl h
  have hlen := h.header
  unfold handleTcp
  rw [if_neg (by omega), hnew]
  simp only [h.syn, h.noAck, Bool.not_true, Bool.or_self, Bool.false_eq_true, if_false]
  unfold TcpTable.deliver
  rw [show (Ctx.load { s := .new k } o).onSegment seg =
    (((Ctx.load { s := .new k } o).onSegment seg).1, start k seg o) from rfl]
  simp only [TcpTable.set_same, TcpSession.isTerminal, hsyn]
  rfl

/-! ## Closed sessions in the table -/

theorem TcpTable.set_other (t : TcpTable) {k k' : FlowKey} (h : k' ≠ k) (e : Option Ctx) :
    t.set k e k' = t k' := by simp [TcpTable.set, h]

theorem handleTcp_other (t : TcpTable) {k k' : FlowKey} (h : k' ≠ k) (seg : Bytes) (o : Oracle) :
    (handleTcp t k seg o).2 k' = t k' := by
  unfold handleTcp TcpTable.deliver
  split
  · rfl
  · split
    · exact t.set_other h _
    · split
      · rfl
      · exact t.set_other h _

theorem handleTcp_open {t : TcpTable} {k : FlowKey} {seg : Bytes} (hlen : 20 ≤ seg.length) {o : Oracle}
    {c : Ctx} (h : (handleTcp t k seg o).2 k = some c) : c.s.state ≠ .closed := by
  have hdeliver : ∀ c₀ : Ctx, (t.deliver k seg c₀).2 k = some c → c.s.state ≠ .closed := by
    intro c₀ h
    unfold TcpTable.deliver at h
    generalize c₀.onSegment seg = r at h
    obtain ⟨ok, c₁⟩ := r
    simp only [TcpTable.set_same] at h
    split at h
    · cases h
    · rename_i hterm
      obtain rfl := Option.some.inj h
      simpa [TcpSession.isTerminal] using hterm
  unfold handleTcp at h
  rw [if_neg (by omega)] at h
  split at h
  · exact hdeliver _ h
  · split at h
    · rename_i hnone _
      cases hnone.symm.trans h
    · exact hdeliver _ h

theorem tick_alive {c : Ctx} {now : UInt32} (h : (c.tick now).1 = true) :
    (c.tick now).2.s.state ≠ .closed := by
  unfold Ctx.tick at h ⊢
  split at h
  · cases h
  · rename_i hopen
    rw [if_neg hopen]
    simp only at h ⊢
    generalize (if c.s.rtoDeadlineMs != 0 && timeAfter now c.s.rtoDeadlineMs then c.rtoFire now
      else c) = c₁ at h ⊢
    split at h
    · cases h
    · rename_i hopen₁
      rw [if_neg hopen₁]
      have hstate : (c₁.tickTimers now).s.state = c₁.s.state :=
        congrArg Core.state (tickTimers_path c₁ now).core
      generalize c₁.tickTimers now = c₂ at h hstate ⊢
      split at h
      · cases h
      · rename_i htw
        rw [if_neg htw, hstate]
        simpa using hopen₁

theorem sweepIdle_open {t : TcpTable} {now : UInt32} {grew : Bool} {o : FlowKey → Oracle}
    {k : FlowKey} {c : Ctx} (h : t.sweepIdle now grew o k = some c) : c.s.state ≠ .closed := by
  obtain ⟨c₀, -, hsweep⟩ := Option.bind_eq_some_iff.mp h
  unfold sweepSession at hsweep
  simp only at hsweep
  generalize (if grew then (c₀.load (o k)).fanOutWindowUpdate else c₀.load (o k)) = c₁ at hsweep
  split at hsweep
  · rename_i halive
    obtain rfl := Option.some.inj hsweep
    exact tick_alive halive
  · cases hsweep

/-- The event takes a closed session of `k` out of the table. -/
def TableEvent.clears (k : FlowKey) : TableEvent → Prop
  | .segment k' seg _ => k' = k ∧ 20 ≤ seg.length
  | .host _ _ _ => False
  | .sweep _ _ _ => True

/-- The host event leaves the session of `k` in the table, closed. -/
def LeavesClosed (t : TcpTable) (k : FlowKey) (ev : HostEvent) (o : Oracle) : Prop :=
  ∃ c, t.onHostEvent k ev o k = some c ∧ c.s.state = .closed

theorem tableAfter_snoc (evs : List TableEvent) (e : TableEvent) :
    tableAfter (evs ++ [e]) = (tableAfter evs).step e := by
  simp [tableAfter, List.foldl_append]

theorem step_other {t : TcpTable} {k : FlowKey} {e : TableEvent} (hclear : ¬ e.clears k)
    (hhost : ∀ ev o, e ≠ .host k ev o) : t.step e k = t k := by
  cases e with
  | segment k' seg o =>
    show (handleTcp t k' seg o).2 k = t k
    by_cases hk : k' = k
    · have hlen : seg.length < 20 := by
        by_contra hlen
        exact hclear ⟨hk, Nat.not_lt.mp hlen⟩
      unfold handleTcp
      rw [if_pos hlen]
    · exact handleTcp_other t (Ne.symm hk) seg o
  | host k' ev o =>
    have hk : k ≠ k' := fun heq => hhost ev o (by rw [heq])
    show t.onHostEvent k' ev o k = t k
    unfold TcpTable.onHostEvent
    cases hs : t k' with
    | none => rfl
    | some c => exact t.set_other hk _
  | sweep now grew o => exact absurd trivial hclear

/-- A closed session in the table was left there by a host event, and nothing has cleared it since. -/
theorem closed_by_host {k : FlowKey} (evs : List TableEvent) : ∀ {c : Ctx},
    tableAfter evs k = some c → c.s.state = .closed →
      ∃ pre ev o mid, evs = pre ++ .host k ev o :: mid ∧ LeavesClosed (tableAfter pre) k ev o ∧
        ∀ e ∈ mid, ¬ e.clears k := by
  induction evs using List.reverseRecOn with
  | nil =>
    intro c h
    cases h
  | append_singleton evs e ih =>
    intro c h hclosed
    rw [tableAfter_snoc] at h
    by_cases hclear : e.clears k
    · exfalso
      cases e with
      | segment k' seg o =>
        obtain ⟨rfl, hlen⟩ := hclear
        exact handleTcp_open hlen h hclosed
      | host k' ev o => exact hclear
      | sweep now grew o => exact sweepIdle_open h hclosed
    · by_cases hhost : ∃ ev o, e = .host k ev o
      · obtain ⟨ev, o, rfl⟩ := hhost
        exact ⟨evs, ev, o, [], rfl, ⟨c, h, hclosed⟩, by simp⟩
      · push Not at hhost
        rw [step_other hclear hhost] at h
        obtain ⟨pre, ev, o, mid, rfl, hleft, hmid⟩ := ih h hclosed
        refine ⟨pre, ev, o, mid ++ [e], by simp, hleft, ?_⟩
        intro e' he'
        rcases List.mem_append.mp he' with he' | he'
        · exact hmid e' he'
        · rwa [List.mem_singleton.mp he']

/-! ## New connections -/

/-- A pure SYN that opens a connection leaves the session that `TcpSession::new` and the same SYN
give, with the same answers from outside. -/
def OpensFresh (t : TcpTable) : TableEvent → Prop
  | .segment k seg o => PureSyn seg → (∀ c, t k = some c → c.s.state = .closed) →
      ((handleTcp t k seg o).2 k).map (·.s) = some (freshSession k seg o)
  | _ => True

/-- No pure SYN comes to a flow whose session a host event closed, until that session is cleared. -/
def NoReuse (evs : List TableEvent) : Prop :=
  ∀ pre k ev o mid seg o' post,
    evs = pre ++ .host k ev o :: (mid ++ .segment k seg o' :: post) →
    LeavesClosed (tableAfter pre) k ev o → (∀ e ∈ mid, ¬ e.clears k) → ¬ PureSyn seg

/-- In a run without reuse every new connection starts from a new session. -/
theorem new_connection_inherits_nothing {evs : List TableEvent} (h : NoReuse evs) :
    Each (fun pre e => OpensFresh (tableAfter pre) e) evs := by
  intro pre e post heq
  cases e with
  | host k ev o => exact trivial
  | sweep now grew o => exact trivial
  | segment k seg o =>
    intro hsyn hclosed
    cases hk : tableAfter pre k with
    | none => rw [handleTcp_new hk hsyn]; rfl
    | some c =>
      obtain ⟨pre', ev, o', mid, rfl, hleft, hmid⟩ := closed_by_host pre hk (hclosed c hk)
      exact absurd hsyn (h pre' k ev o' mid seg o post (by simp [heq]) hleft hmid)

/-- The connection of `sampleKey` up to the moment its host fails, with three bytes unsent because the
client's window is closed. -/
def hostFails : List TableEvent :=
  [.segment sampleKey (clientSegment sampleKey TCP_SYN 100 0 0 [] []) {},
    .segment sampleKey (clientSegment sampleKey TCP_ACK 101 1 0 [] []) {},
    .host sampleKey { isReadable := true } { reads := [.ok [1, 2, 3]] },
    .host sampleKey { isError := true } { soErrors := [.pending] }]

def reopening : Bytes := clientSegment sampleKey TCP_SYN 900 0 1000 [] []

/-- Swept in between, the flow starts anew. -/
def reopened : List TableEvent :=
  hostFails ++ [.sweep 5 false fun _ => {}, .segment sampleKey reopening {}]

theorem reopened_noReuse : NoReuse reopened := by
  intro pre k ev o mid seg o' post heq _ hmid _
  have hhost : reopened[pre.length]? = some (.host k ev o) := by simp [heq]
  have hseg : reopened[pre.length + (mid.length + 1)]? = some (.segment k seg o') := by
    simp [heq]
  have hsweep : ∀ j, reopened[pre.length + (j + 1)]? = some (.sweep 5 false fun _ => {}) →
      mid.length ≤ j := by
    intro j hj
    by_contra hlt
    rw [heq, List.getElem?_append_right (by omega), Nat.add_sub_cancel_left,
      List.getElem?_cons_succ, List.getElem?_append_left (by omega)] at hj
    exact hmid _ (List.mem_of_getElem? hj) trivial
  -- The host events are the third and fourth, the sweep the fifth, the SYN the sixth.
  have hlt : pre.length < 6 := (List.getElem?_eq_some_iff.mp hhost).1
  generalize pre.length = n at hhost hseg hsweep hlt
  generalize mid.length = m at hseg hsweep
  match n, hlt with
  | 0, _ | 1, _ | 4, _ | 5, _ => simp [reopened, hostFails] at hhost
  | 2, _ =>
    have hm := hsweep 1 rfl
    match m, hm with
    | 0, _ | 1, _ => simp [reopened, hostFails] at hseg
  | 3, _ =>
    have hm := hsweep 0 rfl
    match m, hm with
    | 0, _ => simp [reopened, hostFails] at hseg

theorem new_connection_after_sweep :
    NoReuse reopened ∧ OpensFresh (tableAfter (hostFails ++ [.sweep 5 false fun _ => {}]))
      (.segment sampleKey reopening {}) :=
  ⟨reopened_noReuse, new_connection_inherits_nothing reopened_noReuse _ _ [] rfl⟩

theorem new_connection_inherits_data :
    ¬ ∀ evs : List TableEvent, Each (fun pre e => OpensFresh (tableAfter pre) e) evs := by
  intro hall
  have hclosed : ((tableAfter hostFails sampleKey).map fun c => c.s.state) = some .closed := by
    decide +kernel
  have hopen := hall (hostFails ++ [.segment sampleKey reopening {}]) hostFails _ [] rfl
    (by decide) (fun c hc => by simpa [hc] using hclosed)
  have hdata := congrArg (Option.map fun s : TcpSession => s.toClient) hopen
  exact absurd hdata (by decide +kernel)

end BaleVpn.Tcp
