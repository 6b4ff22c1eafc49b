import BaleVpn.Lib.Log
import BaleVpn.Tcp.Emissions

/-!
# The FIN is the end of the stream

The host socket holds a byte stream `H`: reads return its bytes in order, and `Ok(0)` only after all
of them. The session sends its FIN when `host_read_eof` is set and `to_client` is drained. A read
that returns `Ok(0)` sets the flag at the end of `H`; so does a close event, whatever is still
unread.
-/

namespace BaleVpn.Tcp

open Net Lib

/-! ## The host's stream -/

def Action.bytesRead : Action → Bytes
  | .read data => data
  | _ => []

/-- The bytes read from the host. -/
def readsOf (t : List Action) : Bytes := t.flatMap Action.bytesRead

/-- The host socket returns the bytes of `H` in order, and `Ok(0)` only after all of them. -/
def HostAnswers (H : Bytes) (pre : List Action) : Action → Prop
  | .read data => readsOf pre ++ data <+: H
  | .readEof => readsOf pre = H
  | _ => True

/-- The session acts on a close event only with nothing left to read. -/
def ClosesRead (H : Bytes) (pre : List Action) : Action → Prop
  | .hostClosed => readsOf pre = H
  | _ => True

def Action.isFin : Action → Bool
  | .emit .fin _ _ _ _ => true
  | _ => false

/-- A FIN goes out only when all of `H` is read and segmented, and no new data goes out after it. -/
def FinLast (H : Bytes) (pre : List Action) : Action → Prop
  | .emit cause s _ _ _ =>
    (cause = .fin → readsOf pre = H ∧ s.pending = 0) ∧
      (cause.isFirst = true → ∀ x ∈ pre, x.isFin = false)
  | _ => True

instance (H : Bytes) (pre : List Action) : (a : Action) → Decidable (HostAnswers H pre a)
  | .read data => inferInstanceAs (Decidable (readsOf pre ++ data <+: H))
  | .readEof => inferInstanceAs (Decidable (readsOf pre = H))
  | .emit .. | .armRto _ | .popRetx _ | .enqueue _ | .write _ | .writeZero | .writeBlocked
  | .writeErr | .hostOpen | .hostClosed | .shutdownWr | .dropHost _ | .markClosed => isTrue trivial

instance (H : Bytes) (pre : List Action) : (a : Action) → Decidable (ClosesRead H pre a)
  | .hostClosed => inferInstanceAs (Decidable (readsOf pre = H))
  | .emit .. | .armRto _ | .popRetx _ | .enqueue _ | .write _ | .writeZero | .writeBlocked
  | .writeErr | .read _ | .readEof | .hostOpen | .shutdownWr | .dropHost _ | .markClosed =>
    isTrue trivial

instance (H : Bytes) (pre : List Action) : (a : Action) → Decidable (FinLast H pre a)
  | .emit cause s _ _ _ => inferInstanceAs (Decidable
      ((cause = .fin → readsOf pre = H ∧ s.pending = 0) ∧
        (cause.isFirst = true → ∀ x ∈ pre, x.isFin = false)))
  | .armRto _ | .popRetx _ | .enqueue _ | .write _ | .writeZero | .writeBlocked | .writeErr
  | .read _ | .readEof | .hostOpen | .hostClosed | .shutdownWr | .dropHost _ | .markClosed =>
    isTrue trivial

theorem readsOf_append (t acts : List Action) : readsOf (t ++ acts) = readsOf t ++ readsOf acts :=
  List.flatMap_append

/-- An action that neither reads nor sends the FIN nor new data. -/
structure Action.Neutral (H : Bytes) (a : Action) : Prop where
  reads : a.bytesRead = []
  notFin : a.isFin = false
  last : ∀ pre, FinLast H pre a

theorem Action.Neutral.of_quiet {H : Bytes} {a : Action} (h : a.quiet = true) : a.Neutral H := by
  cases a with
  | emit cause s b pkt ok =>
    simp only [Action.quiet, Bool.and_eq_true, Bool.not_eq_true', bne_iff_ne] at h
    refine ⟨rfl, ?_, fun pre => ⟨fun hfin => absurd hfin h.2, fun hfirst => ?_⟩⟩
    · cases cause <;> first | rfl | exact absurd rfl h.2
    · rw [h.1] at hfirst
      cases hfirst
  | read _ => cases h
  | _ => exact ⟨rfl, rfl, fun _ => trivial⟩

theorem readsOf_neutral {H : Bytes} {acts : List Action} (h : ∀ a ∈ acts, a.Neutral H) :
    readsOf acts = [] := by
  rw [readsOf, List.flatMap_eq_nil_iff]
  exact fun a ha => (h a ha).reads

/-! ## The invariant -/

structure FinInv (H : Bytes) (v : View) : Prop where
  each : Each (FinLast H) v.trace
  eof : v.host.hostReadEof = true → readsOf v.trace = H
  sent : v.send.sentFin = true → readsOf v.trace = H ∧ v.send.toClient.length ≤ v.send.toClientOff
  logged : ∀ a ∈ v.trace, a.isFin = true → v.send.sentFin = true

variable {H : Bytes}

theorem FinInv.neutral {v v' : View} (h : FinInv H v)
    (hadds : Adds v.trace v'.trace (Action.Neutral H))
    (heof : v'.host.hostReadEof = v.host.hostReadEof)
    (hsent : v'.send.sentFin = v.send.sentFin)
    (hdrain : v.send.toClient.length ≤ v.send.toClientOff →
      v'.send.toClient.length ≤ v'.send.toClientOff) : FinInv H v' := by
  obtain ⟨acts, htrace, hacts⟩ := hadds
  have hreads : readsOf v'.trace = readsOf v.trace := by
    rw [htrace, readsOf_append, readsOf_neutral hacts, List.append_nil]
  refine ⟨?_, ?_, ?_, ?_⟩
  · rw [htrace, each_append]
    refine ⟨h.each, fun pre a post heq => (hacts a ?_).last _⟩
    rw [heq]
    simp
  · rw [heof, hreads]
    exact h.eof
  · rw [hsent, hreads]
    exact fun hs => ⟨(h.sent hs).1, hdrain (h.sent hs).2⟩
  · intro a ha hfin
    rw [htrace] at ha
    rw [hsent]
    obtain ha | ha := List.mem_append.mp ha
    · exact h.logged a ha hfin
    · rw [(hacts a ha).notFin] at hfin
      cases hfin

/-- A first transmission means that bytes were pending, so no FIN has gone out. -/
theorem FinInv.first {v : View} (h : FinInv H v) {cause : Cause} {s : TcpSession} {chunk : ℕ}
    (hsnap : s.core = v.toCore) (hk : ChunkOf cause s chunk) : v.send.sentFin = false := by
  have hpending := hk.bounds.2
  have hpos := hk.1
  have hsend : s.toSendVars = v.send := congrArg Core.send hsnap
  cases hs : v.send.sentFin with
  | false => rfl
  | true =>
    have hdrained := (h.sent hs).2
    unfold TcpSession.pending at hpending
    rw [hsend] at hpending
    omega

theorem FinInv.not_fin {v : View} (h : FinInv H v) (hs : v.send.sentFin = false) :
    ∀ a ∈ v.trace, a.isFin = false := by
  intro a ha
  cases hfin : a.isFin with
  | false => rfl
  | true =>
    have := h.logged a ha hfin
    rw [hs] at this
    cases this

theorem FinInv.transmit {v v' : View} (h : FinInv H v) {cause : Cause} {s : TcpSession}
    {b : TcpBuild} {pkt : Bytes} {ok : Bool} {acts : List Action} {chunk : ℕ}
    (hsnap : s.core = v.toCore) (hk : ChunkOf cause s chunk)
    (htrace : v'.trace = v.trace ++ .emit cause s b pkt ok :: acts)
    (hacts : ∀ a ∈ acts, a.Neutral H) (hhost : v'.host = v.host)
    (hsent : v'.send.sentFin = v.send.sentFin) : FinInv H v' := by
  have hs := h.first hsnap hk
  have hcause : cause ≠ .fin := by
    rintro rfl
    exact hk.2
  have hreads : readsOf v'.trace = readsOf v.trace := by
    rw [htrace, readsOf_append]
    show readsOf v.trace ++ readsOf acts = _
    rw [readsOf_neutral hacts, List.append_nil]
  refine ⟨?_, ?_, ?_, ?_⟩
  · rw [htrace, each_append, each_cons]
    refine ⟨h.each, ⟨fun hc => absurd hc hcause, fun _ => ?_⟩, fun pre a post heq => ?_⟩
    · rw [List.append_nil]
      exact h.not_fin hs
    · exact (hacts a (by rw [heq]; simp)).last _
  · rw [hhost, hreads]
    exact h.eof
  · rw [hsent, hs]
    exact fun hc => by cases hc
  · intro a ha hfin
    rw [htrace] at ha
    rw [hsent]
    obtain ha | ha := List.mem_append.mp ha
    · exact h.logged a ha hfin
    · obtain rfl | ha := List.mem_cons.mp ha
      · cases cause <;> first | cases hfin; done | exact absurd rfl hcause
      · rw [(hacts a ha).notFin] at hfin
        cases hfin

theorem Adds.neutral {t t' : List Action} (h : Adds t t' Action.Aside) :
    Adds t t' (Action.Neutral H) := h.mono fun _ ha => .of_quiet ha.2

theorem Sender.finInv {v v' : View} (h : Sender v v') (hv : FinInv H v) : FinInv H v' := by
  have hframe := h.frame
  cases h with
  | resend h =>
    refine hv.neutral h.adds.neutral (by rw [hframe.host]) hframe.sentFin ?_
    rw [h.core]
    exact id
  | refuse hk hf hb => exact hv.transmit hf.snap hk rfl (by simp) rfl rfl
  | send d hk hf hb =>
    exact hv.transmit hf.snap hk rfl (fun a ha => .of_quiet (armActs_aside _ _ a ha).2) rfl rfl
  | ackIn a popped rest hq hhi hlo hp hr =>
    refine hv.neutral ⟨_, rfl, fun x hx => ?_⟩ rfl rfl id
    obtain ⟨e, -, rfl⟩ := List.mem_map.mp hx
    exact ⟨rfl, rfl, fun _ => trivial⟩

theorem FinInv.fin {v v' : View} (h : FinInv H v) {s : TcpSession} (acts rest : List Action)
    (hsnap : s.core = { v.toCore with send.sentFin := true })
    (he : v.host.hostReadEof = true) (hd : v.send.toClient.length ≤ v.send.toClientOff)
    (htrace : v'.trace = v.trace ++ (acts ++ rest))
    (hacts : acts = [] ∨ ∃ b pkt ok, acts = [.emit .fin s b pkt ok])
    (hrest : ∀ a ∈ rest, a.Neutral H) (hsent : v'.send.sentFin = true)
    (hclient : v'.send.toClient = v.send.toClient ∧ v'.send.toClientOff = v.send.toClientOff) :
    FinInv H v' := by
  have hpending : s.pending = 0 := by
    have hsend : s.toSendVars = { v.send with sentFin := true } := congrArg Core.send hsnap
    unfold TcpSession.pending
    rw [hsend]
    exact Nat.sub_eq_zero_of_le hd
  have hall := h.eof he
  have hreads : readsOf v'.trace = H := by
    rw [htrace, readsOf_append, readsOf_append, readsOf_neutral hrest]
    obtain rfl | ⟨b, pkt, ok, rfl⟩ := hacts <;> simpa [readsOf, Action.bytesRead] using hall
  refine ⟨?_, fun _ => hreads, fun _ => ⟨hreads, by rw [hclient.1, hclient.2]; exact hd⟩,
    fun _ _ _ => hsent⟩
  rw [htrace, each_append, each_append]
  refine ⟨h.each, ?_, fun pre a post heq => (hrest a (by rw [heq]; simp)).last _⟩
  obtain rfl | ⟨b, pkt, ok, rfl⟩ := hacts
  · exact each_nil _
  · rw [each_singleton, List.append_nil]
    exact ⟨fun _ => ⟨hall, hpending⟩, fun hc => by cases hc⟩

/-- What the environment promises, and that close events come last. -/
def CloseAfterRead (H : Bytes) (t : List Action) : Prop :=
  Each (HostAnswers H) t ∧ Each (ClosesRead H) t

theorem CloseAfterRead.of_append {t acts : List Action} (h : CloseAfterRead H (t ++ acts)) :
    CloseAfterRead H t := ⟨h.1.of_append, h.2.of_append⟩

theorem Micro.finInv {v v' : View} (h : Micro v v')
    (hv : CloseAfterRead H v.trace → FinInv H v) (henv : CloseAfterRead H v'.trace) :
    FinInv H v' := by
  obtain ⟨acts, hadds, -⟩ := h.adds
  have hv := hv (hadds ▸ henv).of_append
  cases h with
  | sender h => exact h.finInv hv
  | finLost acts hs he hd hf ha =>
    refine hv.fin acts [] hf.snap he hd (by simp) ?_ (by simp) rfl ⟨rfl, rfl⟩
    obtain ⟨-, rfl⟩ | ⟨pkt, -, rfl⟩ := ha
    · exact .inl rfl
    · exact .inr ⟨_, pkt, false, rfl⟩
  | fin d hs he hd hf hb =>
    exact hv.fin [_] _ hf.snap he hd rfl (.inr ⟨_, _, _, rfl⟩)
      (fun a ha => .of_quiet (armActs_aside _ _ a ha).2) rfl ⟨rfl, rfl⟩
  | read data hh hd =>
    have hnew : readsOf v.trace ++ data <+: H := (each_snoc.mp henv.1).2
    have hmore : readsOf v.trace ≠ H := by
      intro heq
      rw [heq] at hnew
      have hlen := hnew.length_le
      rw [List.length_append] at hlen
      exact hd (List.length_eq_zero_iff.mp (by omega))
    have hs : v.send.sentFin = false := by
      cases hs : v.send.sentFin with
      | false => rfl
      | true => exact absurd (hv.sent hs).1 hmore
    have hpush : (v.send.push data).sentFin = false := by
      unfold SendVars.push
      split <;> exact hs
    refine ⟨each_snoc.mpr ⟨hv.each, trivial⟩, fun he => absurd (hv.eof he) hmore, ?_, ?_⟩
    · intro hsent
      rw [show (v.send.push data).sentFin = true from hsent] at hpush
      cases hpush
    · intro a ha hfin
      obtain ha | ha := List.mem_append.mp ha
      · rw [hv.not_fin hs a ha] at hfin
        cases hfin
      · rw [List.mem_singleton.mp ha] at hfin
        cases hfin
  | clear h => exact hv.neutral .none rfl rfl fun _ => Nat.le_refl 0
  | eof a ha =>
    have hneutral : a.Neutral H := by
      obtain rfl | rfl := ha <;> exact ⟨rfl, rfl, fun _ => trivial⟩
    have hall : readsOf v.trace = H := by
      obtain rfl | rfl := ha
      · exact (each_snoc.mp henv.1).2
      · exact (each_snoc.mp henv.2).2
    have hmid : FinInv H { v with trace := v.trace ++ [a] } := hv.neutral (.one hneutral) rfl rfl id
    refine ⟨hmid.each, fun _ => ?_, hmid.sent, hmid.logged⟩
    rw [readsOf_append, hall, readsOf, List.flatMap_singleton, hneutral.reads, List.append_nil]
  | openHost _ _ => exact hv.neutral (.one (.of_quiet rfl)) rfl rfl id
  | shutdownWr => exact hv.neutral (.one (.of_quiet rfl)) rfl rfl id
  | pause | window | establish | finIn | settle => exact hv.neutral .none rfl rfl id

theorem HostStep.finInv {x y : Obs} (h : HostStep x y) (hx : FinInv H x.view) : FinInv H y.view := by
  have hframe := h.frame
  have hsend : y.view.send = x.view.send := hframe.send
  refine hx.neutral h.adds.aside.neutral hframe.readEof (by rw [hsend]) ?_
  rw [hsend]
  exact id

theorem finInv_stable (H : Bytes) :
    Stable fun v => CloseAfterRead H v.trace → FinInv H v where
  micro h hv := h.finInv hv
  wake _ hv henv := (hv henv).neutral .none rfl rfl id
  host h hx henv := by
    obtain ⟨acts, hacts, -⟩ := h.adds
    exact h.finInv (hx (@CloseAfterRead.of_append H _ acts (hacts ▸ henv)))
  rst x acts h hx henv :=
    (hx henv.of_append).neutral ⟨acts, rfl, fun a ha => .of_quiet (h.hostSide a ha).aside.2⟩ rfl rfl
      id
  closed x hx henv := (hx henv.of_append).neutral (closed_adds x).aside.neutral rfl rfl id
  timeWait v acts h hv henv :=
    (hv henv.of_append).neutral ⟨acts, rfl, fun a ha => .of_quiet
      (timeWait_hostSide h a ha).aside.2⟩ rfl rfl id

theorem Started.finInv {key : FlowKey} {v : View} (h : Started key v) : FinInv H v := by
  have hneutral : ∀ a ∈ v.trace, a.Neutral H := fun a ha => .of_quiet (h.quiet a ha)
  have hfields : v.send.sentFin = false ∧ v.host.hostReadEof = false := by
    cases h <;> exact ⟨rfl, rfl⟩
  refine ⟨fun pre a post heq => (hneutral a (by rw [heq]; simp)).last _, ?_, ?_, ?_⟩
  · rw [hfields.2]
    exact fun hc => by cases hc
  · rw [hfields.1]
    exact fun hc => by cases hc
  · intro a ha hfin
    rw [(hneutral a ha).notFin] at hfin
    cases hfin

/-- In every run in which the session acts on a close event only with nothing left to read, the FIN
goes out after all of the host's bytes, and no new data after it. -/
theorem fin_after_stream {key : FlowKey} {c : Ctx} (h : Reachable key c) (H : Bytes)
    (hhost : Each (HostAnswers H) c.io.trace) (hclose : Each (ClosesRead H) c.io.trace) :
    Each (FinLast H) c.io.trace := by
  have hinv := (finInv_stable H).reachable (fun v hs _ => hs.finInv) h
  exact (hinv ⟨hhost, hclose⟩).each

/-- The host sends one byte, which is read, and then closes. -/
def orderlyClose : Ctx :=
  (sampleStart 1000 []).run
    [sampleAck 1000,
      ⟨.host { isReadable := true, isReadClosed := true }, { reads := [.ok [7], .ok []] }⟩]

theorem fin_after_stream_orderly :
    orderlyClose.io.trace.any Action.isFin = true ∧ Each (FinLast [7]) orderlyClose.io.trace :=
  ⟨by decide +kernel, fin_after_stream ((sampleStart_accepted _ _ (by decide)).reachable _) [7]
    (by decide +kernel) (by decide +kernel)⟩

/-- The host closes with the byte 7 unread, and the session reads it after its FIN. -/
def earlyClose : Ctx :=
  (sampleStart 1000 []).run
    [sampleAck 1000, ⟨.host { isReadClosed := true, isWriteClosed := true }, {}⟩,
      ⟨.host { isReadable := true }, { reads := [.ok [7]] }⟩]

theorem fin_before_end_of_stream :
    ¬ ∀ (key : FlowKey) (c : Ctx) (H : Bytes), Reachable key c →
      Each (HostAnswers H) c.io.trace → Each (FinLast H) c.io.trace := by
  intro hall
  have hreach : Reachable sampleKey earlyClose := (sampleStart_accepted _ _ (by decide)).reachable _
  have hlast := hall _ _ [7] hreach (by decide +kernel)
  exact absurd hlast (by decide +kernel)

end BaleVpn.Tcp
