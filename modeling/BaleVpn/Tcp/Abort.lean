import BaleVpn.Lib.Log
import BaleVpn.Tcp.Dispatcher
import BaleVpn.Tcp.Emissions

/-!
# Aborted sessions stay aborted

`mark_closed` ends every path of `on_host_event` that calls it. Below `on_segment` it is called from
the write loop too, deep inside `handle_data_in`, and there the callers go on: they acknowledge the
payload, consume a FIN and set the state. So a segment leaves an aborted session alone only if no
host write fails while it is processed.
-/

namespace BaleVpn.Tcp

open Net Lib Relation

/-! ## The property -/

def Action.isEmit : Action → Bool
  | .emit .. => true
  | _ => false

def Action.isClose : Action → Bool
  | .markClosed => true
  | _ => false

def Action.isWriteErr : Action → Bool
  | .writeErr => true
  | _ => false

/-- Once `mark_closed` has run, nothing more is emitted, and the session ends up closed. -/
def StaysAborted (acts : List Action) (s : TcpSession) : Prop :=
  acts.any Action.isClose = true → s.state = .closed ∧
    Each (fun pre a => a.isEmit = true → pre.any Action.isClose = false) acts

instance (acts : List Action) (s : TcpSession) : Decidable (StaysAborted acts s) :=
  inferInstanceAs (Decidable (_ → _))

/-! ## Before and after `mark_closed` -/

/-- Since the trace was `t`, `mark_closed` has not run. -/
def Running (t : List Action) (c : Ctx) : Prop := Adds t c.io.trace fun a => a.isClose = false

/-- Since the trace was `t`, `mark_closed` has run once, and nothing was emitted after it. -/
def Aborted (t : List Action) (c : Ctx) : Prop :=
  c.s.state = .closed ∧ c.s.host = false ∧
    ∃ acts post, c.io.trace = t ++ (acts ++ .markClosed :: post) ∧
      (∀ a ∈ acts, a.isClose = false) ∧ ∀ a ∈ post, a.isEmit = false

variable {t : List Action}

theorem Running.path {c c' : Ctx} (h : Running t c) (hpath : Path c.view c'.view) : Running t c' :=
  h.trans (hpath.towardsHost.mono fun a ha => by cases a <;> first | rfl | cases ha)

theorem dropActs_isEmit (s : TcpSession) : ∀ a ∈ dropActs s, a.isEmit = false := by
  intro a ha
  rw [(mem_dropActs ha).1]
  rfl

theorem RstActs.isClose {s : TcpSession} {acts : List Action} (h : RstActs s acts) :
    ∀ a ∈ acts, a.isClose = false := by
  obtain ⟨-, rfl⟩ | ⟨pkt, ok, -, rfl⟩ := h
  · simp
  · intro a ha
    rw [List.mem_singleton.mp ha]
    rfl

theorem Running.markClosed {c : Ctx} (h : Running t c) : Aborted t c.markClosed := by
  obtain ⟨acts, htrace, hacts⟩ := h
  have hobs := markClosed_obs c
  refine ⟨markClosed_state c, closeHostSocket_host _, acts, dropActs { c.s with state := .closed },
    ?_, hacts, dropActs_isEmit _⟩
  rw [show c.markClosed.io.trace = _ from congrArg Obs.trace hobs, ← List.append_assoc, ← htrace]
  rfl

theorem Running.abort {c : Ctx} (h : Running t c) : Aborted t c.abort := by
  obtain ⟨acts, hacts, hobs⟩ := emitRst_obs c
  have hrst : Running t (c.emitRst c.s.sndNxt c.s.rcvNxt) :=
    h.trans ⟨acts, congrArg Obs.trace hobs, hacts.isClose⟩
  exact hrst.markClosed

theorem Running.staysAborted {c c' : Ctx} (h : Running c.io.trace c') :
    StaysAborted (newActs c c') c'.s := by
  obtain ⟨acts, htrace, hacts⟩ := h
  intro hclose
  unfold newActs at hclose
  rw [htrace, List.drop_left, List.any_eq_true] at hclose
  obtain ⟨a, ha, hclosed⟩ := hclose
  rw [hacts a ha] at hclosed
  cases hclosed

theorem Aborted.staysAborted {c c' : Ctx} (h : Aborted c.io.trace c') :
    StaysAborted (newActs c c') c'.s := by
  obtain ⟨hstate, -, acts, post, htrace, hacts, hpost⟩ := h
  refine fun _ => ⟨hstate, ?_⟩
  unfold newActs
  rw [htrace, List.drop_left, each_append, each_cons]
  refine ⟨fun pre a rest heq _ => ?_, fun hemit => (by cases hemit),
    fun pre a rest heq hemit => ?_⟩
  · rw [List.any_eq_false]
    intro x hx
    rw [hacts x (by rw [heq]; exact List.mem_append_left _ hx)]
    exact Bool.false_ne_true
  · rw [hpost a (by rw [heq]; simp)] at hemit
    cases hemit

/-! ## Host events -/

/-- Not closed yet, or closed for good. -/
def Settled (t : List Action) (c : Ctx) : Prop := Running t c ∨ Aborted t c

theorem Running.refl (c : Ctx) : Running c.io.trace c := .none

theorem Settled.log {c c' : Ctx} (h : Settled t c) (acts : List Action)
    (htrace : c'.io.trace = c.io.trace ++ acts)
    (hacts : ∀ a ∈ acts, a.isClose = false ∧ a.isEmit = false)
    (hstate : c'.s.state = c.s.state) (hhost : c'.s.host = c.s.host) : Settled t c' := by
  obtain h | ⟨hclosed, hdropped, pre, post, heq, hpre, hpost⟩ := h
  · exact .inl (h.trans ⟨acts, htrace, fun a ha => (hacts a ha).1⟩)
  · refine .inr ⟨hstate.trans hclosed, hhost.trans hdropped, pre, post ++ acts, ?_, hpre, ?_⟩
    · rw [htrace, heq]
      simp only [List.append_assoc, List.cons_append]
    · exact fun a ha => (List.mem_append.mp ha).elim (hpost a) fun ha => (hacts a ha).2

/-- The write loop ends where a write fails. -/
theorem drainLoop_settled (ws : List WriteRes) : ∀ c : Ctx, Running t c →
    Running t (Ctx.drainLoop ws c).2 ∨
      (Ctx.drainLoop ws c).1 = false ∧ Aborted t (Ctx.drainLoop ws c).2 := by
  induction ws with
  | nil =>
    intro c h
    unfold Ctx.drainLoop
    split
    · exact .inl (h.trans (.one rfl))
    · exact .inl h
  | cons w ws ih =>
    intro c h
    unfold Ctx.drainLoop
    split
    · obtain ⟨c₀, hc₀⟩ : ∃ c₀ : Ctx, c₀ = { c with io.oracle.writes := ws } := ⟨_, rfl⟩
      have h₀ : Running t c₀ := by rw [hc₀]; exact h
      simp only
      rw [← hc₀]
      match w with
      | .ok 0 => exact .inl (h₀.trans (.one rfl))
      | .ok (n + 1) => exact ih _ (h₀.trans (.one rfl))
      | .wouldBlock => exact .inl (h₀.trans (.one rfl))
      | .interrupted => exact ih c₀ h₀
      | .err =>
        have herr : Running t (c₀.log .writeErr) := h₀.trans (.one rfl)
        exact .inr ⟨rfl, herr.abort⟩
    · exact .inl h

theorem Running.drain {c : Ctx} (h : Running t c) : Settled t c.tryDrainToHost := by
  unfold Ctx.tryDrainToHost
  split
  · exact .inl h
  · split
    · exact .inl h
    · have hloop := drainLoop_settled c.io.oracle.writes c h
      generalize Ctx.drainLoop c.io.oracle.writes c = r at hloop ⊢
      obtain ⟨done, c₁⟩ := r
      obtain hrun | ⟨hdone, habort⟩ := hloop
      · simp only
        split
        · exact .inl hrun
        · exact .inl hrun
      · simp only at hdone habort ⊢
        rw [hdone]
        exact .inr habort

theorem Running.of_view {c c' : Ctx} (h : Running t c) (hv : c'.view = c.view) : Running t c' :=
  h.path (hv ▸ .refl)

theorem Running.onHostWritable {c : Ctx} (h : Running t c) : Settled t c.onHostWritable := by
  have hview := connectFailed_view c
  unfold Ctx.onHostWritable
  generalize c.connectFailed = r at hview ⊢
  obtain ⟨failed, c₁⟩ := r
  have h₁ := h.of_view hview
  simp only
  split
  · exact .inr h₁.abort
  · have hwritable : Running t { c₁ with s.hostWritable := true } := h₁
    have hdrain := hwritable.drain
    unfold Ctx.writableDrained
    generalize Ctx.tryDrainToHost { c₁ with s.hostWritable := true } = c₂ at hdrain ⊢
    simp only
    split
    · exact hdrain.log [.shutdownWr] rfl (List.forall_mem_singleton.mpr ⟨rfl, rfl⟩) rfl rfl
    · exact hdrain

theorem Settled.onHostReadable {c : Ctx} (h : Settled t c) : Settled t c.onHostReadable := by
  unfold Ctx.onHostReadable
  split
  · exact h
  · rename_i hhost
    have hhost : c.s.host = true := by simpa using hhost
    obtain h | ⟨-, hdropped, -⟩ := h
    · split
      · exact .inl h
      · obtain ⟨c₁, hpath, hres | hres⟩ := readLoop_path c.io.oracle.reads c hhost
        · rw [hres]
          have hsent := (h.path hpath).path (trySegmentAndEmit_path c₁)
          exact .inl (hsent.of_view (refreshZwp_view _))
        · rw [hres]
          exact .inr (h.path hpath).abort
    · rw [hdropped] at hhost
      cases hhost

theorem Settled.hostClosedEvent {c : Ctx} (h : Settled t c) : Settled t c.hostClosedEvent := by
  obtain h | h := h
  · exact .inl (h.path (hostClosedEvent_path c))
  · have hclosed : c.noteClosed.s.state = .closed := h.1
    have hnote : Settled t c.noteClosed :=
      Settled.log (.inr h) [.hostClosed] rfl (List.forall_mem_singleton.mpr ⟨rfl, rfl⟩)
        rfl rfl
    unfold Ctx.hostClosedEvent Ctx.canFin
    simp only [hclosed]
    simpa using hnote

theorem onHostEvent_settled (c : Ctx) (ev : HostEvent) : Settled c.io.trace (c.onHostEvent ev) := by
  have hview := socketError_view c ev
  unfold Ctx.onHostEvent
  generalize c.socketError ev = r at hview ⊢
  obtain ⟨failed, c₁⟩ := r
  have h₁ : Running c.io.trace c₁ := (Running.refl c).of_view hview
  simp only
  split
  · exact .inr h₁.abort
  · have hw : Settled c.io.trace (if ev.isWritable then c₁.onHostWritable else c₁) := by
      split
      · exact h₁.onHostWritable
      · exact .inl h₁
    generalize (if ev.isWritable then c₁.onHostWritable else c₁) = c₂ at hw ⊢
    have hr : Settled c.io.trace (if ev.isReadable then c₂.onHostReadable else c₂) := by
      split
      · exact hw.onHostReadable
      · exact hw
    generalize (if ev.isReadable then c₂.onHostReadable else c₂) = c₃ at hr ⊢
    split
    · exact hr.hostClosedEvent
    · exact hr

/-! ## Segments -/

/-- Closing the session or its host socket. -/
def Action.closes : Action → Bool
  | .dropHost _ | .markClosed => true
  | _ => false

/-- Without a failed write, nothing is closed. -/
def Guarded (t t' : List Action) : Prop :=
  ∃ acts, t' = t ++ acts ∧ (acts.any Action.isWriteErr = false → ∀ a ∈ acts, a.closes = false)

theorem Guarded.of_adds {t t' : List Action} (h : Adds t t' fun a => a.closes = false) :
    Guarded t t' := by
  obtain ⟨acts, heq, hacts⟩ := h
  exact ⟨acts, heq, fun _ => hacts⟩

theorem Guarded.trans {t t' t'' : List Action} (h : Guarded t t') (h' : Guarded t' t'') :
    Guarded t t'' := by
  obtain ⟨acts, rfl, hacts⟩ := h
  obtain ⟨acts', rfl, hacts'⟩ := h'
  refine ⟨acts ++ acts', List.append_assoc _ _ _, fun hno a ha => ?_⟩
  rw [List.any_append, Bool.or_eq_false_iff] at hno
  exact (List.mem_append.mp ha).elim (hacts hno.1 a) (hacts' hno.2 a)

theorem DrainStep.guarded {x y : Obs} (h : DrainStep x y) : Guarded x.trace y.trace := by
  cases h with
  | clear => exact .of_adds .none
  | write | blocked | zero => exact .of_adds (.one rfl)
  | fail acts h =>
    refine ⟨.writeErr :: acts ++ .markClosed :: dropActs { x.s with state := .closed }, ?_, ?_⟩
    · exact List.append_assoc _ _ _
    · intro hno
      simp [Action.isWriteErr] at hno

theorem HostPath.guarded {x y : Obs} (h : HostPath x y) : Guarded x.trace y.trace := by
  induction h with
  | refl => exact .of_adds .none
  | tail _ hstep ih =>
    refine ih.trans ?_
    cases hstep with
    | book => exact .of_adds .none
    | enqueue data => exact .of_adds (.one rfl)
    | drain h => exact h.guarded

theorem Path.guarded {c c' : Ctx} (h : Path c.view c'.view) : Guarded c.io.trace c'.io.trace :=
  .of_adds (h.towardsHost.mono fun a ha => by cases a <;> first | rfl | cases ha)

theorem Moves.guarded {w : Bool} {c c' : Ctx} (h : Moves w c c') :
    Guarded c.io.trace c'.io.trace := by
  induction h with
  | refl => exact .of_adds .none
  | @tail c₁ _ _ hmove ih =>
    cases hmove with
    | path hpath => exact ih.trans (Path.guarded hpath)
    | drain => exact ih.trans (HostPath.guarded (tryDrainToHost_path c₁))
    | wake _ => exact ih.trans (HostPath.guarded (tryDrainToHost_path c₁.setWritable))

theorem Work.guarded {took : Bool} {c c' : Ctx} {seq : UInt32} {data : Bytes}
    (h : Work took seq data c c') : Guarded c.io.trace c'.io.trace := by
  obtain ⟨c₁, c₂, hpre, htaken, hmoves⟩ := h
  refine (Path.guarded hpre.path).trans (Guarded.trans ?_ (Moves.guarded hmoves))
  cases htaken with
  | skip => exact .of_adds .none
  | data _ _ =>
    exact (HostPath.guarded (handleDataIn_path c₁ seq data)).trans
      (Path.guarded (emitAck_path _ (.inl rfl)).send.path)

theorem Ending.settled {final : Prop} {c c' : Ctx} (h : Ending final c c') (hrun : Running t c) :
    Settled t c' := by
  cases h with
  | stay => exact .inl hrun
  | abort => exact .inr hrun.abort
  | abortClosed =>
    exact Settled.log (.inr hrun.abort) [.hostClosed] rfl
      (List.forall_mem_singleton.mpr ⟨rfl, rfl⟩) rfl rfl
  | close _ => exact .inr hrun.markClosed
  | timeWait _ now hv =>
    have htrace : c'.io.trace = c.io.trace ++ dropActs (c.toTimeWait now).s :=
      (congrArg View.trace hv).trans (congrArg Obs.trace (closeHostSocket_obs (c.toTimeWait now)))
    refine .inl (hrun.trans ⟨_, htrace, fun a ha => ?_⟩)
    rw [(mem_dropActs ha).1]
    rfl

theorem Ending.extends {final : Prop} {c c' : Ctx} (h : Ending final c c') :
    ∃ acts, c'.io.trace = c.io.trace ++ acts := by
  obtain ⟨acts, heq, -⟩ | ⟨-, -, acts, post, heq, -⟩ := h.settled (Running.refl c)
  · exact ⟨acts, heq⟩
  · exact ⟨_, heq⟩

theorem onSegment_settled (c : Ctx) (hopen : c.s.state ≠ .closed) (seg : Bytes)
    (hno : (newActs c (c.onSegment seg).2).any Action.isWriteErr = false) :
    Settled c.io.trace (c.onSegment seg).2 := by
  have hout := onSegment_outcome c hopen seg
  generalize (c.onSegment seg).2 = c' at hno hout ⊢
  cases hout with
  | segment hwork hend =>
    obtain ⟨acts, htrace, hacts⟩ := hwork.guarded
    obtain ⟨rest, hrest⟩ := hend.extends
    unfold newActs at hno
    rw [hrest, htrace, List.append_assoc, List.drop_left, List.any_append,
      Bool.or_eq_false_iff] at hno
    refine hend.settled ⟨acts, htrace, fun a ha => ?_⟩
    have hopen := hacts hno.1 a ha
    cases a <;> first | rfl | cases hopen

/-! ## Every event -/

theorem Settled.staysAborted {c c' : Ctx} (h : Settled c.io.trace c') :
    StaysAborted (newActs c c') c'.s :=
  h.elim Running.staysAborted Aborted.staysAborted

theorem step_settled (c : Ctx) (i : Input) (hevent : (∃ ev, i.event = .host ev) ∨
      ∃ seg, i.event = .segment seg ∧ (newActs c (c.step i)).any Action.isWriteErr = false) :
    Settled c.io.trace (c.step i) := by
  unfold Ctx.step at hevent ⊢
  split
  · exact .inl (.refl c)
  · rename_i hclosed
    have hopen : c.s.state ≠ .closed := by simpa using hclosed
    obtain ⟨ev, hev⟩ | ⟨seg, hseg, hno⟩ := hevent
    · rw [hev]
      exact onHostEvent_settled (c.load i.oracle) ev
    · rw [if_neg hclosed, hseg] at hno
      rw [hseg]
      exact onSegment_settled (c.load i.oracle) hopen seg hno

/-- A host event, or a segment during which no host write fails, is done with the session once
`mark_closed` has run; `handle_tcp` then removes the session. -/
theorem aborted_stays_aborted (key : FlowKey) (c : Ctx) (i : Input)
    (hevent : (∃ ev, i.event = .host ev) ∨
      ∃ seg, i.event = .segment seg ∧ (newActs c (c.step i)).any Action.isWriteErr = false) :
    StaysAborted (newActs c (c.step i)) (c.step i).s ∧
      ∀ (seg : Bytes) (t : TcpTable), i.event = .segment seg → t key = some c →
        (newActs c (c.step i)).any Action.isClose = true →
          (handleTcp t key seg i.oracle).2 key = none := by
  have hstays := (step_settled c i hevent).staysAborted
  refine ⟨hstays, fun seg t hseg hmem hclose => ?_⟩
  have hclosed := (hstays hclose).1
  have hne : newActs c (c.step i) ≠ [] := by
    intro hnil
    rw [hnil] at hclose
    cases hclose
  have hstep : c.step i = ((c.load i.oracle).onSegment seg).2 := by
    unfold Ctx.step at hne ⊢
    split
    · rename_i hstate
      rw [if_pos hstate] at hne
      exact absurd (List.drop_length) hne
    · rw [hseg]
      rfl
  refine handleTcp_removes ?_ hmem (by rw [← hstep]; exact hclosed)
  refine Nat.not_lt.mp fun hshort => hne ?_
  rw [hstep]
  unfold Ctx.onSegment
  rw [if_pos hshort]
  exact List.drop_length

/-- The ACK that completes the handshake, with a host that cannot be connected to. -/
def unreachableHost : Input := { sampleAck 1000 with oracle := { connect := false } }

theorem aborted_stays_aborted_unreachable :
    (newActs (sampleStart 1000 []) ((sampleStart 1000 []).step unreachableHost)).any
        Action.isClose = true ∧
      StaysAborted (newActs (sampleStart 1000 []) ((sampleStart 1000 []).step unreachableHost))
        ((sampleStart 1000 []).step unreachableHost).s :=
  ⟨by decide +kernel, (aborted_stays_aborted sampleKey (sampleStart 1000 []) unreachableHost
    (.inr ⟨_, rfl, by decide +kernel⟩)).1⟩

/-- An established session whose host socket takes writes. -/
def writableSession : Ctx :=
  (sampleStart 1000 []).run [sampleAck 1000, ⟨.host { isWritable := true }, {}⟩]

/-- The last segment of the client's stream, one byte and the FIN, whose write fails. -/
def failingFin : Input :=
  ⟨.segment (clientSegment sampleKey (TCP_FIN ||| TCP_ACK) 101 1 1000 [] [7]), { writes := [.err] }⟩

theorem abort_undone_by_fin :
    ¬ ∀ (key : FlowKey) (c : Ctx) (i : Input), Reachable key c →
      (∃ seg, i.event = .segment seg) ∨ (∃ ev, i.event = .host ev) →
        StaysAborted (newActs c (c.step i)) (c.step i).s := by
  intro hall
  have hreach : Reachable sampleKey writableSession :=
    (sampleStart_accepted _ _ (by decide)).reachable _
  exact absurd (hall _ _ failingFin hreach (.inl ⟨_, rfl⟩)) (by decide +kernel)

example : (writableSession.step failingFin).s.state = .closeWait := by decide +kernel

end BaleVpn.Tcp
