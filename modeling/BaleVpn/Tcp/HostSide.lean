import BaleVpn.Tcp.View

/-!
# The session towards the host

What `handle_data_in` and `try_drain_to_host` do, as steps on the session and the trace: reassembly
bookkeeping, bytes queued for the host, and the host's answers to writes. The sender, the pacing
state and the negotiated options are untouched, and only a failed write closes the session.
-/

namespace BaleVpn.Tcp

open Net Relation

/-- The session and what it has done. -/
structure Obs where
  s : TcpSession
  trace : List Action

def Ctx.obs (c : Ctx) : Obs := ⟨c.s, c.io.trace⟩

/-- What `close_host_socket` logs. -/
def dropActs (s : TcpSession) : List Action := if s.host then [.dropHost s] else []

theorem mem_dropActs {s : TcpSession} {a : Action} (h : a ∈ dropActs s) :
    a = .dropHost s ∧ s.host = true := by
  unfold dropActs at h
  split at h
  · rename_i hhost
    exact ⟨List.mem_singleton.mp h, hhost⟩
  · cases h

/-- What `emit_rst` logs. -/
def RstActs (s : TcpSession) (acts : List Action) : Prop :=
  let b := s.header (TCP_RST ||| TCP_ACK) s.sndNxt s.rcvNxt 0 [] []
  (buildTcp 64 b = none ∧ acts = []) ∨
    ∃ pkt ok, buildTcp 64 b = some pkt ∧ acts = [.emit .rst s b pkt ok]

/-- The session after `mark_closed`, and what closing logs. -/
def Obs.closed (x : Obs) : Obs where
  s := { x.s with state := .closed, host := false }
  trace := x.trace ++ .markClosed :: dropActs { x.s with state := .closed }

/-- A step of draining `to_host`: the host's answer to a write, or the end of the drain. -/
inductive DrainStep : Obs → Obs → Prop
  | write (x : Obs) (data rest : Bytes) (h : x.s.unwritten = data ++ rest) :
      DrainStep x ⟨{ x.s with toHostOff := x.s.toHostOff + data.length }, x.trace ++ [.write data]⟩
  | blocked (x : Obs) :
      DrainStep x ⟨{ x.s with hostWritable := false }, x.trace ++ [.writeBlocked]⟩
  | zero (x : Obs) :
      DrainStep x ⟨{ x.s with toHost := [], toHostOff := 0 }, x.trace ++ [.writeZero]⟩
  | clear (x : Obs) (h : x.s.unwritten = []) :
      DrainStep x { x with s.toHost := [], s.toHostOff := 0 }
  | fail (x : Obs) (acts : List Action) (h : RstActs x.s acts) :
      DrainStep x (Obs.closed ⟨x.s, x.trace ++ .writeErr :: acts⟩)

abbrev DrainPath : Obs → Obs → Prop := ReflTransGen DrainStep

/-- A step towards the host. -/
inductive HostStep : Obs → Obs → Prop
  | book (x : Obs) (rcvNxt : UInt32) (ooo : List OooSeg) (oooBytes : ℕ) :
      HostStep x { x with s.rcvNxt := rcvNxt, s.ooo := ooo, s.oooBytes := oooBytes }
  | enqueue (x : Obs) (data : Bytes) :
      HostStep x ⟨{ x.s with toRecvVars := x.s.toRecvVars.push data }, x.trace ++ [.enqueue data]⟩
  | drain {x y : Obs} (h : DrainStep x y) : HostStep x y

abbrev HostPath : Obs → Obs → Prop := ReflTransGen HostStep

/-! ## Closing -/

theorem closeHostSocket_obs (c : Ctx) :
    c.closeHostSocket.obs = ⟨{ c.s with host := false }, c.io.trace ++ dropActs c.s⟩ := by
  unfold Ctx.closeHostSocket dropActs
  split
  · rfl
  · rename_i h
    have hhost : c.s.host = false := eq_false_of_ne_true h
    rw [List.append_nil, ← hhost]
    rfl

theorem markClosed_obs (c : Ctx) : c.markClosed.obs = c.obs.closed := by
  unfold Ctx.markClosed
  rw [closeHostSocket_obs]
  exact congrArg (Obs.mk _) (List.append_cons _ _ _).symm

theorem emitRst_obs (c : Ctx) : ∃ acts, RstActs c.s acts ∧
    (c.emitRst c.s.sndNxt c.s.rcvNxt).obs = ⟨c.s, c.io.trace ++ acts⟩ := by
  unfold Ctx.emitRst RstActs
  simp only
  split
  · rename_i h
    exact ⟨[], .inl ⟨h, rfl⟩, by rw [List.append_nil]; rfl⟩
  · rename_i pkt h
    exact ⟨_, .inr ⟨pkt, _, h, rfl⟩, rfl⟩

theorem abort_obs (c : Ctx) : ∃ acts, RstActs c.s acts ∧
    c.abort.obs = Obs.closed ⟨c.s, c.io.trace ++ acts⟩ := by
  obtain ⟨acts, hacts, hobs⟩ := emitRst_obs c
  exact ⟨acts, hacts, by rw [← hobs]; exact markClosed_obs _⟩

/-! ## Draining -/

theorem unwritten_eq_nil (s : TcpSession) : s.unwritten = [] ↔ s.toHost.length ≤ s.toHostOff :=
  List.drop_eq_nil_iff

theorem hostTook_step (c : Ctx) (n : ℕ) : DrainStep c.obs (c.hostTook n).obs :=
  .write c.obs (c.s.unwritten.take n) (c.s.unwritten.drop n) (List.take_append_drop _ _).symm

theorem drainLoop_path (ws : List WriteRes) : ∀ c : Ctx, ∃ x, DrainPath c.obs x ∧
    (((Ctx.drainLoop ws c).1 = false ∧ (Ctx.drainLoop ws c).2.obs = x) ∨
      ((Ctx.drainLoop ws c).1 = true ∧
        ((x.s.unwritten = [] ∧ (Ctx.drainLoop ws c).2.obs = x) ∨
          (Ctx.drainLoop ws c).2.obs = ⟨x.s, x.trace ++ [.writeZero]⟩))) := by
  induction ws with
  | nil =>
    intro c
    unfold Ctx.drainLoop
    split
    · exact ⟨_, .single (.blocked c.obs), .inl ⟨rfl, rfl⟩⟩
    · rename_i h
      exact ⟨c.obs, .refl, .inr ⟨rfl, .inl ⟨(unwritten_eq_nil c.s).mpr (Nat.not_lt.mp h), rfl⟩⟩⟩
  | cons w ws ih =>
    intro c
    unfold Ctx.drainLoop
    split
    · obtain ⟨c₀, hc₀⟩ : ∃ c₀ : Ctx, c₀ = { c with io.oracle.writes := ws } := ⟨_, rfl⟩
      have hobs : c₀.obs = c.obs := by rw [hc₀]; rfl
      rw [← hobs]
      simp only
      rw [← hc₀]
      match w with
      | .ok 0 => exact ⟨c₀.obs, .refl, .inr ⟨rfl, .inr rfl⟩⟩
      | .ok (n + 1) =>
        obtain ⟨x, hx, hres⟩ := ih (c₀.hostTook (n + 1))
        exact ⟨x, .head (hostTook_step c₀ (n + 1)) hx, hres⟩
      | .wouldBlock => exact ⟨_, .single (.blocked c₀.obs), .inl ⟨rfl, rfl⟩⟩
      | .interrupted => exact ih c₀
      | .err =>
        obtain ⟨acts, hacts, habort⟩ := abort_obs (c₀.log .writeErr)
        have hstep := DrainStep.fail c₀.obs acts hacts
        rw [List.append_cons c₀.obs.trace] at hstep
        exact ⟨_, .single hstep, .inl ⟨rfl, habort⟩⟩
    · rename_i h
      exact ⟨c.obs, .refl, .inr ⟨rfl, .inl ⟨(unwritten_eq_nil c.s).mpr (Nat.not_lt.mp h), rfl⟩⟩⟩

theorem clearToHost_obs (c : Ctx) :
    c.clearToHost.obs = { c.obs with s.toHost := [], s.toHostOff := 0 } := rfl

theorem tryDrainToHost_drain (c : Ctx) : DrainPath c.obs c.tryDrainToHost.obs := by
  unfold Ctx.tryDrainToHost
  split
  · exact .refl
  · split
    · exact .refl
    · obtain ⟨x, hx, hres⟩ := drainLoop_path c.io.oracle.writes c
      generalize Ctx.drainLoop c.io.oracle.writes c = r at hres ⊢
      obtain ⟨done, c'⟩ := r
      simp only at hres ⊢
      obtain ⟨rfl, rfl⟩ | ⟨rfl, ⟨hempty, rfl⟩ | hzero⟩ := hres
      · exact hx
      · exact hx.tail (.clear c'.obs hempty)
      · simp only [if_true]
        rw [clearToHost_obs, hzero]
        exact hx.tail (.zero x)

theorem tryDrainToHost_path (c : Ctx) : HostPath c.obs c.tryDrainToHost.obs :=
  ReflTransGen.mono (p := HostStep) (fun _ _ h => HostStep.drain h) _ _ (tryDrainToHost_drain c)

/-! ## Data from the client -/

theorem enqueueToHost_path (c : Ctx) (data : Bytes) : HostPath c.obs (c.enqueueToHost data).obs := by
  have hstep : HostStep c.obs (c.appendToHost data).obs := .enqueue c.obs data
  unfold Ctx.enqueueToHost
  generalize c.appendToHost data = c₁ at hstep ⊢
  simp only
  split
  · exact .head hstep (tryDrainToHost_path c₁)
  · exact .single hstep

theorem popOoo_step (c : Ctx) (head : OooSeg) (rest : List OooSeg) :
    HostStep c.obs (c.popOoo head rest).obs := .book c.obs _ _ _

theorem setRcvNxt_step (c : Ctx) (seq : UInt32) : HostStep c.obs (c.setRcvNxt seq).obs :=
  .book c.obs _ _ _

theorem deliverOoo_path (l : List OooSeg) : ∀ c : Ctx,
    HostPath c.obs (Ctx.deliverOoo l c).obs := by
  induction l with
  | nil => exact fun _ => .refl
  | cons head rest ih =>
    intro c
    have hpop := popOoo_step c head rest
    unfold Ctx.deliverOoo
    simp only
    split
    · exact .head hpop (ih _)
    · split
      · exact .refl
      · exact .head hpop ((enqueueToHost_path _ _).trans (.head (setRcvNxt_step _ _) (ih _)))

theorem storeOoo_path (c : Ctx) (seq : UInt32) (data : Bytes) :
    HostPath c.obs (c.storeOoo seq data).obs := by
  unfold Ctx.storeOoo
  simp only
  split
  · exact .refl
  · split
    · exact .refl
    · split
      · exact .refl
      · split
        · exact .refl
        · exact .single (.book c.obs _ _ _)

theorem acceptData_path (c : Ctx) (seq : UInt32) (data : Bytes) :
    HostPath c.obs (c.acceptData seq data).obs := by
  unfold Ctx.acceptData
  simp only
  split
  · exact (enqueueToHost_path c data).trans (.head (setRcvNxt_step _ _) (deliverOoo_path _ _))
  · exact storeOoo_path c seq data

theorem handleDataIn_path (c : Ctx) (seq : UInt32) (data : Bytes) :
    HostPath c.obs (c.handleDataIn seq data).obs := by
  unfold Ctx.handleDataIn
  simp only
  split
  · exact .refl
  · split
    · exact .refl
    · split
      · split
        · exact .refl
        · exact acceptData_path _ _ _
      · exact acceptData_path _ _ _

/-! ## What it leaves alone -/

/-- The fields no step towards the host changes, but for a close. -/
structure HostFrame (s s' : TcpSession) : Prop where
  send : s'.toSendVars = s.toSendVars
  peer : s'.toPeerOpts = s.toPeerOpts
  pacing : s'.toPacing = s.toPacing
  key : s'.key = s.key
  retx : s'.retx = s.retx
  rcvWnd : s'.rcvWnd = s.rcvWnd
  readEof : s'.hostReadEof = s.hostReadEof
  state : s'.state = s.state ∨ s'.state = .closed

theorem RecvVars.push_rcvWnd (x : RecvVars) (data : Bytes) : (x.push data).rcvWnd = x.rcvWnd := by
  unfold RecvVars.push
  split <;> rfl

theorem DrainStep.frame {x y : Obs} (h : DrainStep x y) : HostFrame x.s y.s := by
  cases h with
  | fail acts h => exact ⟨rfl, rfl, rfl, rfl, rfl, rfl, rfl, .inr rfl⟩
  | _ => exact ⟨rfl, rfl, rfl, rfl, rfl, rfl, rfl, .inl rfl⟩

theorem HostStep.frame {x y : Obs} (h : HostStep x y) : HostFrame x.s y.s := by
  cases h with
  | book => exact ⟨rfl, rfl, rfl, rfl, rfl, rfl, rfl, .inl rfl⟩
  | enqueue data =>
    exact ⟨rfl, rfl, rfl, rfl, rfl, RecvVars.push_rcvWnd x.s.toRecvVars data, rfl, .inl rfl⟩
  | drain h => exact h.frame

theorem HostPath.frame {x y : Obs} (h : HostPath x y) : HostFrame x.s y.s := by
  induction h with
  | refl => exact ⟨rfl, rfl, rfl, rfl, rfl, rfl, rfl, .inl rfl⟩
  | tail _ hstep ih =>
    have hf := hstep.frame
    refine ⟨hf.send.trans ih.send, hf.peer.trans ih.peer, hf.pacing.trans ih.pacing,
      hf.key.trans ih.key, hf.retx.trans ih.retx, hf.rcvWnd.trans ih.rcvWnd,
      hf.readEof.trans ih.readEof, ?_⟩
    obtain h | h := hf.state
    · rw [h]
      exact ih.state
    · exact .inr h

end BaleVpn.Tcp
