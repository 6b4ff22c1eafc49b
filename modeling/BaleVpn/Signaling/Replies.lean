import Mathlib.Algebra.Group.Nat.Defs
import Mathlib.Data.List.Induction
import BaleVpn.Lib.Update
import BaleVpn.Signaling.Rpc

/-!
# Replies

Every reply that `rpc_call` returns is the first with its `idx` that came while the call was pending. A
drain ends every call that has filed its entry and has not timed out, with its reply if that was there
already, and otherwise as canceled or not connected.
-/

namespace BaleVpn.Signaling

open Lib

namespace RpcPlumbing

theorem run_append (s : RpcPlumbing) (ms ms' : List RpcMove) : s.run (ms ++ ms') = (s.run ms).run ms' :=
  List.foldl_append

/-! ## Replies -/

/-- No response with the `idx` has come while call `n` was pending. -/
def NoneYet (ms : List RpcMove) (n : ℕ) (idx : BitVec 32) : Prop :=
  ∀ ms₁ resp ms₂, ms = ms₁ ++ .response resp :: ms₂ → resp.idx = idx → (run {} ms₁).pending idx ≠ some n

/-- The first response with the call's `idx` that came while the call was pending has brought the reply. -/
def FirstReply (ms : List RpcMove) (n : ℕ) (idx : BitVec 32) (reply : Reply) : Prop :=
  ∃ ms₁ resp ms₂, ms = ms₁ ++ .response resp :: ms₂ ∧ resp.idx = idx ∧ resp.reply = reply ∧
    (run {} ms₁).pending idx = some n ∧ NoneYet ms₁ n idx

end RpcPlumbing

namespace RpcPc

/-- The entry was filed and has not been taken out by the call. -/
@[simp]
def Filed : RpcPc → Bool
  | .insert | .returned _ => false
  | .lookup | .send _ | .awaiting | .remove _ => true

@[simp]
def result : RpcPc → Option RpcResult
  | .remove r | .returned r => some r
  | .insert | .lookup | .send _ | .awaiting => none

end RpcPc

namespace RpcPlumbing

/-- What holds of the calls of a run. -/
structure Matched (ms : List RpcMove) : Prop where
  own : ∀ (n : ℕ) (c : RpcCall) (reply : Reply), (run {} ms).calls[n]? = some c →
    c.pc = .returned (ofReply reply) → FirstReply ms n c.idx reply
  /-- A drain ends the calls that have filed their entry. -/
  drained : ∀ ms₁ teardown ms₂, ms = ms₁ ++ .drainPending teardown :: ms₂ →
    ∀ (n : ℕ) (c₀ c : RpcCall) (r : RpcResult), (run {} ms₁).calls[n]? = some c₀ → c₀.pc ≠ .insert →
      c₀.pc.result ≠ some (.error .timeout) → (run {} ms).calls[n]? = some c → c.pc = .returned r →
      r = .error .canceled ∨ r = .error .notConnected ∨
        ∃ reply, c₀.responder = .answered reply ∧ r = ofReply reply
  /-- A reply that has arrived is not lost to a call that awaits it. -/
  arrived : ∀ ms₁ ms₂, ms = ms₁ ++ ms₂ →
    ∀ (n : ℕ) (c₀ c : RpcCall) (reply : Reply) (r : RpcResult), (run {} ms₁).calls[n]? = some c₀ →
      c₀.pc = .awaiting → c₀.responder = .answered reply → (run {} ms).calls[n]? = some c →
      c.pc = .returned r → r = ofReply reply
  /-- Until a sender is installed again, nobody connects who looks for one after it was cleared. -/
  cleared : ∀ ms₁ ms₂, ms = ms₁ ++ .clearSender :: ms₂ → (∀ k, .installSender k ∉ ms₂) →
    ∀ (n : ℕ) (c : RpcCall) (r : RpcResult),
      (∀ c₀, (run {} ms₁).calls[n]? = some c₀ → c₀.pc = .insert ∨ c₀.pc = .lookup) →
      (run {} ms).calls[n]? = some c → c.pc = .returned r → r = .error .notConnected
  gone : ∀ (n : ℕ) (c : RpcCall) (r : RpcResult), (run {} ms).calls[n]? = some c →
    c.pc = .returned r → ∀ idx, (run {} ms).pending idx ≠ some n

/-! ## What a move does to a call -/

def idxs (s : RpcPlumbing) : List (BitVec 32) := s.calls.map RpcCall.idx

structure Sound (s : RpcPlumbing) : Prop where
  keyed : ∀ (idx : BitVec 32) (n : ℕ), s.pending idx = some n →
    ∃ c, s.calls[n]? = some c ∧ c.idx = idx ∧ c.responder = .waiting ∧ c.pc.Filed
  filed : ∀ (n : ℕ) (c : RpcCall), s.calls[n]? = some c → c.responder = .waiting → c.pc.Filed →
    s.pending c.idx = some n
  fresh : ∀ (n : ℕ) (c : RpcCall), s.calls[n]? = some c → c.pc = .insert → c.responder = .waiting

/-- The moves of a call, and what others do to it. -/
inductive CallStep (s : RpcPlumbing) (n : ℕ) (c : RpcCall) : RpcMove → RpcCall → Prop
  | keep (m : RpcMove) (hm : ∀ resp, m = .response resp → s.pending resp.idx ≠ some n)
    (hm' : ∀ i, m = .drainPending i → s.pending c.idx ≠ some n) : CallStep s n c m c
  | insert (h : c.pc = .insert) : CallStep s n c (.step n) { c with pc := .lookup }
  | lookup (k : ℕ) (h : c.pc = .lookup) (hk : s.sendTx = some k) :
    CallStep s n c (.step n) { c with pc := .send k }
  | notConnected (h : c.pc = .lookup) :
    CallStep s n c (.step n) { c with pc := .remove (.error .notConnected) }
  | sent (k : ℕ) (h : c.pc = .send k) :
    CallStep s n c (.step n) { c with pc := .awaiting, session := some k }
  | closed (k : ℕ) (h : c.pc = .send k) :
    CallStep s n c (.step n) { c with pc := .remove (.error .notConnected) }
  | replied (reply : Reply) (h : c.pc = .awaiting) (hr : c.responder = .answered reply) :
    CallStep s n c (.step n) { c with pc := .remove (ofReply reply) }
  | canceled (t : Option ℕ) (h : c.pc = .awaiting) (hr : c.responder = .dropped t) :
    CallStep s n c (.step n) { c with pc := .remove (.error .canceled) }
  | removed (r : RpcResult) (h : c.pc = .remove r) (hr : c.responder ≠ .waiting) :
    CallStep s n c (.step n) { c with pc := .returned r }
  | released (r : RpcResult) (h : c.pc = .remove r) (hr : c.responder = .waiting) :
    CallStep s n c (.step n) { c with pc := .returned r, responder := .dropped none }
  | timeout (h : c.pc = .awaiting) (hr : c.responder = .waiting) :
    CallStep s n c (.timeout n) { c with pc := .remove (.error .timeout) }
  | answered (resp : RpcResponse) (h : s.pending resp.idx = some n) :
    CallStep s n c (.response resp) { c with responder := .answered resp.reply }
  | drained (i : ℕ) (h : s.pending c.idx = some n) :
    CallStep s n c (.drainPending i) { c with responder := .dropped (some i) }

theorem eq_of_idx {s : RpcPlumbing} (hd : s.idxs.Nodup) {n k : ℕ} {c c' : RpcCall}
    (hc : s.calls[n]? = some c) (hc' : s.calls[k]? = some c') (h : c.idx = c'.idx) : n = k := by
  have hn : s.idxs[n]? = some c.idx := by simp [idxs, hc]
  have hk : s.idxs[k]? = some c.idx := by simp [idxs, hc', h]
  exact (List.getElem?_inj (List.getElem?_eq_some_iff.mp hn).1 hd).mp (hn.trans hk.symm)

theorem removePending_of_none {s : RpcPlumbing} {idx : BitVec 32} (h : s.pending idx = none) :
    s.removePending idx = s := by
  have hpending : Function.update s.pending idx none = s.pending := by
    rw [← h, Function.update_eq_self]
  simp [removePending, h, hpending]

theorem idxs_modify (s : RpcPlumbing) (n : ℕ) {f : RpcCall → RpcCall} (hf : ∀ c, (f c).idx = c.idx) :
    (s.modify n f).idxs = s.idxs :=
  map_modify_of_eq s.calls n hf

theorem idxs_setPc (s : RpcPlumbing) (n : ℕ) (pc : RpcPc) : (s.setPc n pc).idxs = s.idxs :=
  s.idxs_modify n fun _ => rfl

theorem idxs_removePending (s : RpcPlumbing) (idx : BitVec 32) : (s.removePending idx).idxs = s.idxs := by
  unfold removePending
  split
  · exact idxs_modify _ _ fun _ => rfl
  · rfl

theorem idxs_move (s : RpcPlumbing) {m : RpcMove} (hm : m ≠ .call) : (s.move m).idxs = s.idxs := by
  cases m with
  | call => exact absurd rfl hm
  | step n =>
    simp only [move, rpcStep]
    split
    · next c hc =>
      split
      · exact (idxs_setPc _ _ _).trans (s.idxs_removePending c.idx)
      · split <;> exact s.idxs_setPc n _
      · split
        · exact s.idxs_setPc n _
        · exact s.idxs_modify n fun _ => rfl
      · split
        · rfl
        · exact s.idxs_setPc n _
        · exact s.idxs_setPc n _
      · exact (idxs_setPc _ _ _).trans (s.idxs_removePending c.idx)
      · rfl
    · rfl
  | timeout n =>
    simp only [move, timeout]
    split
    · split
      · exact s.idxs_setPc n _
      · rfl
    · rfl
  | response resp =>
    simp only [move, dispatchRpcResponse]
    split
    · exact idxs_modify _ _ fun _ => rfl
    · rfl
  | drainPending i =>
    apply List.ext_getElem?
    intro n
    simp only [move, drainPending, idxs, List.getElem?_map, List.getElem?_mapIdx, Option.map_map]
    congr 1
    funext c
    simp only [Function.comp]
    split <;> rfl
  | fetchAdd | setSubscribeIdx idx | installSender k | clearSender | close k => rfl

theorem rpcIdx_removePending (s : RpcPlumbing) (idx : BitVec 32) :
    (s.removePending idx).rpcIdx = s.rpcIdx := by
  unfold removePending
  split <;> rfl

theorem rpcIdx_move (s : RpcPlumbing) (m : RpcMove) :
    (s.move m).rpcIdx = if m.Allocates then s.rpcIdx + 1 else s.rpcIdx := by
  cases m with
  | step n =>
    simp only [move, rpcStep]
    split
    · next c hc =>
      split
      · exact s.rpcIdx_removePending c.idx
      · split <;> rfl
      · split <;> rfl
      · split <;> rfl
      · exact s.rpcIdx_removePending c.idx
      · rfl
    · rfl
  | timeout n =>
    simp only [move, timeout]
    split
    · split <;> rfl
    · rfl
  | response resp =>
    simp only [move, dispatchRpcResponse]
    split <;> rfl
  | call | fetchAdd | setSubscribeIdx idx | installSender k | clearSender | drainPending i | close k => rfl

/-! ## Indices -/

/-- `k` indices have been taken, one after the other from 1 on. -/
structure Numbered (s : RpcPlumbing) (k : ℕ) : Prop where
  next : s.rpcIdx = BitVec.ofNat 32 (k + 1)
  earlier : ∀ i ∈ s.idxs, ∃ p < k, i = BitVec.ofNat 32 (p + 1)
  nodup : k ≤ 2 ^ 32 → s.idxs.Nodup

theorem Numbered.move {s : RpcPlumbing} {k : ℕ} (h : Numbered s k) (m : RpcMove) :
    Numbered (s.move m) (if m.Allocates then k + 1 else k) := by
  have hnext : (s.move m).rpcIdx = BitVec.ofNat 32 ((if m.Allocates then k + 1 else k) + 1) := by
    rw [rpcIdx_move, h.next]
    split
    · rw [BitVec.ofNat_add (k + 1) 1]
      rfl
    · rfl
  have hle : k ≤ if m.Allocates then k + 1 else k := by split <;> omega
  by_cases hm : m = .call
  · subst hm
    have hidxs : (s.move .call).idxs = s.idxs ++ [s.rpcIdx] := by simp [RpcPlumbing.move, rpcCall, fetchAdd, idxs]
    refine ⟨hnext, fun i hi => ?_, fun hk => ?_⟩
    · rw [hidxs, List.mem_append, List.mem_singleton] at hi
      obtain hi | rfl := hi
      · obtain ⟨p, hp, rfl⟩ := h.earlier i hi
        exact ⟨p, by omega, rfl⟩
      · exact ⟨k, by simp [RpcMove.Allocates], h.next⟩
    · have hk' : k + 1 ≤ 2 ^ 32 := by simpa [RpcMove.Allocates] using hk
      rw [hidxs]
      refine List.Nodup.append (h.nodup (by omega)) (List.nodup_singleton _) fun i hi hnew => ?_
      obtain ⟨p, hp, rfl⟩ := h.earlier i hi
      rw [List.mem_singleton, h.next] at hnew
      have hval := congrArg BitVec.toNat hnew
      simp only [BitVec.toNat_ofNat] at hval
      omega
  · have hidxs := s.idxs_move hm
    refine ⟨hnext, fun i hi => ?_, fun hk => ?_⟩
    · rw [hidxs] at hi
      obtain ⟨p, hp, rfl⟩ := h.earlier i hi
      exact ⟨p, by omega, rfl⟩
    · rw [hidxs]
      exact h.nodup (by omega)

theorem numbered_run (ms : List RpcMove) : Numbered (run {} ms) (ms.countP RpcMove.Allocates) := by
  induction ms using List.reverseRecOn with
  | nil => exact ⟨rfl, fun i hi => by simp [run, idxs] at hi, fun _ => by simp [run, idxs]⟩
  | append_singleton ms m ih =>
    have hcount : (ms ++ [m]).countP RpcMove.Allocates =
        if m.Allocates then ms.countP RpcMove.Allocates + 1 else ms.countP RpcMove.Allocates := by
      rw [List.countP_append, List.countP_singleton]
      split <;> rfl
    rw [hcount, run_append]
    exact ih.move m

namespace Sound

variable {s : RpcPlumbing} {n : ℕ} {c : RpcCall}

theorem eq_of_pending (h : Sound s) (hd : s.idxs.Nodup) (hc : s.calls[n]? = some c) {k : ℕ}
    (hk : s.pending c.idx = some k) : k = n := by
  obtain ⟨c', hc', hidx, -⟩ := h.keyed _ _ hk
  exact eq_of_idx hd hc' hc hidx

theorem of_pending (h : Sound s) (hc : s.calls[n]? = some c) {idx : BitVec 32}
    (hp : s.pending idx = some n) : c.idx = idx ∧ c.responder = .waiting ∧ c.pc.Filed := by
  obtain ⟨c', hc', hrest⟩ := h.keyed _ _ hp
  obtain rfl : c = c' := by simpa [hc] using hc'
  exact hrest

theorem pending_eq_none (h : Sound s) (hd : s.idxs.Nodup) (hc : s.calls[n]? = some c)
    (hnot : c.responder = .waiting → c.pc.Filed = false) : s.pending c.idx = none := by
  cases hp : s.pending c.idx with
  | none => rfl
  | some k =>
    obtain rfl := h.eq_of_pending hd hc hp
    obtain ⟨-, hwaiting, hfiled⟩ := h.of_pending hc hp
    rw [hnot hwaiting] at hfiled
    cases hfiled

theorem removePending_cases (h : Sound s) (hd : s.idxs.Nodup) (hc : s.calls[n]? = some c)
    (hfiled : c.pc.Filed) :
    (c.responder ≠ .waiting ∧ s.removePending c.idx = s) ∨
    (c.responder = .waiting ∧ s.removePending c.idx =
      { s with pending := Function.update s.pending c.idx none }.modify n fun c =>
        { c with responder := .dropped none }) := by
  by_cases hw : c.responder = .waiting
  · refine .inr ⟨hw, ?_⟩
    simp [removePending, h.filed n c hc hw hfiled]
  · exact .inl ⟨hw, removePending_of_none (h.pending_eq_none hd hc fun hw' => absurd hw' hw)⟩

theorem rpcStep_self (h : Sound s) (hd : s.idxs.Nodup) (hc : s.calls[n]? = some c) :
    ∃ c', (s.rpcStep n).calls[n]? = some c' ∧ CallStep s n c (.step n) c' := by
  have keep : CallStep s n c (.step n) c :=
    .keep _ (fun _ hm => by cases hm) (fun _ hm => by cases hm)
  unfold rpcStep
  simp only [hc]
  split
  · next hpc =>
    have hnone := h.pending_eq_none hd hc fun _ => by simp [hpc]
    rw [removePending_of_none hnone]
    exact ⟨_, by simp [setPc, modify, hc], .insert hpc⟩
  · next hpc =>
    split
    · next k hk => exact ⟨_, by simp [setPc, modify, hc], .lookup k hpc hk⟩
    · exact ⟨_, by simp [setPc, modify, hc], .notConnected hpc⟩
  · next k hpc =>
    split
    · exact ⟨_, by simp [setPc, modify, hc], .closed k hpc⟩
    · exact ⟨_, by simp [modify, hc], .sent k hpc⟩
  · next hpc =>
    split
    · exact ⟨c, hc, keep⟩
    · next reply hr => exact ⟨_, by simp [setPc, modify, hc], .replied reply hpc hr⟩
    · next t hr => exact ⟨_, by simp [setPc, modify, hc], .canceled t hpc hr⟩
  · next r hpc =>
    obtain ⟨hw, hsame⟩ | ⟨hw, hrem⟩ := h.removePending_cases hd hc (by simp [hpc])
    · rw [hsame]
      exact ⟨_, by simp [setPc, modify, hc], .removed r hpc hw⟩
    · rw [hrem]
      exact ⟨_, by simp [setPc, modify, hc], .released r hpc hw⟩
  · exact ⟨c, hc, keep⟩

theorem rpcStep_of_ne (h : Sound s) (hd : s.idxs.Nodup) {k : ℕ} (hk : k ≠ n) :
    (s.rpcStep n).calls[k]? = s.calls[k]? := by
  unfold rpcStep
  split
  · next c hc =>
    split
    · next hpc =>
      have hnone := h.pending_eq_none hd hc fun _ => by simp [hpc]
      rw [removePending_of_none hnone]
      simp [setPc, modify, hk.symm]
    · split <;> simp [setPc, modify, hk.symm]
    · split <;> simp [setPc, modify, hk.symm]
    · split
      · rfl
      · simp [setPc, modify, hk.symm]
      · simp [setPc, modify, hk.symm]
    · next r hpc =>
      obtain ⟨-, hsame⟩ | ⟨-, hrem⟩ := h.removePending_cases hd hc (by simp [hpc])
      · simp [hsame, setPc, modify, hk.symm]
      · simp [hrem, setPc, modify, hk.symm]
    · rfl
  · rfl

/-- Every move takes a call at most one step further. -/
theorem callStep (h : Sound s) (hd : s.idxs.Nodup) (m : RpcMove) (hc : s.calls[n]? = some c) :
    ∃ c', (s.move m).calls[n]? = some c' ∧ CallStep s n c m c' := by
  cases m with
  | call =>
    exact ⟨c, getElem?_concat_of_eq_some hc _, .keep _ (fun _ hm => by cases hm) (fun _ hm => by cases hm)⟩
  | step k =>
    by_cases hk : n = k
    · subst hk
      exact h.rpcStep_self hd hc
    · exact ⟨c, by rw [move, h.rpcStep_of_ne hd hk, hc],
        .keep _ (fun _ hm => by cases hm) (fun _ hm => by cases hm)⟩
  | timeout k =>
    have keep : CallStep s n c (.timeout k) c :=
      .keep _ (fun _ hm => by cases hm) (fun _ hm => by cases hm)
    simp only [move, RpcPlumbing.timeout]
    split
    · next a ha =>
      split
      · next hpc =>
        by_cases hk : k = n
        · subst hk
          obtain rfl : c = a := by simpa [hc] using ha
          exact ⟨_, by simp [setPc, modify, hc], .timeout hpc.1 hpc.2⟩
        · exact ⟨c, by simp [setPc, modify, hk, hc], keep⟩
      · exact ⟨c, hc, keep⟩
    · exact ⟨c, hc, keep⟩
  | response resp =>
    simp only [move, dispatchRpcResponse]
    split
    · next k hp =>
      by_cases hk : k = n
      · subst hk
        exact ⟨_, by simp [modify, hc], .answered resp hp⟩
      · refine ⟨c, by simp [modify, hk, hc], .keep _ (fun resp' hm => ?_) (fun _ hm => by cases hm)⟩
        obtain rfl : resp = resp' := by simpa using hm
        simpa [hp] using hk
    · next hp =>
      refine ⟨c, hc, .keep _ (fun resp' hm => ?_) (fun _ hm => by cases hm)⟩
      obtain rfl : resp = resp' := by simpa using hm
      simp [hp]
  | drainPending i =>
    by_cases hp : s.pending c.idx = some n
    · exact ⟨_, by simp [move, RpcPlumbing.drainPending, List.getElem?_mapIdx, hc, hp], .drained i hp⟩
    · exact ⟨c, by simp [move, RpcPlumbing.drainPending, List.getElem?_mapIdx, hc, hp],
        .keep _ (fun _ hm => by cases hm) (fun _ _ => hp)⟩
  | fetchAdd | setSubscribeIdx idx | installSender k | clearSender | close k =>
    exact ⟨c, hc, .keep _ (fun _ hm => by cases hm) (fun _ hm => by cases hm)⟩

theorem callStep_of_move (h : Sound s) (hd : s.idxs.Nodup) {m : RpcMove} {c' : RpcCall}
    (hc' : (s.move m).calls[n]? = some c') :
    (∃ c, s.calls[n]? = some c ∧ CallStep s n c m c') ∨
      s.calls[n]? = none ∧ m = .call ∧ c' = { idx := s.rpcIdx } := by
  cases hc : s.calls[n]? with
  | some c =>
    obtain ⟨c'', hc'', hstep⟩ := h.callStep hd m hc
    obtain rfl : c' = c'' := by simpa [hc'] using hc''
    exact .inl ⟨c, rfl, hstep⟩
  | none =>
    refine .inr ⟨rfl, ?_⟩
    have hcall : m = .call := by
      by_contra hne
      have hsame := congrArg (·[n]?) (s.idxs_move hne)
      simp [idxs, hc, hc'] at hsame
    subst hcall
    obtain hold | ⟨-, hnew⟩ := getElem?_concat_eq_some hc'
    · simp [hc] at hold
    · exact ⟨rfl, hnew⟩

/-! The invariant is kept -/

theorem advance (h : Sound s) (hc : s.calls[n]? = some c) (f : RpcCall → RpcCall)
    (hidx : (f c).idx = c.idx) (hresp : (f c).responder = c.responder) (hpc : c.pc.Filed)
    (hpc' : (f c).pc.Filed) : Sound (s.modify n f) where
  keyed idx k hk := by
    obtain ⟨a, ha, rfl, hw, hfiled⟩ := h.keyed idx k hk
    refine ⟨_, getElem?_modify_of_eq_some ha n f, ?_⟩
    split
    · next hn =>
      subst hn
      obtain rfl : c = a := by simpa [hc] using ha
      exact ⟨hidx, hresp.trans hw, hpc'⟩
    · exact ⟨rfl, hw, hfiled⟩
  filed k a ha hw hfiled := by
    obtain ⟨rfl, rfl⟩ | ⟨-, hold⟩ := getElem?_modify_cases hc ha
    · rw [hidx]
      exact h.filed k c hc (hresp.symm.trans hw) hpc
    · exact h.filed k a hold hw hfiled
  fresh k a ha hpcs := by
    obtain ⟨-, rfl⟩ | ⟨-, hold⟩ := getElem?_modify_cases hc ha
    · simp [hpcs] at hpc'
    · exact h.fresh k a hold hpcs

theorem leave (h : Sound s) (hc : s.calls[n]? = some c) (f : RpcCall → RpcCall)
    (hw : c.responder ≠ .waiting) (hw' : (f c).responder ≠ .waiting) (hpc' : (f c).pc ≠ .insert) :
    Sound (s.modify n f) where
  keyed idx k hk := by
    obtain ⟨a, ha, hrest⟩ := h.keyed idx k hk
    have hn : n ≠ k := by
      rintro rfl
      obtain rfl : c = a := by simpa [hc] using ha
      exact hw hrest.2.1
    exact ⟨a, by simp [modify, hn, ha], hrest⟩
  filed k a ha hwa hfiled := by
    obtain ⟨-, rfl⟩ | ⟨-, hold⟩ := getElem?_modify_cases hc ha
    · exact absurd hwa hw'
    · exact h.filed k a hold hwa hfiled
  fresh k a ha hpcs := by
    obtain ⟨-, rfl⟩ | ⟨-, hold⟩ := getElem?_modify_cases hc ha
    · exact absurd hpcs hpc'
    · exact h.fresh k a hold hpcs

theorem release (h : Sound s) (hd : s.idxs.Nodup) (hc : s.calls[n]? = some c) (f : RpcCall → RpcCall)
    (hw' : (f c).responder ≠ .waiting) (hpc' : (f c).pc ≠ .insert) :
    Sound ({ s with pending := Function.update s.pending c.idx none }.modify n f) where
  keyed idx k hk := by
    by_cases hi : idx = c.idx
    · simp [modify, hi] at hk
    · have hk' : s.pending idx = some k := by simpa [modify, Function.update_of_ne hi] using hk
      obtain ⟨a, ha, hidx, hrest⟩ := h.keyed idx k hk'
      have hn : n ≠ k := by
        rintro rfl
        obtain rfl : c = a := by simpa [hc] using ha
        exact hi hidx.symm
      exact ⟨a, by simp [modify, hn, ha], hidx, hrest⟩
  filed k a ha hwa hfiled := by
    obtain ⟨-, rfl⟩ | ⟨hn, hold⟩ := getElem?_modify_cases hc ha
    · exact absurd hwa hw'
    · have hi : a.idx ≠ c.idx := fun hi => hn (eq_of_idx hd hold hc hi)
      simpa [modify, Function.update_of_ne hi] using h.filed k a hold hwa hfiled
  fresh k a ha hpcs := by
    obtain ⟨-, rfl⟩ | ⟨-, hold⟩ := getElem?_modify_cases hc ha
    · exact absurd hpcs hpc'
    · exact h.fresh k a hold hpcs

theorem insert (h : Sound s) (hd : s.idxs.Nodup) (hc : s.calls[n]? = some c) (hpc : c.pc = .insert) :
    Sound ({ s with pending := Function.update s.pending c.idx (some n) }.setPc n .lookup) where
  keyed idx k hk := by
    by_cases hi : idx = c.idx
    · subst hi
      obtain rfl : n = k := by simpa [setPc, modify] using hk
      exact ⟨{ c with pc := .lookup }, by simp [setPc, modify, hc], rfl, h.fresh n c hc hpc, rfl⟩
    · have hk' : s.pending idx = some k := by simpa [setPc, modify, Function.update_of_ne hi] using hk
      obtain ⟨a, ha, hidx, hrest⟩ := h.keyed idx k hk'
      have hn : n ≠ k := by
        rintro rfl
        obtain rfl : c = a := by simpa [hc] using ha
        exact hi hidx.symm
      exact ⟨a, by simp [setPc, modify, hn, ha], hidx, hrest⟩
  filed k a ha hwa hfiled := by
    obtain ⟨rfl, rfl⟩ | ⟨hn, hold⟩ := getElem?_modify_cases hc ha
    · simp [setPc, modify]
    · have hi : a.idx ≠ c.idx := fun hi => hn (eq_of_idx hd hold hc hi)
      simpa [setPc, modify, Function.update_of_ne hi] using h.filed k a hold hwa hfiled
  fresh k a ha hpcs := by
    obtain ⟨-, rfl⟩ | ⟨-, hold⟩ := getElem?_modify_cases hc ha
    · cases hpcs
    · exact h.fresh k a hold hpcs

theorem drainPending (h : Sound s) (teardown : ℕ) : Sound (s.drainPending teardown) where
  keyed idx k hk := by cases hk
  filed k a ha hwa hfiled := by
    simp only [RpcPlumbing.drainPending, List.getElem?_mapIdx] at ha
    obtain ⟨b, hb, rfl⟩ := Option.map_eq_some_iff.mp ha
    split at hwa
    · cases hwa
    · next hp =>
      rw [if_neg hp] at hfiled
      exact absurd (h.filed k b hb hwa hfiled) hp
  fresh k a ha hpcs := by
    simp only [RpcPlumbing.drainPending, List.getElem?_mapIdx] at ha
    obtain ⟨b, hb, rfl⟩ := Option.map_eq_some_iff.mp ha
    split at hpcs
    · next hp =>
      have hfiled := (h.of_pending hb hp).2.2
      simp [show b.pc = .insert from hpcs] at hfiled
    · next hp =>
      rw [if_neg hp]
      exact h.fresh k b hb hpcs

theorem rpcCall (h : Sound s) : Sound s.rpcCall where
  keyed idx k hk := by
    obtain ⟨a, ha, hrest⟩ := h.keyed idx k hk
    exact ⟨a, getElem?_concat_of_eq_some ha _, hrest⟩
  filed k a ha hwa hfiled := by
    obtain ha | ⟨-, rfl⟩ := getElem?_concat_eq_some ha
    · exact h.filed k a ha hwa hfiled
    · simp at hfiled
  fresh k a ha hpcs := by
    obtain ha | ⟨-, rfl⟩ := getElem?_concat_eq_some ha
    · exact h.fresh k a ha hpcs
    · rfl

theorem rpcStep (h : Sound s) (hd : s.idxs.Nodup) (n : ℕ) : Sound (s.rpcStep n) := by
  unfold RpcPlumbing.rpcStep
  split
  · next c hc =>
    split
    · next hpc =>
      have hnone := h.pending_eq_none hd hc fun _ => by simp [hpc]
      rw [removePending_of_none hnone]
      exact h.insert hd hc hpc
    · next hpc => split <;> exact h.advance hc _ rfl rfl (by simp [hpc]) rfl
    · next hpc => split <;> exact h.advance hc _ rfl rfl (by simp [hpc]) rfl
    · next hpc =>
      split
      · exact h
      · exact h.advance hc _ rfl rfl (by simp [hpc]) rfl
      · exact h.advance hc _ rfl rfl (by simp [hpc]) rfl
    · next r hpc =>
      obtain ⟨hw, hsame⟩ | ⟨-, hrem⟩ := h.removePending_cases hd hc (by simp [hpc])
      · rw [hsame]
        exact h.leave hc _ hw hw (by simp)
      · rw [hrem]
        have hrel := h.release hd hc (fun c => { c with responder := .dropped none }) (by simp) (by simp [hpc])
        have hc' : ({ s with pending := Function.update s.pending c.idx none }.modify n fun c =>
            { c with responder := .dropped none }).calls[n]? = some { c with responder := .dropped none } := by
          simp [modify, hc]
        exact hrel.leave hc' _ (by simp) (by simp) (by simp)
    · exact h
  · exact h

theorem move (h : Sound s) (hd : s.idxs.Nodup) (m : RpcMove) : Sound (s.move m) := by
  cases m with
  | call => exact h.rpcCall
  | step n => exact h.rpcStep hd n
  | timeout n =>
    simp only [RpcPlumbing.move, RpcPlumbing.timeout]
    split
    · next c hc =>
      split
      · next hpc => exact h.advance hc _ rfl rfl (by simp [hpc.1]) rfl
      · exact h
    · exact h
  | response resp =>
    simp only [RpcPlumbing.move, dispatchRpcResponse]
    split
    · next n hp =>
      obtain ⟨c, hc, hidx, -, hfiled⟩ := h.keyed _ n hp
      have hpc : c.pc ≠ .insert := fun hpc => by simp [hpc] at hfiled
      rw [← hidx]
      exact h.release hd hc _ (by simp) hpc
    · exact h
  | drainPending i => exact h.drainPending i
  | fetchAdd | setSubscribeIdx idx | installSender k | clearSender | close k =>
    exact ⟨h.keyed, h.filed, h.fresh⟩

end Sound

/-! ## Runs with fewer than `2 ^ 32` indices -/

theorem nodup_run {ms : List RpcMove} (h : ms.countP RpcMove.Allocates < 2 ^ 32) :
    (run {} ms).idxs.Nodup :=
  (numbered_run ms).nodup (by omega)

theorem countP_append_lt {ms ms' : List RpcMove} (h : (ms ++ ms').countP RpcMove.Allocates < 2 ^ 32) :
    ms.countP RpcMove.Allocates < 2 ^ 32 := by
  rw [List.countP_append] at h
  omega

theorem sound_run (ms : List RpcMove) (h : ms.countP RpcMove.Allocates < 2 ^ 32) : Sound (run {} ms) := by
  induction ms using List.reverseRecOn with
  | nil =>
    refine ⟨fun _ _ hp => ?_, fun _ _ hc => ?_, fun _ _ hc => ?_⟩
    · cases hp
    · simp [run] at hc
    · simp [run] at hc
  | append_singleton ms m ih =>
    have hms := countP_append_lt h
    rw [run_append]
    exact (ih hms).move (nodup_run hms) m

/-- What every move of the rest of a run keeps holds at its end. -/
theorem run_induction {I : RpcPlumbing → Prop} {ms₁ : List RpcMove} (h₁ : I (run {} ms₁))
    (ms₂ : List RpcMove) (hcount : (ms₁ ++ ms₂).countP RpcMove.Allocates < 2 ^ 32)
    (hstep : ∀ s, ∀ m ∈ ms₂, Sound s → s.idxs.Nodup → I s → I (s.move m)) :
    I (run {} (ms₁ ++ ms₂)) := by
  induction ms₂ using List.reverseRecOn with
  | nil => rwa [List.append_nil]
  | append_singleton ms₂ m ih =>
    rw [← List.append_assoc] at hcount ⊢
    have hms := countP_append_lt hcount
    have hI : I (run {} (ms₁ ++ ms₂)) := ih hms fun s m' hm' => hstep s m' (List.mem_append_left _ hm')
    rw [run_append]
    exact hstep _ m (by simp) (sound_run _ hms) (nodup_run hms) hI

theorem NoneYet.concat {ms : List RpcMove} {n : ℕ} {idx : BitVec 32} (h : NoneYet ms n idx) {m : RpcMove}
    (hm : ∀ resp, m = .response resp → resp.idx = idx → (run {} ms).pending idx ≠ some n) :
    NoneYet (ms ++ [m]) n idx := by
  intro ms₁ resp ms₂ heq hidx
  obtain rfl | ⟨ms₃, m', rfl⟩ := ms₂.eq_nil_or_concat
  · obtain ⟨rfl, hresp⟩ := List.append_inj_left' heq rfl, List.append_inj_right' heq rfl
    exact hm resp (by simpa using hresp) hidx
  · rw [List.concat_eq_append, ← List.cons_append, ← List.append_assoc] at heq
    exact h ms₁ resp ms₃ (List.append_inj_left' heq rfl) hidx

theorem FirstReply.concat {ms : List RpcMove} {n : ℕ} {idx : BitVec 32} {reply : Reply}
    (h : FirstReply ms n idx reply) (m : RpcMove) : FirstReply (ms ++ [m]) n idx reply := by
  obtain ⟨ms₁, resp, ms₂, rfl, hrest⟩ := h
  exact ⟨ms₁, resp, ms₂ ++ [m], by simp, hrest⟩

theorem length_le_move (s : RpcPlumbing) (m : RpcMove) : s.calls.length ≤ (s.move m).calls.length := by
  by_cases hm : m = .call
  · subst hm
    simp [move, rpcCall, fetchAdd]
  · have hlen := congrArg List.length (s.idxs_move hm)
    simp only [idxs, List.length_map] at hlen
    omega

theorem length_le_run (ms : List RpcMove) (s : RpcPlumbing) : s.calls.length ≤ (s.run ms).calls.length := by
  induction ms generalizing s with
  | nil => rfl
  | cons m ms ih => exact Nat.le_trans (s.length_le_move m) (ih (s.move m))

theorem noneYet_of_none {ms : List RpcMove} (hcount : ms.countP RpcMove.Allocates < 2 ^ 32) {n : ℕ}
    (hn : (run {} ms).calls[n]? = none) (idx : BitVec 32) : NoneYet ms n idx := by
  rintro ms₁ resp ms₂ rfl - hp
  obtain ⟨c, hc, -⟩ := (sound_run ms₁ (countP_append_lt hcount)).keyed idx n hp
  have hlen := length_le_run (.response resp :: ms₂) (run {} ms₁)
  rw [← run_append] at hlen
  have hlt := (List.getElem?_eq_some_iff.mp hc).1
  rw [List.getElem?_eq_none_iff] at hn
  omega

theorem ofReply_injective {reply reply' : Reply} (h : ofReply reply = ofReply reply') : reply = reply' := by
  cases reply <;> cases reply' <;> simp_all [ofReply]

/-- Where the replies of a run come from. -/
theorem replies_run (ms : List RpcMove) (hcount : ms.countP RpcMove.Allocates < 2 ^ 32) :
    ∀ (n : ℕ) (c : RpcCall), (run {} ms).calls[n]? = some c →
      (c.responder = .waiting → NoneYet ms n c.idx) ∧
      (∀ reply, c.responder = .answered reply → FirstReply ms n c.idx reply) ∧
      ∀ reply, c.pc.result = some (ofReply reply) → c.responder = .answered reply := by
  induction ms using List.reverseRecOn with
  | nil =>
    intro n c hc
    simp [run] at hc
  | append_singleton ms m ih =>
    intro n c' hc'
    have hms := countP_append_lt hcount
    have hsound := sound_run ms hms
    rw [run_append] at hc'
    obtain ⟨c, hc, hstep⟩ | ⟨hnone, rfl, rfl⟩ := hsound.callStep_of_move (nodup_run hms) hc'
    · obtain ⟨hyet, hfirst, hresult⟩ := ih hms n c hc
      -- A call that still waits has not been answered by this move.
      have later : (∀ resp, m = .response resp → (run {} ms).pending resp.idx ≠ some n) →
          c.responder = .waiting → NoneYet (ms ++ [m]) n c.idx := fun hm hw =>
        (hyet hw).concat fun resp hresp hidx => hidx ▸ hm resp hresp
      have earlier : ∀ reply, c.responder = .answered reply → FirstReply (ms ++ [m]) n c.idx reply :=
        fun reply hr => (hfirst reply hr).concat m
      cases hstep with
      | keep _ hm _ => exact ⟨later hm, earlier, hresult⟩
      | insert h | lookup k h hk | sent k h =>
        exact ⟨later (fun _ hm => by cases hm), earlier, fun reply hr => by simp at hr⟩
      | notConnected h | closed k h | canceled t h hr | timeout h hr =>
        refine ⟨later (fun _ hm => by cases hm), earlier, fun reply hr => ?_⟩
        cases reply <;> simp [ofReply] at hr
      | replied reply h hr =>
        refine ⟨later (fun _ hm => by cases hm), earlier, fun reply' hr' => ?_⟩
        rw [hr, ofReply_injective (Option.some.inj hr')]
      | removed r h hr =>
        exact ⟨later (fun _ hm => by cases hm), earlier, fun reply hr' => hresult reply (by simpa [h] using hr')⟩
      | released r h hr =>
        refine ⟨fun hw => (by cases hw), fun reply hr' => (by cases hr'), fun reply hr' => ?_⟩
        simp [hresult reply (by simpa [h] using hr')] at hr
      | answered resp hp =>
        obtain ⟨hidx, hw, -⟩ := hsound.of_pending hc hp
        refine ⟨fun hw' => (by cases hw'), fun reply hr => ?_, fun reply hr => ?_⟩
        · refine ⟨ms, resp, [], rfl, hidx.symm, by simpa using hr, ?_, hyet hw⟩
          rw [hidx, hp]
        · simp [hresult reply hr] at hw
      | drained i hp =>
        obtain ⟨-, hw, -⟩ := hsound.of_pending hc hp
        refine ⟨fun hw' => (by cases hw'), fun reply hr => (by cases hr), fun reply hr => ?_⟩
        simp [hresult reply hr] at hw
    · refine ⟨fun _ => ?_, fun reply hr => (by cases hr), fun reply hr => (by cases hr)⟩
      exact (noneYet_of_none hms hnone _).concat fun _ hm => by cases hm

/-! ## Teardowns -/

/-- The call's entry has left the map before it timed out; a reply that it has was there at the drain. -/
structure Ended (c₀ c : RpcCall) : Prop where
  inserted : c.pc ≠ .insert
  gone : c.responder = .waiting → c.pc.Filed = false
  inTime : c.pc.result ≠ some (.error .timeout)
  reply : ∀ reply, c.responder = .answered reply → c₀.responder = .answered reply

theorem Ended.callStep {s : RpcPlumbing} (hs : Sound s) {n : ℕ} {c₀ c c' : RpcCall} {m : RpcMove}
    (hc : s.calls[n]? = some c) (h : Ended c₀ c) (hstep : CallStep s n c m c') : Ended c₀ c' := by
  -- Nobody finds its entry any more.
  have absent : ∀ idx, s.pending idx ≠ some n := by
    intro idx hp
    obtain ⟨-, hw, hfiled⟩ := hs.of_pending hc hp
    rw [h.gone hw] at hfiled
    cases hfiled
  cases hstep with
  | keep _ _ _ => exact h
  | insert hpc => exact absurd hpc h.inserted
  | lookup k hpc _ | sent k hpc | notConnected hpc | closed k hpc =>
    refine ⟨by simp, fun hw => ?_, by simp, h.reply⟩
    have hnot := h.gone hw
    simp [hpc] at hnot
  | replied reply hpc hr =>
    refine ⟨by simp, fun hw => ?_, ?_, h.reply⟩
    · simp [hr] at hw
    · cases reply <;> simp [ofReply]
  | canceled t hpc hr =>
    refine ⟨by simp, fun hw => ?_, by simp, h.reply⟩
    simp [hr] at hw
  | removed r hpc _ =>
    refine ⟨by simp, fun _ => rfl, ?_, h.reply⟩
    simpa [hpc] using h.inTime
  | released r hpc _ =>
    refine ⟨by simp, fun _ => rfl, ?_, fun reply hr => by cases hr⟩
    simpa [hpc] using h.inTime
  | timeout hpc hr =>
    have hnot := h.gone hr
    simp [hpc] at hnot
  | answered resp hp => exact absurd hp (absent _)
  | drained i hp => exact absurd hp (absent _)

theorem ended_drainPending {s : RpcPlumbing} (hs : Sound s) {n : ℕ} {c : RpcCall}
    (hc : s.calls[n]? = some c) (hpc : c.pc ≠ .insert) (ht : c.pc.result ≠ some (.error .timeout))
    (teardown : ℕ) : ∃ c', (s.drainPending teardown).calls[n]? = some c' ∧ Ended c c' := by
  by_cases hp : s.pending c.idx = some n
  · refine ⟨{ c with responder := .dropped (some teardown) }, by simp [drainPending, hc, hp], ?_⟩
    exact ⟨hpc, fun hw => (by cases hw), ht, fun reply hr => (by cases hr)⟩
  · refine ⟨c, by simp [drainPending, hc, hp], hpc, fun hw => ?_, ht, fun _ hr => hr⟩
    by_contra hfiled
    exact hp (hs.filed n c hc hw (by simpa using hfiled))

/-- Whoever looks for a sender finds none. -/
structure Cleared (s : RpcPlumbing) (n : ℕ) : Prop where
  sender : s.sendTx = none
  call : ∀ c, s.calls[n]? = some c →
    c.pc = .insert ∨ c.pc = .lookup ∨ c.pc.result = some (.error .notConnected)

theorem sendTx_removePending (s : RpcPlumbing) (idx : BitVec 32) :
    (s.removePending idx).sendTx = s.sendTx := by
  unfold removePending
  split <;> rfl

theorem sendTx_rpcStep (s : RpcPlumbing) (n : ℕ) : (s.rpcStep n).sendTx = s.sendTx := by
  unfold rpcStep
  split
  · next c hc =>
    split
    · exact s.sendTx_removePending c.idx
    · split <;> rfl
    · split <;> rfl
    · split <;> rfl
    · exact s.sendTx_removePending c.idx
    · rfl
  · rfl

theorem sendTx_move (s : RpcPlumbing) {m : RpcMove} (hm : ∀ k, m ≠ .installSender k)
    (hnone : s.sendTx = none) : (s.move m).sendTx = none := by
  cases m with
  | installSender k => exact absurd rfl (hm k)
  | clearSender => rfl
  | step n => rw [move, sendTx_rpcStep, hnone]
  | timeout n =>
    simp only [move, timeout]
    split
    · split <;> exact hnone
    · exact hnone
  | response resp =>
    simp only [move, dispatchRpcResponse]
    split <;> exact hnone
  | call | fetchAdd | setSubscribeIdx idx | drainPending i | close k => exact hnone

theorem Cleared.move {s : RpcPlumbing} {n : ℕ} (h : Cleared s n) (hs : Sound s) (hd : s.idxs.Nodup)
    {m : RpcMove} (hm : ∀ k, m ≠ .installSender k) : Cleared (s.move m) n where
  sender := s.sendTx_move hm h.sender
  call c' hc' := by
    obtain ⟨c, hc, hstep⟩ | ⟨-, -, rfl⟩ := hs.callStep_of_move hd hc'
    · have hcall := h.call c hc
      cases hstep with
      | keep _ _ _ | answered resp _ | drained i _ => exact hcall
      | insert hpc => exact .inr (.inl rfl)
      | lookup k _ hk => simp [h.sender] at hk
      | notConnected _ | closed k _ => exact .inr (.inr rfl)
      | sent k hpc | replied reply hpc _ | canceled t hpc _ | timeout hpc _ => simp [hpc] at hcall
      | removed r hpc _ | released r hpc _ => exact .inr (.inr (by simpa [hpc] using hcall))
    · exact .inl rfl

/-! ## Calls and replies -/

/-- With fewer than `2 ^ 32` indices taken, every reply is matched to its call and every teardown ends
the calls that it finds. -/
theorem replies_matched (ms : List RpcMove) (hcount : ms.countP RpcMove.Allocates < 2 ^ 32) :
    Matched ms where
  own n c reply hc hpc := by
    obtain ⟨-, hfirst, hresult⟩ := replies_run ms hcount n c hc
    exact hfirst reply (hresult reply (by simp [hpc]))
  drained := by
    rintro ms₁ teardown ms₂ rfl n c₀ c r hc₀ hpc₀ ht hc hpc
    have hsound := sound_run ms₁ (countP_append_lt hcount)
    have heq : ms₁ ++ .drainPending teardown :: ms₂ = ms₁ ++ [.drainPending teardown] ++ ms₂ := by simp
    have hended : ∃ c', (run {} (ms₁ ++ [.drainPending teardown] ++ ms₂)).calls[n]? = some c' ∧
        Ended c₀ c' := by
      refine run_induction (I := fun s => ∃ c', s.calls[n]? = some c' ∧ Ended c₀ c') ?_ ms₂
        (by rwa [← heq]) fun s m _ hs hd hI => ?_
      · rw [run_append]
        exact ended_drainPending hsound hc₀ hpc₀ ht teardown
      · obtain ⟨a, ha, hended⟩ := hI
        obtain ⟨a', ha', hstep⟩ := hs.callStep hd m ha
        exact ⟨a', ha', hended.callStep hs ha hstep⟩
    rw [← heq] at hended
    obtain ⟨c', hc', hended⟩ := hended
    obtain rfl : c = c' := Option.some.inj (hc.symm.trans hc')
    obtain ⟨-, -, hresult⟩ := replies_run _ hcount n c hc
    have replied : ∀ reply, r = ofReply reply → c₀.responder = .answered reply := fun reply hr =>
      hended.reply reply (hresult reply (by simp [hpc, hr]))
    cases r with
    | ok payload => exact .inr (.inr ⟨.ok payload, replied _ rfl, rfl⟩)
    | error e =>
      cases e with
      | notConnected => exact .inr (.inl rfl)
      | canceled => exact .inl rfl
      | timeout => exact absurd (by simp [hpc]) hended.inTime
      | rpc e => exact .inr (.inr ⟨.error e, replied _ rfl, rfl⟩)
  arrived := by
    rintro ms₁ ms₂ rfl n c₀ c reply r hc₀ hpc₀ hr hc hpc
    have hkept : ∃ c', (run {} (ms₁ ++ ms₂)).calls[n]? = some c' ∧ c'.responder = .answered reply ∧
        (c'.pc = .awaiting ∨ c'.pc.result = some (ofReply reply)) := by
      refine run_induction (I := fun s => ∃ c', s.calls[n]? = some c' ∧ c'.responder = .answered reply ∧
        (c'.pc = .awaiting ∨ c'.pc.result = some (ofReply reply))) ⟨c₀, hc₀, hr, .inl hpc₀⟩ ms₂ hcount
        fun s m _ hs hd hI => ?_
      obtain ⟨a, ha, har, hapc⟩ := hI
      obtain ⟨a', ha', hstep⟩ := hs.callStep hd m ha
      refine ⟨a', ha', ?_⟩
      cases hstep with
      | keep _ _ _ => exact ⟨har, hapc⟩
      | insert hp | lookup k hp _ | notConnected hp | sent k hp | closed k hp => simp [hp] at hapc
      | replied reply' hp hr' =>
        obtain rfl : reply = reply' := by simpa [har] using hr'
        exact ⟨har, .inr rfl⟩
      | canceled t hp hr' | timeout hp hr' => simp [har] at hr'
      | removed r' hp _ => exact ⟨har, .inr (by simpa [hp] using hapc)⟩
      | released r' hp hr' => simp [har] at hr'
      | answered resp hp =>
        have hw := (hs.of_pending ha hp).2.1
        simp [har] at hw
      | drained i hp =>
        have hw := (hs.of_pending ha hp).2.1
        simp [har] at hw
    obtain ⟨c', hc', -, hpc'⟩ := hkept
    obtain rfl : c = c' := Option.some.inj (hc.symm.trans hc')
    simpa [hpc] using hpc'
  cleared := by
    rintro ms₁ ms₂ rfl hinstall n c r hc₀ hc hpc
    have heq : ms₁ ++ .clearSender :: ms₂ = ms₁ ++ [.clearSender] ++ ms₂ := by simp
    have hcleared : Cleared (run {} (ms₁ ++ [.clearSender] ++ ms₂)) n := by
      refine run_induction (I := fun s => Cleared s n) ?_ ms₂ (by rwa [← heq]) fun s m hm hs hd hI =>
        hI.move hs hd fun k hk => hinstall k (hk ▸ hm)
      rw [run_append]
      refine ⟨rfl, fun a ha => ?_⟩
      obtain hpc | hpc := hc₀ a ha
      · exact .inl hpc
      · exact .inr (.inl hpc)
    rw [← heq] at hcleared
    simpa [hpc] using hcleared.call c hc
  gone n c r hc hpc idx hp := by
    have hfiled := ((sound_run ms hcount).of_pending hc hp).2.2
    simp [hpc] at hfiled

/-- Two calls under way at once, the first one's reply coming twice, and a teardown that cancels the
second. -/
def twoCalls : List RpcMove :=
  [.installSender 0, .call, .call, .step 0, .step 1, .step 0, .step 1, .step 0, .step 1,
    .response { idx := 1, payload := some [7] }, .response { idx := 1, payload := some [8] },
    .clearSender, .drainPending 0, .step 0, .step 0, .step 1, .step 1]

theorem replies_matched_twoCalls : Matched twoCalls :=
  replies_matched twoCalls (by decide)

/-- Every call that is pending when a teardown begins has its reply, or is told that the connection is
gone. -/
def EndsPending (ms₁ ms₂ : List RpcMove) (teardown : ℕ) : Prop :=
  ∀ (n : ℕ) (c₀ c : RpcCall) (r : RpcResult), (run {} ms₁).calls[n]? = some c₀ →
    (run {} ms₁).pending c₀.idx = some n →
    (run {} (ms₁ ++ .clearSender :: ms₂ ++ [.drainPending teardown])).calls[n]? = some c →
    c.pc = .returned r → r = .error .canceled ∨ r = .error .notConnected ∨ ∃ reply, r = ofReply reply

/-- The 30 seconds of a call end between `clear_sender` and `drain_pending`. -/
theorem timeout_in_teardown :
    ¬ EndsPending [.installSender 0, .call, .step 0, .step 0, .step 0] [.timeout 0, .step 0] 0 := by
  intro h
  have hend := h 0 { idx := 1, pc := .awaiting, session := some 0 }
    { idx := 1, pc := .returned (.error .timeout), responder := .dropped none, session := some 0 }
    (.error .timeout) (by decide) (by decide) (by decide) rfl
  obtain hend | hend | ⟨reply, hend⟩ := hend
  · cases hend
  · cases hend
  · cases reply <;> cases hend

end RpcPlumbing

end BaleVpn.Signaling
