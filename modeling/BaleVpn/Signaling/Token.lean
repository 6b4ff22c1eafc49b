import BaleVpn.Signaling.RuleEngine

/-!
# The token of a connection

The token of a run loop is the one it was spawned with, so that a connection attempt uses the latest token
only as long as `set_token` does not replace a token that a loop may still connect with.
-/

namespace BaleVpn.Signaling

open Lib

/-- The token that a loop is about to be spawned with. -/
@[simp]
def SetterPc.token : SetterPc → Option String
  | .startRunning token | .spawn token => some token
  | .swap | .lock | .reap | .reapRunning | .reapReady | .hasToken | .userDisconnect | .managerActive
  | .decide _ | .takeToken | .stopRunning _ | .stopReady _ | .abort _ | .clearSender _
  | .drainPending _ | .returned => none

namespace WsClient

/-- An attempt uses the token last passed to `set_token`. -/
def UsesLatest (s : WsClient) : WsMove → Prop
  | .loop i .go => ∀ l ∈ s.loops[i]?, l.pc = .attempt → s.accessToken = some l.token
  | _ => True

instance (s : WsClient) : (m : WsMove) → Decidable (UsesLatest s m)
  | .loop _ .go => inferInstanceAs (Decidable (∀ l ∈ _, _))
  | .loop _ .connected | .loop _ (.connectFailed _) | .loop _ (.handshake _) | .loop _ .versionMismatch
  | .loop _ (.response _) | .loop _ (.closed _) | .set _ | .setter _ | .drop _ | .resubscribe _
  | .rpcCall | .rpcStep _ | .rpcTimeout _ | .close _ => isTrue trivial

/-- Nobody may still attempt with another token, or is about to be spawned with one. -/
def OnlyToken (s : WsClient) (token : String) : Prop :=
  (∀ l ∈ s.loops, l.MayAttempt → l.token = token) ∧ ∀ c ∈ s.setters, ∀ t ∈ c.pc.token, t = token

instance (s : WsClient) (token : String) : Decidable (OnlyToken s token) :=
  inferInstanceAs (Decidable (_ ∧ _))

/-- A token is set only when no loop may still attempt with another one, and none attempts while there is
no token. -/
def Steady (s : WsClient) : WsMove → Prop
  | .setter n => ∀ c ∈ s.setters[n]?, c.pc = .swap →
    match c.input with
    | .token (some token) => s.OnlyToken token
    | _ => True
  | .loop i .go => ∀ l ∈ s.loops[i]?, l.pc = .attempt → s.accessToken.isSome
  | _ => True

instance (s : WsClient) : (m : WsMove) → Decidable (Steady s m)
  | .setter n => by
    have : ∀ c : Setter, Decidable (match c.input with
        | .token (some token) => s.OnlyToken token
        | _ => True) := fun c => by
      split <;> infer_instance
    exact inferInstanceAs (Decidable (∀ c ∈ s.setters[n]?, _ → _))
  | .loop _ .go => inferInstanceAs (Decidable (∀ l ∈ _, _))
  | .loop _ .connected | .loop _ (.connectFailed _) | .loop _ (.handshake _) | .loop _ .versionMismatch
  | .loop _ (.response _) | .loop _ (.closed _) | .set _ | .drop _ | .resubscribe _
  | .rpcCall | .rpcStep _ | .rpcTimeout _ | .close _ => isTrue trivial

/-- While there is a token, whoever may attempt has it. -/
def Current (s : WsClient) : Prop := ∀ token, s.accessToken = some token → s.OnlyToken token

namespace Current

variable {s s' : WsClient}

theorem congr (h : Current s) (hs : SameRules s s') : Current s' := by
  intro token htoken
  obtain ⟨hloops, hsetters⟩ := h token (hs.token ▸ htoken)
  refine ⟨fun l' hl' hmay => ?_, fun c hc => hsetters c (hs.setters ▸ hc)⟩
  obtain ⟨i, hi⟩ := List.mem_iff_getElem?.mp hl'
  obtain ⟨l, hl, honward⟩ := hs.loops i l' hi
  rw [honward.token]
  exact hloops l (List.mem_of_getElem? hl) (honward.attempts hmay)

theorem goOn (h : Current s) {n : ℕ} {pc : SetterPc} (htoken : s'.accessToken = s.accessToken)
    (hloops : s'.loops = s.loops) (hsetters : s'.setters = s.setters.modify n fun c => { c with pc })
    (hpc : ∀ token, s.accessToken = some token → ∀ t ∈ pc.token, t = token) : Current s' := by
  intro token ht
  rw [htoken] at ht
  obtain ⟨hl, hc⟩ := h token ht
  refine ⟨fun l hmem => hl l (hloops ▸ hmem), fun c hmem => ?_⟩
  rw [hsetters] at hmem
  obtain hmem | ⟨b, -, rfl⟩ := mem_of_mem_modify hmem
  · exact hc c hmem
  · exact hpc token ht

theorem swap (h : Current s) {n : ℕ} {input : RuleInput}
    (hsteady : ∀ token, input = .token (some token) → s.OnlyToken token) : Current (s.swap n input) := by
  cases input with
  | token new =>
    intro token ht
    obtain ⟨hl, hc⟩ := hsteady token (congrArg RuleInput.token ht)
    refine ⟨hl, fun c hmem => ?_⟩
    obtain hmem | ⟨b, -, rfl⟩ := mem_of_mem_modify hmem
    · exact hc c hmem
    · split <;> simp
  | userDisconnect disc => exact h.goOn rfl rfl rfl fun _ _ => by split <;> simp
  | managerActive active => exact h.goOn rfl rfl rfl fun _ _ => by split <;> simp

theorem setterStep (h : Current s) {n : ℕ} (hsteady : Steady s (.setter n)) :
    Current (s.setterStep n) := by
  unfold WsClient.setterStep
  split
  · next c hc =>
    have held : ∀ token, s.accessToken = some token → ∀ t ∈ c.pc.token, t = token :=
      fun token ht => (h token ht).2 c (List.mem_of_getElem? hc)
    split
    · next hpc =>
      refine h.swap fun token hinput => ?_
      have hswap := hsteady c hc hpc
      rwa [hinput] at hswap
    · split
      · exact h.goOn rfl rfl rfl (by simp)
      · exact h
    · split
      · exact h.goOn rfl rfl rfl (by simp)
      · exact h.goOn rfl rfl rfl (by simp)
    · exact h.goOn rfl rfl rfl (by simp)
    · exact h.goOn rfl rfl rfl (by simp)
    · exact h.goOn rfl rfl rfl fun _ _ => by split <;> simp
    · exact h.goOn rfl rfl rfl fun _ _ => by split <;> simp
    · exact h.goOn rfl rfl rfl (by simp)
    · split
      · exact h.goOn rfl rfl rfl (by simp)
      · exact h.goOn rfl rfl rfl (by simp)
      · exact h.goOn rfl rfl rfl (by simp)
    · refine h.goOn rfl rfl rfl fun token ht t hmem => ?_
      simpa [ht, eq_comm] using hmem
    · next token hpc => exact h.goOn rfl rfl rfl fun _ ht => by simpa [hpc] using held _ ht
    · next new hpc =>
      -- The new loop has the token that was taken for it.
      intro token ht
      obtain ⟨hl, hset⟩ := h token ht
      refine ⟨fun l hmem hmay => ?_, fun a hmem => ?_⟩
      · obtain hmem | hmem := List.mem_append.mp hmem
        · exact hl l hmem hmay
        · obtain rfl := List.mem_singleton.mp hmem
          exact held token ht new (by simp [hpc])
      · obtain hmem | ⟨b, -, rfl⟩ := mem_of_mem_modify hmem
        · exact hset a hmem
        · simp
    · exact h.goOn rfl rfl rfl (by simp)
    · exact h.goOn rfl rfl rfl (by simp)
    · next i hpc =>
      intro token ht
      obtain ⟨hl, hset⟩ := h token ht
      refine ⟨fun l hmem hmay => ?_, fun a hmem => ?_⟩
      · obtain hmem | ⟨b, hb, rfl⟩ := mem_of_mem_modify hmem
        · exact hl l hmem hmay
        · refine hl b (List.mem_of_getElem? hb) ?_
          revert hmay
          unfold RunLoop.MayAttempt
          cases b.pc <;> simp
      · obtain hmem | ⟨b, -, rfl⟩ := mem_of_mem_modify hmem
        · exact hset a hmem
        · simp
    · exact h.goOn rfl rfl rfl (by simp)
    · exact h.goOn rfl rfl rfl (by simp)
    · exact h
  · exact h

theorem move (h : Current s) {m : WsMove} (hsteady : Steady s m) : Current (s.move m) := by
  cases m with
  | set input =>
    intro token ht
    obtain ⟨hl, hset⟩ := h token ht
    refine ⟨hl, fun c hmem => ?_⟩
    obtain hmem | hmem := List.mem_append.mp hmem
    · exact hset c hmem
    · obtain rfl := List.mem_singleton.mp hmem
      simp
  | setter n => exact h.setterStep hsteady
  | loop i input => exact h.congr (s.sameRules_loopStep i input)
  | drop i => exact h.congr (s.sameRules_dropLoop i)
  | resubscribe j => exact h.congr (s.sameRules_resubscribeStep j)
  | rpcCall | rpcStep n | rpcTimeout n | close k =>
    exact h.congr (SameSlot.same ⟨⟨rfl, rfl, rfl⟩, rfl, rfl, rfl⟩ rfl)

theorem usesLatest (h : Current s) {m : WsMove} (hsteady : Steady s m) : UsesLatest s m := by
  cases m with
  | loop i input =>
    cases input with
    | go =>
      intro l hl hpc
      obtain ⟨token, ht⟩ := Option.isSome_iff_exists.mp (hsteady l hl hpc)
      have hmay : l.MayAttempt := by simp [RunLoop.MayAttempt, hpc]
      rw [ht, (h token ht).1 l (List.mem_of_getElem? hl) hmay]
    | _ => trivial
  | _ => trivial

end Current

/-- When no token is set over another that a loop may still use, and none attempts without one, every
attempt uses the latest token. -/
theorem latest_token (ms : List WsMove) (h : Along move Steady {} ms) : Along move UsesLatest {} ms := by
  have hstart : Current {} := fun _ ht => by cases ht
  exact Along.imp (I := Current)
    (fun _ _ hsteady hcurrent => ⟨hcurrent.move hsteady, hcurrent.usesLatest hsteady⟩) hstart h

/-- A token is set, and the rule brings the connection up. -/
def signedIn (n : ℕ) (token : String) : List WsMove :=
  .set (.token (some token)) :: List.replicate 10 (.setter n)

/-- Signing out takes the loop down before another token is set. -/
def signedInAgain : List WsMove :=
  signedIn 0 "a" ++ [WsMove.loop 0 .go, .loop 0 .go, .set (.token none)] ++ List.replicate 11 (WsMove.setter 1) ++
    [WsMove.drop 0] ++ signedIn 2 "b" ++ [WsMove.loop 1 .go, .loop 1 .go]

theorem latest_token_signedInAgain : Along move UsesLatest {} signedInAgain :=
  latest_token signedInAgain (by decide +kernel)

/-- The token is replaced while the loop waits to connect again. -/
def tokenReplaced : List WsMove :=
  signedIn 0 "a" ++ [WsMove.loop 0 .go, .loop 0 .go, .loop 0 (.connectFailed false)] ++
    List.replicate 4 (WsMove.loop 0 .go) ++ [WsMove.set (.token (some "b"))] ++ List.replicate 7 (WsMove.setter 1) ++
    List.replicate 3 (WsMove.loop 0 .go)

/-- It goes on with the token it was spawned with. -/
theorem replaced_token_not_used : ¬ Along move UsesLatest {} tokenReplaced := by decide +kernel

end WsClient

end BaleVpn.Signaling
