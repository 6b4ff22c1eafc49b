import Mathlib.Data.List.Basic

/-!
# Computations that log and can fault

A computation ends with a fault, or with a value and the log of what it did. It is sound when it ends with a
value, and everything in the log is good. The loop has a fault of its own for a run that does not end; a
variant excludes it.
-/

namespace BaleVpn.Lib

def Audit (ε ω α : Type) := Except ε (α × List ω)

namespace Audit

variable {ε ω α β σ : Type}

def fault (e : ε) : Audit ε ω α := Except.error e

def log (w : ω) : Audit ε ω Unit := Except.ok ((), [w])

instance : Monad (Audit ε ω) where
  pure a := Except.ok (a, [])
  bind x f :=
    match x with
    | .error e => Except.error e
    | .ok (a, ws) =>
      match f a with
      | .error e => Except.error e
      | .ok (b, ws') => Except.ok (b, ws ++ ws')

/-- How a round of a loop ends. -/
inductive Round (σ β : Type)
  | next (s : σ)
  | leave (b : β)

/-- Rounds until one leaves, `n` of them at most. -/
def rounds (out : ε) (body : σ → Audit ε ω (Round σ β)) : ℕ → σ → Audit ε ω β
  | 0, _ => fault out
  | n + 1, s => do
    match ← body s with
    | .next s => rounds out body n s
    | .leave b => pure b

/-- It ends, with a value that is as promised, and nothing in its log is bad. -/
def Sound (good : ω → Prop) (x : Audit ε ω α) (post : α → Prop) : Prop :=
  ∃ a ws, x = Except.ok (a, ws) ∧ (∀ w ∈ ws, good w) ∧ post a

namespace Sound

variable {good : ω → Prop} {x : Audit ε ω α} {f : α → Audit ε ω β} {post post' : α → Prop} {a : α}

theorem pure (h : post a) : Sound good (Pure.pure a : Audit ε ω α) post :=
  ⟨a, [], rfl, fun _ hw => absurd hw List.not_mem_nil, h⟩

theorem log {w : ω} {post : Unit → Prop} (hw : good w) (h : post ()) :
    Sound good (Audit.log w : Audit ε ω Unit) post := by
  refine ⟨(), [w], rfl, fun w' hw' => ?_, h⟩
  rw [List.mem_singleton.mp hw']
  exact hw

theorem bind {post : β → Prop} {mid : α → Prop} (hx : Sound good x mid)
    (hf : ∀ a, mid a → Sound good (f a) post) : Sound good (x >>= f) post := by
  obtain ⟨a, ws, rfl, hws, ha⟩ := hx
  obtain ⟨b, ws', hb, hws', hpost⟩ := hf a ha
  refine ⟨b, ws ++ ws', ?_, fun w hw => ?_, hpost⟩
  · show (match f a with | .error e => Except.error e | .ok (b, ws') => Except.ok (b, ws ++ ws')) = _
    rw [hb]
  · rcases List.mem_append.mp hw with hw | hw
    · exact hws w hw
    · exact hws' w hw

theorem bind_eq {post : β → Prop} (hx : Sound good x (· = a)) (hf : Sound good (f a) post) :
    Sound good (x >>= f) post := by
  apply hx.bind
  rintro _ rfl
  exact hf

theorem mono (h : Sound good x post) (himp : ∀ a, post a → post' a) : Sound good x post' := by
  obtain ⟨a, ws, hx, hws, ha⟩ := h
  exact ⟨a, ws, hx, hws, himp a ha⟩

/-- A round that goes on keeps the invariant and takes from the variant `m`. -/
theorem rounds {out : ε} {body : σ → Audit ε ω (Round σ β)} {post : β → Prop} {I : σ → Prop} {m : σ → ℕ}
    (hbody : ∀ s, I s → Sound good (body s) fun
      | .next s' => I s' ∧ m s' < m s
      | .leave b => post b)
    {n : ℕ} {s : σ} (hs : I s) (hn : m s < n) : Sound good (Audit.rounds out body n s) post := by
  induction n generalizing s with
  | zero => omega
  | succ n ih =>
    apply (hbody s hs).bind
    intro round hround
    cases round with
    | next s' => exact ih hround.1 (by omega)
    | leave b => exact .pure hround

end Sound

end Audit

end BaleVpn.Lib
