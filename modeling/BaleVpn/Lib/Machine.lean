import Mathlib.Data.List.Basic

/-!
# Runs of a machine

A machine is a function that takes a state and a move to the next state; a run folds it over a list
of moves. `Along` says that a condition holds of every move of a run, in the state it is made in.
-/

namespace BaleVpn.Lib

variable {σ μ : Type*} {step : σ → μ → σ} {P : σ → μ → Prop} {I : σ → Prop}

/-- An invariant of every step holds after every run. -/
theorem foldl_invariant (hstep : ∀ s m, I s → I (step s m)) (ms : List μ) :
    ∀ {s : σ}, I s → I (ms.foldl step s) := by
  induction ms with
  | nil => exact fun h => h
  | cons m ms ih => exact fun h => ih (hstep _ m h)

def Along (step : σ → μ → σ) (P : σ → μ → Prop) : σ → List μ → Prop
  | _, [] => True
  | s, m :: ms => P s m ∧ Along step P (step s m) ms

def Along.decidable (step : σ → μ → σ) (P : σ → μ → Prop) [∀ s m, Decidable (P s m)] :
    (s : σ) → (ms : List μ) → Decidable (Along step P s ms)
  | _, [] => isTrue trivial
  | s, m :: ms =>
    have : Decidable (Along step P (step s m) ms) := Along.decidable step P (step s m) ms
    inferInstanceAs (Decidable (_ ∧ _))

instance [∀ s m, Decidable (P s m)] (s : σ) (ms : List μ) : Decidable (Along step P s ms) :=
  Along.decidable step P s ms

/-- An invariant that every admitted step keeps holds after every admitted run. -/
theorem Along.invariant (hstep : ∀ s m, P s m → I s → I (step s m)) {ms : List μ} :
    ∀ {s : σ}, I s → Along step P s ms → I (ms.foldl step s) := by
  induction ms with
  | nil => exact fun h _ => h
  | cons m ms ih => exact fun h hall => ih (hstep _ m hall.1 h) hall.2

/-- What an invariant adds to the condition of a run holds of its moves as well. -/
theorem Along.imp {Q : σ → μ → Prop} (hstep : ∀ s m, P s m → I s → I (step s m) ∧ Q s m)
    {ms : List μ} : ∀ {s : σ}, I s → Along step P s ms → Along step Q s ms := by
  induction ms with
  | nil => exact fun _ _ => trivial
  | cons m ms ih =>
    intro s h hall
    obtain ⟨hI, hQ⟩ := hstep s m hall.1 h
    exact ⟨hQ, ih hI hall.2⟩

/-- Two conditions that agree wherever a third one holds. -/
theorem Along.iff_of {Q R : σ → μ → Prop} (hiff : ∀ s m, P s m → (Q s m ↔ R s m)) {ms : List μ} :
    ∀ {s : σ}, Along step P s ms → (Along step Q s ms ↔ Along step R s ms) := by
  induction ms with
  | nil => exact fun _ => Iff.rfl
  | cons m ms ih => exact fun h => and_congr (hiff _ m h.1) (ih h.2)

/-- What an invariant of every step gives of every move holds along every run. -/
theorem Along.of_invariant {Q : σ → μ → Prop} (hstep : ∀ s m, I s → I (step s m) ∧ Q s m)
    (ms : List μ) : ∀ {s : σ}, I s → Along step Q s ms := by
  induction ms with
  | nil => exact fun _ => trivial
  | cons m ms ih =>
    intro s h
    obtain ⟨hI, hQ⟩ := hstep s m h
    exact ⟨hQ, ih hI⟩

/-- An invariant of the admitted steps, another that the first step not admitted leads to, and every step
keeps. -/
theorem Along.invariant_of_not {J : σ → Prop} (hstep : ∀ s m, P s m → I s → I (step s m))
    (hfirst : ∀ s m, ¬ P s m → I s → J (step s m)) (hlater : ∀ s m, J s → J (step s m)) {ms : List μ} :
    ∀ {s : σ}, I s → ¬ Along step P s ms → J (ms.foldl step s) := by
  induction ms with
  | nil => exact fun _ hnot => absurd trivial hnot
  | cons m ms ih =>
    intro s h hnot
    by_cases hP : P s m
    · exact ih (hstep s m hP h) fun hall => hnot ⟨hP, hall⟩
    · exact foldl_invariant hlater ms (hfirst s m hP h)

theorem Along.left {ms ms' : List μ} : ∀ {s : σ}, Along step P s (ms ++ ms') → Along step P s ms := by
  induction ms with
  | nil => exact fun _ => trivial
  | cons m ms ih => exact fun h => ⟨h.1, ih h.2⟩

theorem Along.middle {ms ms' : List μ} {m : μ} : ∀ {s : σ}, Along step P s (ms ++ m :: ms') →
    P (ms.foldl step s) m := by
  induction ms with
  | nil => exact fun h => h.1
  | cons m' ms ih => exact fun h => ih h.2

theorem Along.last {ms : List μ} {m : μ} {s : σ} (h : Along step P s (ms ++ [m])) :
    P (ms.foldl step s) m := h.middle

/-- What a move keeps just when it meets the condition holds in every state of a run just when the
condition holds along it. -/
theorem Along.iff_states {J : σ → Prop} (hstep : ∀ s m, I s → I (step s m))
    (hiff : ∀ s m, I s → J s → (J (step s m) ↔ P s m)) (ms : List μ) : ∀ {s : σ}, I s → J s →
      ((∀ pre, pre <+: ms → J (pre.foldl step s)) ↔ Along step P s ms) := by
  induction ms with
  | nil =>
    intro s _ hJ
    refine ⟨fun _ => trivial, fun _ pre hpre => ?_⟩
    rwa [List.prefix_nil.mp hpre]
  | cons m ms ih =>
    intro s h hJ
    constructor
    · intro hall
      have hJ' : J (step s m) := hall [m] (List.cons_prefix_cons.mpr ⟨rfl, List.nil_prefix⟩)
      refine ⟨(hiff s m h hJ).mp hJ', (ih (hstep s m h) hJ').mp fun pre hpre => ?_⟩
      exact hall (m :: pre) (List.cons_prefix_cons.mpr ⟨rfl, hpre⟩)
    · rintro ⟨hP, hall⟩ pre hpre
      have hJ' := (hiff s m h hJ).mpr hP
      cases pre with
      | nil => exact hJ
      | cons m' pre =>
        obtain ⟨rfl, htail⟩ := List.cons_prefix_cons.mp hpre
        exact (ih (hstep s m' h) hJ').mpr hall pre htail

end BaleVpn.Lib
