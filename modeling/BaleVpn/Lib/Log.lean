import Mathlib.Data.List.Basic

/-!
# Append-only logs

A property of a log says something of each entry and of the entries before it. Extending the log
leaves what was said of the old entries.
-/

namespace BaleVpn.Lib

variable {α : Type}

/-- `P` holds of every entry, given the entries before it. -/
def Each (P : List α → α → Prop) (t : List α) : Prop :=
  ∀ pre a post, t = pre ++ a :: post → P pre a

theorem each_nil (P : List α → α → Prop) : Each P [] := by
  intro pre a post h
  simp at h

theorem each_append {P : List α → α → Prop} {t acts : List α} :
    Each P (t ++ acts) ↔ Each P t ∧ Each (fun pre a => P (t ++ pre) a) acts := by
  constructor
  · intro h
    refine ⟨fun pre a post heq => h pre a (post ++ acts) (by simp [heq]), ?_⟩
    intro pre a post heq
    exact h (t ++ pre) a post (by simp [heq])
  · rintro ⟨ht, hacts⟩ pre a post heq
    obtain ⟨mid, hpre, htail⟩ | ⟨mid, hpre, htail⟩ := List.append_eq_append_iff.mp heq
    · subst hpre
      exact hacts mid a post htail
    · cases mid with
      | nil =>
        obtain rfl : t = pre := by simpa using hpre
        have := hacts [] a post (by simpa using htail.symm)
        simpa using this
      | cons x mid =>
        obtain ⟨rfl, -⟩ : a = x ∧ post = mid ++ acts := by simpa using htail
        exact ht pre a mid hpre

theorem Each.of_append {P : List α → α → Prop} {t acts : List α} (h : Each P (t ++ acts)) :
    Each P t := (each_append.mp h).1

theorem each_cons {P : List α → α → Prop} {a : α} {l : List α} :
    Each P (a :: l) ↔ P [] a ∧ Each (fun pre x => P (a :: pre) x) l := by
  rw [show a :: l = [a] ++ l from rfl, each_append]
  refine and_congr_left fun _ => ⟨fun h => h [] a [] rfl, ?_⟩
  intro h pre x post heq
  obtain ⟨rfl, rfl, -⟩ : pre = [] ∧ x = a ∧ post = [] := by
    cases pre with
    | nil => simpa [eq_comm, and_comm] using heq
    | cons y pre => simp at heq
  exact h

theorem each_singleton {P : List α → α → Prop} {a : α} : Each P [a] ↔ P [] a := by
  rw [each_cons]
  exact and_iff_left (each_nil _)

theorem each_snoc {P : List α → α → Prop} {t : List α} {a : α} :
    Each P (t ++ [a]) ↔ Each P t ∧ P t a := by
  rw [each_append, each_singleton, List.append_nil]

theorem each_iff_take {P : List α → α → Prop} {t : List α} :
    Each P t ↔ ∀ i, (h : i < t.length) → P (t.take i) t[i] := by
  constructor
  · intro h i hi
    exact h (t.take i) t[i] (t.drop (i + 1)) (by rw [List.getElem_cons_drop, List.take_append_drop])
  · rintro h pre a post rfl
    simpa using h pre.length (by simp)

instance {P : List α → α → Prop} [∀ pre a, Decidable (P pre a)] (t : List α) : Decidable (Each P t) :=
  decidable_of_iff _ each_iff_take.symm

theorem each_const {P : α → Prop} {t : List α} : Each (fun _ a => P a) t ↔ ∀ a ∈ t, P a := by
  constructor
  · intro h a ha
    obtain ⟨pre, post, rfl⟩ := List.append_of_mem ha
    exact h pre a post rfl
  · rintro h pre a post rfl
    exact h a (by simp)

end BaleVpn.Lib
