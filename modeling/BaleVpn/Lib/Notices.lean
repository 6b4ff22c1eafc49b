import Mathlib.Data.Finset.Erase
import Mathlib.Data.Finset.Insert
import Mathlib.Data.List.Chain

/-!
# A set with notices of its changes

A log gets an entry whenever an element enters or leaves a set. What the log says of one element then
begins with an arrival and changes with every entry, and the elements of the set are those whose last
entry is an arrival. The log may hold entries about other things.
-/

namespace BaleVpn.Lib

/-- The entries that report changes of a set. -/
structure Notices (α ε : Type*) where
  added : α → ε
  removed : α → ε
  added_injective : Function.Injective added
  removed_injective : Function.Injective removed
  added_ne_removed : ∀ a b, added a ≠ removed b

namespace Notices

section

variable {α ε : Type*} (N : Notices α ε)

/-- The entries about `a`. -/
def about [DecidableEq ε] (a : α) (log : List ε) : List ε :=
  log.filter fun e => e = N.added a ∨ e = N.removed a

/-- Arrivals and departures take turns, and the first is an arrival. -/
structure Alternates (a : α) (l : List ε) : Prop where
  starts : ∀ e ∈ l.head?, e = N.added a
  strictly : l.IsChain (· ≠ ·)

/-- The log reports how the set came about. -/
structure Agrees [DecidableEq ε] (s : Finset α) (log : List ε) : Prop where
  alternates : ∀ a, N.Alternates a (N.about a log)
  mem_iff : ∀ a, a ∈ s ↔ (N.about a log).getLast? = some (N.added a)

/-- An entry with nothing about any element. -/
def Foreign (e : ε) : Prop := ∀ a, e ≠ N.added a ∧ e ≠ N.removed a

end

variable {α ε : Type*} {N : Notices α ε} {a b : α} {e : ε}

theorem added_of_ne (h : a ≠ b) : N.added a ≠ N.added b ∧ N.added a ≠ N.removed b :=
  ⟨fun heq => h (N.added_injective heq), N.added_ne_removed a b⟩

theorem removed_of_ne (h : a ≠ b) : N.removed a ≠ N.added b ∧ N.removed a ≠ N.removed b :=
  ⟨fun heq => N.added_ne_removed b a heq.symm, fun heq => h (N.removed_injective heq)⟩

namespace Alternates

theorem nil : N.Alternates a [] := ⟨nofun, List.isChain_nil⟩

theorem append {l : List ε} (h : N.Alternates a l) (hlast : ∀ x ∈ l.getLast?, x ≠ e)
    (hfirst : l = [] → e = N.added a) : N.Alternates a (l ++ [e]) := by
  constructor
  · intro x hx
    cases l with
    | nil =>
      obtain rfl := Option.some.inj hx
      exact hfirst rfl
    | cons y l => exact h.starts x hx
  · rw [List.isChain_append]
    refine ⟨h.strictly, List.isChain_singleton e, ?_⟩
    intro x hx y hy
    obtain rfl := Option.some.inj hy
    exact hlast x hx

end Alternates

variable [DecidableEq ε] {s : Finset α} {log : List ε}

@[simp] theorem about_nil (a : α) : N.about a [] = [] := rfl

theorem about_append_of_ne (log : List ε) (h : e ≠ N.added a ∧ e ≠ N.removed a) :
    N.about a (log ++ [e]) = N.about a log := by
  rw [about, List.filter_append, List.filter_cons_of_neg (by simp [h.1, h.2]), List.filter_nil,
    List.append_nil, about]

theorem about_append_of_eq (log : List ε) (h : e = N.added a ∨ e = N.removed a) :
    N.about a (log ++ [e]) = N.about a log ++ [e] := by
  rw [about, List.filter_append, List.filter_cons_of_pos (by simpa using h), List.filter_nil, about]

namespace Agrees

theorem nil : N.Agrees ∅ [] := ⟨fun _ => .nil, by simp⟩

theorem foreign (h : N.Agrees s log) (he : N.Foreign e) : N.Agrees s (log ++ [e]) := by
  constructor
  · intro a
    rw [about_append_of_ne log (he a)]
    exact h.alternates a
  · intro a
    rw [about_append_of_ne log (he a)]
    exact h.mem_iff a

variable [DecidableEq α]

theorem insert (h : N.Agrees s log) (ha : a ∉ s) : N.Agrees (insert a s) (log ++ [N.added a]) := by
  have hlast : ∀ x ∈ (N.about a log).getLast?, x ≠ N.added a := by
    rintro x hx rfl
    exact ha ((h.mem_iff a).mpr hx)
  constructor
  · intro b
    by_cases hb : a = b
    · subst hb
      rw [about_append_of_eq log (.inl rfl)]
      exact (h.alternates a).append hlast fun _ => rfl
    · rw [about_append_of_ne log (added_of_ne hb)]
      exact h.alternates b
  · intro b
    by_cases hb : a = b
    · subst hb
      rw [about_append_of_eq log (.inl rfl), List.getLast?_concat]
      exact iff_of_true (Finset.mem_insert_self a s) rfl
    · rw [about_append_of_ne log (added_of_ne hb), Finset.mem_insert, h.mem_iff b]
      exact or_iff_right (Ne.symm hb)

theorem erase (h : N.Agrees s log) (ha : a ∈ s) : N.Agrees (s.erase a) (log ++ [N.removed a]) := by
  have hadded := (h.mem_iff a).mp ha
  constructor
  · intro b
    by_cases hb : a = b
    · subst hb
      rw [about_append_of_eq log (.inr rfl)]
      apply (h.alternates a).append
      · rw [hadded]
        rintro x hx rfl
        exact N.added_ne_removed a a (Option.some.inj hx)
      · intro hnil
        rw [hnil] at hadded
        cases hadded
    · rw [about_append_of_ne log (removed_of_ne hb)]
      exact h.alternates b
  · intro b
    by_cases hb : a = b
    · subst hb
      rw [about_append_of_eq log (.inr rfl), List.getLast?_concat]
      refine iff_of_false (Finset.notMem_erase a s) fun heq => ?_
      exact N.added_ne_removed a a (Option.some.inj heq).symm
    · rw [about_append_of_ne log (removed_of_ne hb), Finset.mem_erase, h.mem_iff b]
      exact and_iff_right (Ne.symm hb)

end Agrees

end Notices

end BaleVpn.Lib
