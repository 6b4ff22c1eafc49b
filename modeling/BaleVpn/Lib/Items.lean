import Mathlib.Data.List.Basic

/-!
# Items read off the front of a stream

A `Reader` takes one item off the front of a list of symbols, or finds none. `items` reads on until
it finds none. If the reader undoes an encoding, `items` undoes its concatenation; if it reads only
what the encoding would have written, what it read, encoded again, is how the stream begins.
-/

namespace BaleVpn.Lib

variable {α β : Type*}

structure Reader (α β : Type*) where
  next : List α → Option (β × List α)
  shorter : ∀ {s : List α} {b : β} {rest : List α}, next s = some (b, rest) → rest.length < s.length

namespace Reader

def items (R : Reader α β) (s : List α) : List β :=
  match _h : R.next s with
  | some (b, rest) => b :: R.items rest
  | none => []
termination_by s.length
decreasing_by exact R.shorter _h

variable {R : Reader α β} {s rest : List α} {b : β}

theorem items_some (h : R.next s = some (b, rest)) : R.items s = b :: R.items rest := by
  rw [items]
  split
  · rename_i h'
    rw [h] at h'
    cases h'
    rfl
  · rename_i h'
    rw [h] at h'
    cases h'

theorem items_none (h : R.next s = none) : R.items s = [] := by
  rw [items]
  split
  · rename_i h'
    rw [h] at h'
    cases h'
  · rfl

variable {e : β → List α}

/-- A reader that undoes the encoding of each item undoes their concatenation, up to a tail with
nothing to read. -/
theorem items_flatMap {bs : List β}
    (hread : ∀ b ∈ bs, ∀ rest, R.next (e b ++ rest) = some (b, rest)) (tail : List α) :
    R.items (bs.flatMap e ++ tail) = bs ++ R.items tail := by
  induction bs with
  | nil => rfl
  | cons b bs ih =>
    have hb := hread b List.mem_cons_self (bs.flatMap e ++ tail)
    have hbs := ih fun b' hb' => hread b' (List.mem_cons_of_mem b hb')
    rw [List.flatMap_cons, List.append_assoc, items_some hb, hbs, List.cons_append]

/-- A stream is its items, encoded, and a tail with nothing to read. -/
theorem eq_flatMap_items
    (hwrite : ∀ {s : List α} {b : β} {rest : List α}, R.next s = some (b, rest) → s = e b ++ rest)
    (s : List α) : ∃ tail, s = (R.items s).flatMap e ++ tail ∧ R.items tail = [] := by
  induction hn : s.length using Nat.strongRecOn generalizing s with
  | ind n ih =>
    cases h : R.next s with
    | none => exact ⟨s, by rw [items_none h]; rfl, items_none h⟩
    | some r =>
      obtain ⟨b, rest⟩ := r
      obtain ⟨tail, hrest, htail⟩ := ih _ (hn ▸ R.shorter h) rest rfl
      refine ⟨tail, ?_, htail⟩
      rw [items_some h, List.flatMap_cons, List.append_assoc, ← hrest]
      exact hwrite h

theorem forall_items {P : β → Prop}
    (hnext : ∀ {s : List α} {b : β} {rest : List α}, R.next s = some (b, rest) → P b) (s : List α) :
    ∀ b ∈ R.items s, P b := by
  induction hn : s.length using Nat.strongRecOn generalizing s with
  | ind n ih =>
    cases h : R.next s with
    | none =>
      rw [items_none h]
      simp
    | some r =>
      obtain ⟨b, rest⟩ := r
      rw [items_some h]
      simp only [List.mem_cons, forall_eq_or_imp]
      exact ⟨hnext h, ih _ (hn ▸ R.shorter h) rest rfl⟩

end Reader

end BaleVpn.Lib
