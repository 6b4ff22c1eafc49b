import Mathlib.Data.List.Basic

/-!
# Pipes

A pipe is what its reader has taken, what is still queued, and whether the writer has ended it. A copier
moves a chunk at a time from one pipe to another and ends the second when the first is drained. What it
keeps is that the same symbols left the one and entered the other (`Carried`), and that the second has
not ended before the first was drained (`Follows`).

A reader is incremental if what follows the symbols it has used makes no difference to it.
-/

namespace BaleVpn.Lib

variable {α β ε : Type*}

structure Pipe (α : Type*) where
  got : List α := []
  queue : List α := []
  ended : Bool := false

namespace Pipe

variable {p src dst : Pipe α} {front back xs : List α}

def sent (p : Pipe α) : List α := p.got ++ p.queue

/-- A write; one to a pipe that has ended fails. -/
def send (xs : List α) (p : Pipe α) : Pipe α :=
  if p.ended then p else { p with queue := p.queue ++ xs }

def finish (p : Pipe α) : Pipe α := { p with ended := true }

/-- The reader takes the next `n` symbols. -/
def skip (n : ℕ) (p : Pipe α) : Pipe α :=
  { p with got := p.got ++ p.queue.take n, queue := p.queue.drop n }

/-- The reader takes what comes before `rest`. -/
def skipTo (rest : List α) (p : Pipe α) : Pipe α := p.skip (p.queue.length - rest.length)

/-- One turn of a copier: the source and the destination behind it. -/
def copy (n : ℕ) (src dst : Pipe α) : Pipe α × Pipe α :=
  if dst.ended then (src, dst)
  else if src.queue.isEmpty then (src, if src.ended then dst.finish else dst)
  else (src.skip n, dst.send (src.queue.take n))

/-- The reader is at the end. -/
def Drained (p : Pipe α) : Prop := p.ended = true ∧ p.queue = []

@[simp] theorem sent_empty : ({} : Pipe α).sent = [] := rfl

@[simp] theorem got_send : (p.send xs).got = p.got := by
  unfold send
  split <;> rfl

@[simp] theorem ended_send : (p.send xs).ended = p.ended := by
  unfold send
  split <;> rfl

theorem sent_send (h : p.ended = false) : (p.send xs).sent = p.sent ++ xs := by
  rw [send, if_neg (by simp [h]), sent, sent, List.append_assoc]

theorem send_of_ended (h : p.ended = true) : p.send xs = p := if_pos h

@[simp] theorem got_finish : p.finish.got = p.got := rfl

@[simp] theorem queue_finish : p.finish.queue = p.queue := rfl

@[simp] theorem sent_finish : p.finish.sent = p.sent := rfl

@[simp] theorem ended_finish : p.finish.ended = true := rfl

@[simp] theorem sent_skip (n : ℕ) : (p.skip n).sent = p.sent := by
  rw [sent, skip, List.append_assoc, List.take_append_drop, sent]

@[simp] theorem ended_skip (n : ℕ) : (p.skip n).ended = p.ended := rfl

@[simp] theorem sent_skipTo : (p.skipTo xs).sent = p.sent := sent_skip _

@[simp] theorem ended_skipTo : (p.skipTo xs).ended = p.ended := rfl

theorem got_skipTo (h : p.queue = front ++ back) : (p.skipTo back).got = p.got ++ front := by
  rw [skipTo, skip, h, List.length_append, Nat.add_sub_cancel, List.take_left]

theorem got_prefix_sent (p : Pipe α) : p.got <+: p.sent := List.prefix_append _ _

theorem sent_of_queue_nil (h : p.queue = []) : p.sent = p.got := by rw [sent, h, List.append_nil]

theorem Drained.sent (h : p.Drained) : p.sent = p.got := sent_of_queue_nil h.2

theorem Drained.send (h : p.Drained) (xs : List α) : (p.send xs).Drained := by
  rw [send_of_ended h.1]
  exact h

theorem Drained.finish (h : p.Drained) : p.finish.Drained := ⟨rfl, h.2⟩

theorem Drained.skip (h : p.Drained) (n : ℕ) : (p.skip n).Drained :=
  ⟨h.1, by rw [Pipe.skip, h.2, List.drop_nil]⟩

theorem Drained.skipTo (h : p.Drained) (xs : List α) : (p.skipTo xs).Drained := h.skip _

/-! ## Copiers -/

/-- What left the source after `front` entered the destination after `back`. -/
def Carried (src dst : Pipe α) (front back : List α) : Prop :=
  ∃ x, src.got = front ++ x ∧ dst.sent = back ++ x

/-- The destination ends only behind a source that is drained. -/
def Follows (src dst : Pipe α) : Prop := dst.ended = true → src.Drained

theorem Carried.copy (h : Carried src dst front back) (n : ℕ) :
    Carried (copy n src dst).1 (copy n src dst).2 front back := by
  unfold Pipe.copy
  split
  · exact h
  · rename_i hopen
    split
    · split
      · exact h
      · exact h
    · obtain ⟨x, hgot, hsent⟩ := h
      refine ⟨x ++ src.queue.take n, ?_, ?_⟩
      · rw [Pipe.skip, hgot, List.append_assoc]
      · rw [sent_send (Bool.eq_false_iff.mpr hopen), hsent, List.append_assoc]

theorem Follows.copy (h : Follows src dst) (n : ℕ) : Follows (copy n src dst).1 (copy n src dst).2 := by
  unfold Pipe.copy
  split
  · exact h
  · rename_i hopen
    split
    · rename_i hempty
      split
      · rename_i hend
        exact fun _ => ⟨hend, List.isEmpty_iff.mp hempty⟩
      · exact h
    · intro hd
      rw [ended_send] at hd
      exact absurd hd hopen

theorem sent_copy (n : ℕ) (src dst : Pipe α) : (copy n src dst).1.sent = src.sent := by
  unfold Pipe.copy
  split
  · rfl
  · split
    · rfl
    · exact sent_skip n

theorem ended_copy (n : ℕ) (src dst : Pipe α) : (copy n src dst).1.ended = src.ended := by
  unfold Pipe.copy
  split
  · rfl
  · split <;> rfl

theorem got_copy (n : ℕ) (src dst : Pipe α) : (copy n src dst).2.got = dst.got := by
  unfold Pipe.copy
  split
  · rfl
  · split
    · split <;> rfl
    · exact got_send

theorem Drained.copy_right (h : dst.Drained) (n : ℕ) (src : Pipe α) : (copy n src dst).2.Drained := by
  rw [Pipe.copy, if_pos h.1]
  exact h

/-- A copier that has nothing to do has ended its destination, or waits for the source. -/
theorem ended_or_waits_of_copy (h : copy 1 src dst = (src, dst)) :
    dst.ended = true ∨ src.queue = [] ∧ src.ended = false := by
  unfold copy at h
  split at h
  · rename_i hend
    exact .inl hend
  · split at h
    · rename_i hempty
      split at h
      · exact .inl (congrArg (fun r => r.2.ended) h).symm
      · rename_i hopen
        exact .inr ⟨List.isEmpty_iff.mp hempty, Bool.eq_false_iff.mpr hopen⟩
    · rename_i hne
      have hqueue : src.queue.drop 1 = src.queue := congrArg (fun r => r.1.queue) h
      have hlen := congrArg List.length hqueue
      rw [List.length_drop] at hlen
      have hpos : 0 < src.queue.length := List.length_pos_iff.mpr fun hnil => hne (List.isEmpty_iff.mpr hnil)
      omega

end Pipe

/-! ## Incremental readers -/

/-- What a successful read used is what decided it. -/
def Incremental (f : List α → Except ε (β × List α)) : Prop :=
  ∀ s b rest, f s = .ok (b, rest) → ∃ c, s = c ++ rest ∧ ∀ x, f (c ++ x) = .ok (b, x)

namespace Incremental

universe u

variable {α β γ : Type u} {f : List α → Except ε (β × List α)}

theorem pure (b : β) : Incremental (fun s : List α => (.ok (b, s) : Except ε (β × List α))) := by
  intro s b' rest h
  cases h
  exact ⟨[], rfl, fun _ => rfl⟩

theorem throw (e : ε) : Incremental (fun _ : List α => (.error e : Except ε (β × List α))) := by
  intro s b rest h
  cases h

theorem bind {g : β × List α → Except ε (γ × List α)} (hf : Incremental f)
    (hg : ∀ b, Incremental fun s => g (b, s)) : Incremental (fun s => f s >>= g) := by
  intro s b rest h
  cases hs : f s with
  | error e =>
    simp only [hs] at h
    cases h
  | ok r =>
    obtain ⟨b₁, s₁⟩ := r
    simp only [hs] at h
    obtain ⟨c₁, rfl, hc₁⟩ := hf _ _ _ hs
    obtain ⟨c₂, rfl, hc₂⟩ := hg b₁ _ _ _ h
    refine ⟨c₁ ++ c₂, (List.append_assoc _ _ _).symm, fun x => ?_⟩
    simp only [List.append_assoc, hc₁]
    exact hc₂ x

theorem ite {P : Prop} [Decidable P] {g : List α → Except ε (β × List α)} (hf : Incremental f)
    (hg : Incremental g) : Incremental (fun s => if P then f s else g s) := by
  by_cases h : P
  · simpa only [if_pos h] using hf
  · simpa only [if_neg h] using hg

theorem mapError {ε' : Type*} (hf : Incremental f) (g : ε → ε') :
    Incremental (fun s => (f s).mapError g) := by
  intro s b rest h
  cases hs : f s with
  | error e =>
    simp only [hs] at h
    cases h
  | ok r =>
    simp only [hs] at h
    cases h
    obtain ⟨c, rfl, hc⟩ := hf _ _ _ hs
    refine ⟨c, rfl, fun x => ?_⟩
    simp only [hc]
    rfl

/-- Two readings of streams that begin with the same symbols agree. -/
theorem unique {s : List α} {b b' : β} {c rest x : List α}
    (h : f s = .ok (b, rest)) (hs : s = c ++ x) (hc : ∀ y, f (c ++ y) = .ok (b', y)) :
    b = b' ∧ rest = x := by
  rw [hs, hc x] at h
  cases h
  exact ⟨rfl, rfl⟩

end Incremental

end BaleVpn.Lib
