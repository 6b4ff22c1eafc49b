import Mathlib.Data.List.AList

/-!
# Lists and maps that change in one place

What a list holds after one of its elements was set or modified, and how many elements of it satisfy a
predicate; how many entries of a map do after one was inserted or erased.
-/

namespace BaleVpn.Lib

theorem getElem?_modify_eq_some {α : Type*} {l : List α} {i j : ℕ} {f : α → α} {b : α}
    (h : (l.modify i f)[j]? = some b) : ∃ a, l[j]? = some a ∧ b = if i = j then f a else a := by
  rw [List.getElem?_modify] at h
  obtain ⟨a, ha, rfl⟩ := Option.map_eq_some_iff.mp h
  exact ⟨a, ha, rfl⟩

theorem getElem?_modify_of_eq_some {α : Type*} {l : List α} {j : ℕ} {a : α} (h : l[j]? = some a) (i : ℕ)
    (f : α → α) : (l.modify i f)[j]? = some (if i = j then f a else a) := by
  simp [List.getElem?_modify, h]

theorem getElem?_modify_cases {α : Type*} {l : List α} {i j : ℕ} {f : α → α} {a b : α} (hi : l[i]? = some a)
    (h : (l.modify i f)[j]? = some b) : j = i ∧ b = f a ∨ j ≠ i ∧ l[j]? = some b := by
  obtain ⟨c, hc, rfl⟩ := getElem?_modify_eq_some h
  by_cases hij : i = j
  · subst hij
    obtain rfl : a = c := Option.some.inj (hi.symm.trans hc)
    rw [if_pos rfl]
    exact .inl ⟨rfl, rfl⟩
  · rw [if_neg hij]
    exact .inr ⟨Ne.symm hij, hc⟩

theorem getElem?_set_eq_some {α : Type*} {l : List α} {i j : ℕ} {a b : α}
    (h : (l.set i a)[j]? = some b) : j = i ∧ b = a ∨ j ≠ i ∧ l[j]? = some b := by
  by_cases hji : j = i
  · subst hji
    rw [List.getElem?_set_self'] at h
    obtain ⟨_, -, hb⟩ := Option.map_eq_some_iff.mp h
    exact .inl ⟨rfl, hb.symm⟩
  · rw [List.getElem?_set_ne (Ne.symm hji)] at h
    exact .inr ⟨hji, h⟩

theorem getElem?_concat_eq_some {α : Type*} {l : List α} {j : ℕ} {a b : α}
    (h : (l ++ [a])[j]? = some b) : l[j]? = some b ∨ j = l.length ∧ b = a := by
  by_cases hj : j < l.length
  · rw [List.getElem?_append_left hj] at h
    exact .inl h
  · rw [List.getElem?_append_right (by omega)] at h
    obtain ⟨hlt, hb⟩ := List.getElem?_eq_some_iff.mp h
    simp only [List.length_singleton] at hlt
    exact .inr ⟨by omega, by simpa using hb.symm⟩

theorem getElem?_concat_of_eq_some {α : Type*} {l : List α} {j : ℕ} {b : α} (h : l[j]? = some b)
    (a : α) : (l ++ [a])[j]? = some b := by
  rw [List.getElem?_append_left (List.getElem?_eq_some_iff.mp h).1, h]

theorem mem_of_mem_modify {α : Type*} {l : List α} {i : ℕ} {f : α → α} {b : α}
    (h : b ∈ l.modify i f) : b ∈ l ∨ ∃ a, l[i]? = some a ∧ b = f a := by
  obtain ⟨j, hj⟩ := List.mem_iff_getElem?.mp h
  obtain ⟨a, ha, rfl⟩ := getElem?_modify_eq_some hj
  by_cases hij : i = j
  · subst hij
    exact .inr ⟨a, ha, if_pos rfl⟩
  · rw [if_neg hij]
    exact .inl (List.mem_of_getElem? ha)

theorem mem_modify_of_mem {α : Type*} {l : List α} {i : ℕ} {a b : α} (hi : l[i]? = some a) (hb : b ∈ l)
    (f : α → α) : b ∈ l.modify i f ∨ b = a ∧ f a ∈ l.modify i f := by
  obtain ⟨j, hj⟩ := List.mem_iff_getElem?.mp hb
  have hmem := List.mem_of_getElem? (getElem?_modify_of_eq_some hj i f)
  by_cases hij : i = j
  · subst hij
    obtain rfl : b = a := Option.some.inj (hj.symm.trans hi)
    rw [if_pos rfl] at hmem
    exact .inr ⟨rfl, hmem⟩
  · rw [if_neg hij] at hmem
    exact .inl hmem

theorem map_modify {α β : Type*} (l : List α) (i : ℕ) {f : α → α} {f' : β → β} {g : α → β}
    (h : ∀ a, g (f a) = f' (g a)) : (l.modify i f).map g = (l.map g).modify i f' := by
  apply List.ext_getElem?
  intro j
  rw [List.getElem?_map, List.getElem?_modify, List.getElem?_modify, List.getElem?_map]
  by_cases hij : i = j
  · cases l[j]? <;> simp [hij, h]
  · cases l[j]? <;> simp [hij]

theorem map_modify_of_eq {α β : Type*} (l : List α) (i : ℕ) {f : α → α} {g : α → β}
    (h : ∀ a, g (f a) = g a) : (l.modify i f).map g = l.map g := by
  have hmap : (l.modify i f).map g = (l.map g).modify i id := map_modify l i h
  rw [hmap, List.modify_id]

theorem modify_congr {α : Type*} {l : List α} {i : ℕ} {f g : α → α}
    (h : ∀ a, l[i]? = some a → f a = g a) : l.modify i f = l.modify i g := by
  apply List.ext_getElem?
  intro j
  rw [List.getElem?_modify, List.getElem?_modify]
  by_cases hij : i = j
  · subst hij
    cases hi : l[i]? with
    | none => rfl
    | some a => simp [h a hi]
  · simp [hij]

theorem countP_modify {α : Type*} {l : List α} {i : ℕ} {a : α} (h : l[i]? = some a) (f : α → α)
    (p : α → Bool) :
    (l.modify i f).countP p + (if p a then 1 else 0) = l.countP p + if p (f a) then 1 else 0 := by
  obtain ⟨hlt, rfl⟩ := List.getElem?_eq_some_iff.mp h
  have hl : l.countP p = (l.take i ++ l[i] :: l.drop (i + 1)).countP p := by
    rw [← List.drop_eq_getElem_cons hlt, List.take_append_drop]
  rw [List.modify_eq_take_cons_drop hlt, hl]
  simp only [List.countP_append, List.countP_cons]
  omega

theorem countP_modify_of_eq {α : Type*} (l : List α) (i : ℕ) {f : α → α} {p : α → Bool}
    (h : ∀ a, p (f a) = p a) : (l.modify i f).countP p = l.countP p := by
  cases hi : l[i]? with
  | none =>
    rw [List.modify_eq_set_getElem?, hi]
    rfl
  | some a =>
    have hcount := countP_modify hi f p
    rw [h a] at hcount
    omega

theorem countP_of_getElem?_map {α : Type*} {l l' : List α} {g : ℕ → α → α} {p : α → Bool}
    (h : ∀ k, l'[k]? = (l[k]?).map (g k)) (hp : ∀ k a, p (g k a) = p a) : l'.countP p = l.countP p := by
  have hmap : l'.map p = l.map p := by
    apply List.ext_getElem?
    intro k
    rw [List.getElem?_map, List.getElem?_map, h k, Option.map_map]
    congr 1
    funext a
    exact hp k a
  have hcount : ∀ m : List α, m.countP p = (m.map p).countP id := fun m => by
    rw [List.countP_map]
    rfl
  rw [hcount, hcount, hmap]

variable {α β : Type*} [DecidableEq α] {s : AList fun _ : α => β} {a : α} {b : β}

theorem countP_erase (h : s.lookup a = some b) (p : (Sigma fun _ : α => β) → Bool) :
    s.entries.countP p = (s.erase a).entries.countP p + if p ⟨a, b⟩ then 1 else 0 := by
  have hmem : a ∈ s.entries.keys := AList.lookup_isSome.mp (by rw [h]; rfl)
  obtain ⟨b', l₁, l₂, hnot, hl, herase⟩ := List.exists_of_kerase hmem
  have hb : b' = b := by
    have hfind : (⟨a, b'⟩ : Sigma fun _ : α => β) ∈ s.entries := by
      rw [hl]
      simp
    have hlook : s.lookup a = some b' := AList.mem_lookup_iff.mpr hfind
    rw [hlook] at h
    exact Option.some.inj h
  subst hb
  show _ = (List.kerase a s.entries).countP p + _
  rw [herase, hl]
  simp only [List.countP_append, List.countP_cons]
  omega

theorem erase_of_lookup_none (h : s.lookup a = none) : (s.erase a).entries = s.entries := by
  have hnot : a ∉ s.entries.keys := AList.lookup_eq_none.mp h
  exact List.kerase_of_notMem_keys hnot

theorem countP_insert (s : AList fun _ : α => β) (a : α) (b : β) (p : (Sigma fun _ : α => β) → Bool) :
    (s.insert a b).entries.countP p = (s.erase a).entries.countP p + if p ⟨a, b⟩ then 1 else 0 := by
  show (List.kinsert a b s.entries).countP p = _
  rw [List.kinsert_def, List.countP_cons]
  rfl

end BaleVpn.Lib
