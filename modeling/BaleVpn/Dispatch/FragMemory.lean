import BaleVpn.Dispatch.FragStreams
import BaleVpn.Lib.Machine
import Mathlib.Data.List.MinMax
import Mathlib.Data.List.Perm.Subperm

/-!
# The memory of the fragment table (`nat/dispatcher.rs`)

`handle_fragment` limits the number of streams and the bytes of each. Nothing limits the number of
parts: a fragment without payload adds a part and no byte, at an offset that the stream may have already.
-/

namespace BaleVpn.Dispatch

open Net Lib

/-- What the table may hold. -/
structure FragBounded (t : FragTable) : Prop where
  streams : t.length ≤ MAX_FRAG_STREAMS
  bytes : ∀ x ∈ t, (x.2.parts.map (·.data.length)).sum ≤ MAX_FRAG_BYTES_PER_STREAM
  offsets : ∀ x ∈ t, (x.2.parts.map (·.off)).Nodup
  parts : ∀ x ∈ t, x.2.parts.length ≤ 8192

/-! ## Streams -/

namespace FragTable

theorem exists_oldest {t : FragTable} (h : t ≠ []) : t.oldest ≠ [] := by
  obtain ⟨x, hx⟩ : ∃ x, List.argmin (fun x : FragKey × FragEntry => x.2.arrivedMs.toNat) t = some x := by
    refine Option.ne_none_iff_exists'.mp fun hnone => h ?_
    exact List.argmin_eq_none.mp hnone
  unfold oldest
  refine List.ne_nil_of_mem (List.mem_map_of_mem (List.mem_filter.mpr ⟨List.argmin_mem hx, ?_⟩))
  rw [List.all_eq_true]
  intro y hy
  rw [decide_eq_true_eq, UInt32.le_iff_toNat_le]
  exact List.le_of_mem_argmin (f := fun x : FragKey × FragEntry => x.2.arrivedMs.toNat) hy hx

theorem victim_mem {t : FragTable} {k old : FragKey} {tie : ℕ} (h : t.victim k tie = some old) :
    t.get k = none ∧ ∃ e, (old, e) ∈ t := by
  unfold victim at h
  split at h
  · rename_i hfull
    rw [Bool.and_eq_true, Option.isNone_iff_eq_none] at hfull
    obtain ⟨x, hx, rfl⟩ := List.mem_map.mp (List.mem_of_getElem? h)
    exact ⟨hfull.1, x.2, List.mem_of_mem_filter hx⟩
  · cases h

theorem get_ne_none {t : FragTable} {k : FragKey} {e : FragEntry} (h : (k, e) ∈ t) :
    t.get k ≠ none := by
  intro hnone
  unfold get at hnone
  exact absurd (List.lookup_eq_none_iff.mp hnone (k, e) h) (by simp)

theorem get_makeRoom_self (t : FragTable) (k : FragKey) (tie : ℕ) :
    (t.makeRoom k tie).get k = t.get k := by
  refine get_makeRoom fun hself => ?_
  obtain ⟨hnone, e, he⟩ := victim_mem hself
  exact get_ne_none he hnone

theorem length_remove_lt {t : FragTable} {k : FragKey} {e : FragEntry} (h : (k, e) ∈ t) :
    (t.remove k).length < t.length := by
  refine Nat.lt_of_le_of_ne (List.length_filter_le _ _) fun heq => ?_
  have := List.length_filter_eq_length_iff.mp heq (k, e) h
  simp at this

theorem length_remove_le (t : FragTable) (k : FragKey) : (t.remove k).length ≤ t.length :=
  List.length_filter_le _ _

theorem length_makeRoom {t : FragTable} (k : FragKey) (tie : ℕ) (h : t.length ≤ MAX_FRAG_STREAMS) :
    (t.makeRoom k tie).length ≤ MAX_FRAG_STREAMS ∧
      (t.get k = none → (t.makeRoom k tie).length < MAX_FRAG_STREAMS) := by
  unfold makeRoom
  split
  · rename_i old hold
    obtain ⟨-, e, he⟩ := victim_mem hold
    have hlt := length_remove_lt he
    exact ⟨by omega, fun _ => by omega⟩
  · rename_i hnone
    refine ⟨h, fun hget => ?_⟩
    by_contra hfull
    have hne : t ≠ [] := by
      rintro rfl
      exact hfull (by decide)
    have hlen : t.oldest.length ≠ 0 := fun hzero =>
      exists_oldest hne (List.length_eq_zero_iff.mp hzero)
    unfold victim at hnone
    rw [if_pos (by simp [hget]; omega), List.getElem?_eq_none_iff] at hnone
    have := Nat.mod_lt tie (Nat.pos_of_ne_zero hlen)
    omega

theorem length_insert {t : FragTable} (k : FragKey) (tie : ℕ) (h : t.length ≤ MAX_FRAG_STREAMS)
    (e : FragEntry) : ((t.makeRoom k tie).insert k e).length ≤ MAX_FRAG_STREAMS := by
  obtain ⟨hle, hlt⟩ := length_makeRoom k tie h
  unfold insert
  rw [List.length_append, List.length_singleton]
  have hrest := length_remove_le (t.makeRoom k tie) k
  cases hget : t.get k with
  | none =>
    have := hlt hget
    omega
  | some old =>
    rw [← get_makeRoom_self t k tie] at hget
    have := length_remove_lt (mem_of_get hget)
    omega

end FragTable

/-! ## Parts -/

/-- The bytes of a stream are counted, and its parts are fragments that were parsed. -/
structure Counted (e : FragEntry) : Prop where
  parts : ∀ q ∈ e.parts, ∃ p, ParseFacts p ∧ q = partOf p
  sum : (e.parts.map (·.data.length)).sum = e.accumulated
  room : e.accumulated ≤ MAX_FRAG_BYTES_PER_STREAM

theorem partOf_length {p : IpPacket} (hp : ParseFacts p) :
    (partOf p).data.length = p.l4Len ∧ (partOf p).len.toNat = p.l4Len := by
  obtain ⟨heq, -, hlen⟩ := hp.partOf_eq
  rw [hp.l4_length] at hlen
  refine ⟨?_, hlen⟩
  rw [heq]
  exact hp.l4_length

theorem Counted.fresh (p : IpPacket) (now : UInt32) : Counted (.fresh p now) :=
  ⟨fun _ hq => (by cases hq), rfl, Nat.zero_le _⟩

theorem Counted.add {e : FragEntry} (h : Counted e) {p : IpPacket} (hp : ParseFacts p)
    (hroom : (e.add p).accumulated ≤ MAX_FRAG_BYTES_PER_STREAM) : Counted (e.add p) where
  parts q hq := by
    rcases List.mem_append.mp hq with hq | hq
    · exact h.parts q hq
    · exact ⟨p, hp, List.mem_singleton.mp hq⟩
  sum := by
    obtain ⟨hdata, hlen⟩ := partOf_length hp
    simp [FragEntry.add, h.sum, hdata, hlen]
  room := hroom

/-- Offsets are multiples of eight below `2 ^ 16`. -/
theorem Counted.parts_le {e : FragEntry} (h : Counted e) (hoff : (e.parts.map (·.off)).Nodup) :
    e.parts.length ≤ 8192 := by
  have hunits : ((e.parts.map (·.off)).map fun off => off.toNat / 8).Nodup := by
    refine hoff.map_on ?_
    intro a ha b hb heq
    obtain ⟨q, hq, rfl⟩ := List.mem_map.mp ha
    obtain ⟨q', hq', rfl⟩ := List.mem_map.mp hb
    obtain ⟨p, hp, rfl⟩ := h.parts q hq
    obtain ⟨p', hp', rfl⟩ := h.parts q' hq'
    have hmul := hp.partOf_eq.2.1
    have hmul' := hp'.partOf_eq.2.1
    apply UInt16.toNat_inj.mp
    omega
  have hrange : ((e.parts.map (·.off)).map fun off => off.toNat / 8) ⊆ List.range 8192 := by
    intro n hn
    obtain ⟨off, -, rfl⟩ := List.mem_map.mp hn
    have := off.toNat_lt
    exact List.mem_range.mpr (by omega)
  have hle := (hunits.subperm hrange).length_le
  simpa using hle

structure FragInv (t : FragTable) : Prop where
  streams : t.length ≤ MAX_FRAG_STREAMS
  counted : ∀ x ∈ t, Counted x.2

/-- The fragment adds a part to its stream and leaves it waiting. -/
structure StaysOpen (e : FragEntry) (p : IpPacket) : Prop where
  inside : p.fragOffsetBytes.toNat + p.l4Len ≤ MAX_FRAG_BYTES_PER_STREAM
  room : e.accumulated + p.l4Len ≤ MAX_FRAG_BYTES_PER_STREAM
  waits : let total := if p.moreFrags then e.totalLen else (p.fragOffsetBytes.toNat : ℤ) + p.l4Len
    total < 0 ∨ (e.accumulated : ℤ) + p.l4Len < total

/-- The stream of a fragment has a part at its offset, and goes on waiting with another one. -/
def Repeats (t : FragTable) (ev : FragEvent) : Prop :=
  ∃ p e, ev.fragment = some p ∧ t.get (fragKeyOf p) = some e ∧
    p.fragOffsetBytes ∈ e.parts.map (·.off) ∧ StaysOpen e p

/-- No stream holds two parts of one offset. -/
def Distinct (t : FragTable) : Prop := ∀ x ∈ t, (x.2.parts.map (·.off)).Nodup

theorem FragInv.bounded {t : FragTable} (h : FragInv t) : FragBounded t ↔ Distinct t := by
  refine ⟨fun hb => hb.offsets, fun hd => ⟨h.streams, fun x hx => ?_, hd, fun x hx => ?_⟩⟩
  · rw [(h.counted x hx).sum]
    exact (h.counted x hx).room
  · exact (h.counted x hx).parts_le (hd x hx)

theorem FragInv.sublist {t t' : FragTable} (h : FragInv t) (hsub : t'.Sublist t) : FragInv t' :=
  ⟨Nat.le_trans hsub.length_le h.streams, fun x hx => h.counted x (hsub.subset hx)⟩

theorem Distinct.sublist {t t' : FragTable} (h : Distinct t) (hsub : t'.Sublist t) : Distinct t' :=
  fun x hx => h x (hsub.subset hx)

theorem makeRoom_sublist (t : FragTable) (k : FragKey) (tie : ℕ) : (t.makeRoom k tie).Sublist t := by
  unfold FragTable.makeRoom
  split
  · exact List.filter_sublist
  · exact List.Sublist.refl t

theorem added_makeRoom (t : FragTable) (p : IpPacket) (now : UInt32) (tie : ℕ) :
    (t.makeRoom (fragKeyOf p) tie).added p now = t.added p now := by
  unfold FragTable.added
  rw [FragTable.get_makeRoom_self]

theorem FragInv.added {t : FragTable} (h : FragInv t) {p : IpPacket} (hp : ParseFacts p) (now : UInt32)
    (hroom : (t.added p now).accumulated ≤ 65535) : Counted (t.added p now) := by
  unfold FragTable.added at hroom ⊢
  cases hget : t.get (fragKeyOf p) with
  | none =>
    rw [hget] at hroom
    exact (Counted.fresh p now).add hp hroom
  | some e =>
    rw [hget] at hroom
    exact (h.counted _ (FragTable.mem_of_get hget)).add hp hroom

theorem staysOpen_iff {e : FragEntry} {p : IpPacket} (hp : ParseFacts p) : StaysOpen e p ↔
    (partOf p).off.toNat + (partOf p).len.toNat ≤ 65535 ∧ (e.add p).accumulated ≤ 65535 ∧
      ((e.add p).totalLen < 0 ∨ ((e.add p).accumulated : ℤ) < (e.add p).totalLen) := by
  have hlen := (partOf_length hp).2
  have hoff : (partOf p).off = p.fragOffsetBytes := rfl
  have hacc : (e.add p).accumulated = e.accumulated + p.l4Len := by
    show e.accumulated + (partOf p).len.toNat = _
    rw [hlen]
  have htotal : (e.add p).totalLen =
      if p.moreFrags then e.totalLen else (p.fragOffsetBytes.toNat : ℤ) + p.l4Len := by
    show (if !p.moreFrags then _ else _) = _
    cases p.moreFrags <;> rfl
  rw [hacc, htotal, hlen, hoff]
  constructor
  · rintro ⟨hin, hroom, hwaits⟩
    exact ⟨hin, hroom, by simpa using hwaits⟩
  · rintro ⟨hin, hroom, hwaits⟩
    exact ⟨hin, hroom, by simpa using hwaits⟩

theorem distinct_added {t : FragTable} (hd : Distinct t) {p : IpPacket} (now : UInt32) :
    ((t.added p now).parts.map (·.off)).Nodup ↔
      ∀ e, t.get (fragKeyOf p) = some e → p.fragOffsetBytes ∉ e.parts.map (·.off) := by
  unfold FragTable.added
  cases hget : t.get (fragKeyOf p) with
  | none => simp [FragEntry.add, FragEntry.fresh]
  | some e =>
    have hold := hd _ (FragTable.mem_of_get hget)
    have hoff : (e.add p).parts.map (·.off) = e.parts.map (·.off) ++ [p.fragOffsetBytes] := by
      simp [FragEntry.add, partOf]
    rw [Option.getD_some, hoff, List.nodup_append_comm, List.singleton_append, List.nodup_cons]
    constructor
    · rintro ⟨hnot, -⟩ e' he'
      obtain rfl := Option.some.inj he'
      exact hnot
    · exact fun hnot => ⟨hnot e rfl, hold⟩

/-! ## One event -/

theorem FragInv.step {t : FragTable} (h : FragInv t) (ev : FragEvent) : FragInv (fragStep t ev).1 := by
  rcases fragStep_cases t ev with ⟨-, -, htable⟩ | ⟨data, now, tie, p, rfl, hp, hstep⟩
  · rcases htable with htable | ⟨now, -, htable⟩
    · rwa [htable]
    · rw [htable]
      exact h.sublist List.filter_sublist
  · have hfacts := FragEvent.fragment_parsed hp
    have hcases := handleFragment_cases t hfacts now tie
    have hroom := makeRoom_sublist t (fragKeyOf p) tie
    have hrest : ((t.makeRoom (fragKeyOf p) tie).remove (fragKeyOf p)).Sublist t :=
      List.filter_sublist.trans hroom
    rw [hstep]
    rw [added_makeRoom] at hcases
    generalize handleFragment t p now tie = res at hcases
    cases hcases with
    | dropped _ => exact h.sublist hrest
    | finished _ _ _ _ => exact h.sublist hrest
    | waiting _ hacc _ =>
      refine ⟨FragTable.length_insert _ tie h.streams _, fun x hx => ?_⟩
      rcases List.mem_append.mp hx with hx | hx
      · exact h.counted x (hrest.subset hx)
      · obtain rfl := List.mem_singleton.mp hx
        exact h.added hfacts now hacc

theorem distinct_step {t : FragTable} (hd : Distinct t) (ev : FragEvent) :
    Distinct (fragStep t ev).1 ↔ ¬ Repeats t ev := by
  rcases fragStep_cases t ev with ⟨hnone, -, htable⟩ | ⟨data, now, tie, p, rfl, hp, hstep⟩
  · have hno : ¬ Repeats t ev := by
      rintro ⟨p, e, hev, -⟩
      rw [hnone] at hev
      cases hev
    refine ⟨fun _ => hno, fun _ => ?_⟩
    rcases htable with htable | ⟨now, -, htable⟩
    · rwa [htable]
    · rw [htable]
      exact hd.sublist List.filter_sublist
  · have hfacts := FragEvent.fragment_parsed hp
    have hcases := handleFragment_cases t hfacts now tie
    have hrest : ((t.makeRoom (fragKeyOf p) tie).remove (fragKeyOf p)).Sublist t :=
      List.filter_sublist.trans (makeRoom_sublist t (fragKeyOf p) tie)
    have hrepeats : Repeats t (.recv data now tie) ↔ ∃ e, t.get (fragKeyOf p) = some e ∧
        p.fragOffsetBytes ∈ e.parts.map (·.off) ∧ StaysOpen e p := by
      constructor
      · rintro ⟨p', e, hp', hrest⟩
        obtain rfl := Option.some.inj (hp.symm.trans hp')
        exact ⟨e, hrest⟩
      · rintro ⟨e, hrest⟩
        exact ⟨p, e, hp, hrest⟩
    have hadded : ∀ e, t.get (fragKeyOf p) = some e → t.added p now = e.add p := by
      intro e he
      unfold FragTable.added
      rw [he, Option.getD_some]
    rw [hstep, hrepeats]
    rw [added_makeRoom] at hcases
    generalize handleFragment t p now tie = res at hcases
    cases hcases with
    | dropped hbig =>
      refine ⟨fun _ ⟨e, he, _, hopen⟩ => ?_, fun _ => hd.sublist hrest⟩
      obtain ⟨hin, hroom, -⟩ := (staysOpen_iff hfacts).mp hopen
      rw [hadded e he] at hbig
      omega
    | finished _ _ hpos hall =>
      refine ⟨fun _ ⟨e, he, _, hopen⟩ => ?_, fun _ => hd.sublist hrest⟩
      obtain ⟨-, -, hwaits⟩ := (staysOpen_iff hfacts).mp hopen
      rw [hadded e he] at hpos hall
      omega
    | waiting hoff hacc hmore =>
      have hinsert : Distinct ((t.makeRoom (fragKeyOf p) tie).insert (fragKeyOf p) (t.added p now)) ↔
          ((t.added p now).parts.map (·.off)).Nodup := by
        refine ⟨fun hall => ?_, fun hnew x hx => ?_⟩
        · exact hall (fragKeyOf p, t.added p now) (List.mem_append_right _ (List.mem_singleton_self _))
        rcases List.mem_append.mp hx with hx | hx
        · exact hd x (hrest.subset hx)
        · obtain rfl := List.mem_singleton.mp hx
          exact hnew
      rw [hinsert, distinct_added hd]
      constructor
      · rintro hnot ⟨e, he, hmem, -⟩
        exact hnot e he hmem
      · intro hnot e he hmem
        rw [hadded e he] at hacc hmore
        exact hnot ⟨e, he, hmem, (staysOpen_iff hfacts).mpr ⟨hoff, hacc, hmore⟩⟩

/-! ## Every run -/

/-- The memory of the table is bounded along a run just when no fragment repeats an offset of a stream
that goes on waiting. -/
theorem frag_memory_bounded (evs : List FragEvent) :
    (∀ pre, pre <+: evs → FragBounded (pre.foldl (fun t ev => (fragStep t ev).1) [])) ↔
      Along (fun t ev => (fragStep t ev).1) (fun t ev => ¬ Repeats t ev) [] evs := by
  have hempty : FragInv [] := ⟨Nat.zero_le _, fun _ hx => (by cases hx)⟩
  have hinv : ∀ pre : List FragEvent, FragInv (pre.foldl (fun t ev => (fragStep t ev).1) []) :=
    fun pre => foldl_invariant (fun t ev h => h.step ev) pre hempty
  rw [← Along.iff_states (I := fun _ => True) (J := Distinct) (fun _ _ _ => trivial)
    (fun t ev _ hd => distinct_step hd ev) evs trivial fun _ hx => (by cases hx)]
  exact forall_congr' fun pre => imp_congr_right fun _ => (hinv pre).bounded

/-! ## Fragments without payload -/

/-- A stream of `n` parts and no bytes, waiting for its end. -/
def Piled (n : ℕ) (p : IpPacket) (now : UInt32) (t : FragTable) : Prop :=
  ∃ e, (t.get (fragKeyOf p)).getD (.fresh p now) = e ∧ e.parts.length = n ∧ e.totalLen < 0 ∧
    e.accumulated = 0

/-- An empty fragment that is not the last one piles up another part. -/
theorem Piled.step {n : ℕ} {p : IpPacket} {now : UInt32} {t : FragTable} (h : Piled n p now t)
    {data : Bytes} {tie : ℕ} (hp : fragmentOf data = some p) (hmore : p.moreFrags = true)
    (hlen : p.l4Len = 0) : Piled (n + 1) p now (fragStep t (.recv data now tie)).1 := by
  obtain ⟨e, he, hparts, htotal, hacc⟩ := h
  have hfragment : (FragEvent.recv data now tie).fragment = some p := hp
  have hfacts := FragEvent.fragment_parsed hfragment
  have hcases := handleFragment_cases t hfacts now tie
  have hadd : t.added p now = e.add p := by
    unfold FragTable.added
    rw [he]
  have hadded : (e.add p).parts.length = n + 1 ∧ (e.add p).totalLen < 0 ∧ (e.add p).accumulated = 0 := by
    have hcount := (partOf_length hfacts).2
    simp [FragEntry.add, hparts, htotal, hacc, hmore, hcount, hlen]
  have hin : (partOf p).off.toNat + (partOf p).len.toNat ≤ 65535 := by
    have hoff := hfacts.partOf_eq.2.1
    have hcount := (partOf_length hfacts).2
    have := hfacts.units
    omega
  simp only [fragStep, hp]
  rw [added_makeRoom, hadd] at hcases
  generalize handleFragment t p now tie = res at hcases
  cases hcases with
  | dropped hbig => omega
  | finished _ _ hpos _ => omega
  | waiting _ _ _ =>
    refine ⟨e.add p, ?_, hadded⟩
    rw [FragTable.get_insert_self, Option.getD_some]

theorem piled_run {data : Bytes} {p : IpPacket} (now : UInt32) (hp : fragmentOf data = some p)
    (hmore : p.moreFrags = true) (hlen : p.l4Len = 0) (n : ℕ) :
    Piled n p now ((List.replicate n (.recv data now 0)).foldl (fun t ev => (fragStep t ev).1) []) := by
  induction n with
  | zero =>
    have hneg : (-1 : ℤ) < 0 := by decide
    exact ⟨.fresh p now, rfl, rfl, hneg, rfl⟩
  | succ n ih =>
    rw [List.replicate_succ', List.foldl_append]
    exact ih.step hp hmore hlen

/-- A fragment without payload, received `n` times. -/
def emptyFragments (n : ℕ) : List FragEvent :=
  List.replicate n (.recv (sampleFragment 7 0 true []) 100 0)

theorem frag_parts_unbounded :
    (∃ x ∈ (emptyFragments 8193).foldl (fun t ev => (fragStep t ev).1) [], x.2.parts.length = 8193) ∧
      ¬ ∃ bound, ∀ evs : List FragEvent, ∀ x ∈ evs.foldl (fun t ev => (fragStep t ev).1) [],
        x.2.parts.length ≤ bound := by
  obtain ⟨p, hp, hmore, hlen⟩ : ∃ p, fragmentOf (sampleFragment 7 0 true []) = some p ∧
      p.moreFrags = true ∧ p.l4Len = 0 := by
    have hsome : ((fragmentOf (sampleFragment 7 0 true [])).any fun p =>
        p.moreFrags && p.l4Len == 0) = true := by decide +kernel
    obtain ⟨p, hp, hfacts⟩ := (Option.any_eq_true _ _).mp hsome
    rw [Bool.and_eq_true, beq_iff_eq] at hfacts
    exact ⟨p, hp, hfacts⟩
  have hpile : ∀ n, 0 < n → ∃ x ∈ (emptyFragments n).foldl (fun t ev => (fragStep t ev).1) [],
      x.2.parts.length = n := by
    intro n hn
    obtain ⟨e, he, hparts, -⟩ := piled_run 100 hp hmore hlen n
    unfold emptyFragments
    generalize (List.replicate n (.recv (sampleFragment 7 0 true []) 100 0)).foldl
      (fun t ev => (fragStep t ev).1) [] = t at he ⊢
    cases hget : t.get (fragKeyOf p) with
    | none =>
      rw [hget] at he
      subst he
      simp [FragEntry.fresh] at hparts
      omega
    | some e' =>
      rw [hget] at he
      subst he
      exact ⟨_, FragTable.mem_of_get hget, hparts⟩
  refine ⟨hpile 8193 (by decide), fun ⟨bound, hall⟩ => ?_⟩
  obtain ⟨x, hx, hparts⟩ := hpile (bound + 1) (by omega)
  have := hall _ x hx
  omega

end BaleVpn.Dispatch
