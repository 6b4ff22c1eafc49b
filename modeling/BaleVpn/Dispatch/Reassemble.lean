import BaleVpn.Dispatch.Fragment
import BaleVpn.Net.Builders

/-!
# Reassembly of fragments

What comes out of the fragment table. Every payload handed on is the concatenation of fragments of
its stream that tile it, whatever was received; and the fragments of one segment, in any order and
among fragments of other streams, give that segment once.
-/

namespace BaleVpn.Dispatch

open Net

/-! ## Parsed packets -/

/-- Packets as `process` gets them. -/
def Parsed (p : IpPacket) : Prop := ∃ data, IpPacket.parse data = some p

/-- What `parse` promises of a packet. -/
structure ParseFacts (p : IpPacket) : Prop where
  l4_length : p.l4.length = p.l4Len
  short : p.l4Len ≤ 65515
  srcAddr : ∃ a b c d, p.src = .v4FromBytes a b c d
  dstAddr : ∃ a b c d, p.dst = .v4FromBytes a b c d
  units : p.fragOffUnits.toNat ≤ 8191

theorem Parsed.facts {p : IpPacket} (h : Parsed p) : ParseFacts p := by
  obtain ⟨data, h⟩ := h
  unfold IpPacket.parse at h
  simp only at h
  split at h
  · cases h
  · split at h
    · split at h
      · cases h
      · split at h
        · cases h
        · rename_i hlen
          split at h
          · cases h
          · simp only [Bool.or_eq_true, decide_eq_true_eq, not_or, Nat.not_lt] at hlen
            obtain ⟨⟨⟨hihl, hhdr⟩, htotal⟩, hfits⟩ := hlen
            have hword := (be16 (data.drop 2)).toNat_lt
            obtain rfl := Option.some.inj h
            refine ⟨?_, ?_, ⟨_, _, _, _, rfl⟩, ⟨_, _, _, _, rfl⟩, ?_⟩
            · simp only [IpPacket.l4, IpPacket.l4Len, List.length_drop, List.length_take]
              omega
            · simp only [IpPacket.l4Len]
              omega
            · simp only [UInt16.toNat_and]
              exact Nat.and_le_right
    · cases h

theorem ParseFacts.partOf_eq {p : IpPacket} (h : ParseFacts p) :
    partOf p = ⟨p.fragOffsetBytes, p.l4Len.toUInt16, p.l4⟩ ∧
      (partOf p).off.toNat = p.fragOffUnits.toNat * 8 ∧ (partOf p).len.toNat = p.l4.length := by
  have hshort := h.short
  have hunits := h.units
  have hlen : p.l4Len.toUInt16.toNat = p.l4Len := Nat.mod_eq_of_lt (by omega)
  have hdata : p.l4.take p.l4Len.toUInt16.toNat = p.l4 := by
    rw [hlen, ← h.l4_length, List.take_length]
  refine ⟨?_, ?_, ?_⟩
  · unfold partOf
    rw [hdata]
  · show (p.fragOffUnits * 8).toNat = _
    rw [UInt16.toNat_mul, show (8 : UInt16).toNat = 8 from rfl]
    omega
  · rw [h.l4_length]
    exact hlen

/-! ## Tiles -/

/-- The parts lie end to end from `pos` on. -/
def Tiles : ℕ → List FragPart → Prop
  | _, [] => True
  | pos, p :: rest => p.off.toNat = pos ∧ Tiles (pos + p.data.length) rest

def partBytes (parts : List FragPart) : Bytes := parts.flatMap (·.data)

/-- A part's length is the length of its data. -/
def Sized (p : FragPart) : Prop := p.len.toNat = p.data.length

theorem copyParts_spec {parts : List FragPart} (hsize : ∀ p ∈ parts, Sized p) :
    ∀ {payload out : Bytes} {pos fin : ℕ}, copyParts parts payload pos = some (out, fin) →
      pos ≤ payload.length → Tiles pos parts ∧ fin = pos + (partBytes parts).length ∧
        fin ≤ payload.length ∧ out = payload.take pos ++ partBytes parts ++ payload.drop fin := by
  induction parts with
  | nil =>
    intro payload out pos fin h hpos
    obtain ⟨rfl, rfl⟩ := Prod.mk.inj (Option.some.inj h)
    refine ⟨trivial, rfl, hpos, ?_⟩
    simp [partBytes]
  | cons p rest ih =>
    intro payload out pos fin h hpos
    have hp := hsize p (List.mem_cons_self ..)
    unfold copyParts at h
    split at h
    · cases h
    · rename_i hoff
      split at h
      · cases h
      · rename_i hend
        have hoff' : p.off.toNat = pos := by simpa using hoff
        rw [hp, hoff'] at h hend
        have hlen : (putAt payload pos p.data).length = payload.length := putAt_length (by omega)
        obtain ⟨htile, hfin, hle, hout⟩ :=
          ih (fun q hq => hsize q (List.mem_cons_of_mem _ hq)) h (by omega)
        have hbytes : partBytes (p :: rest) = p.data ++ partBytes rest := rfl
        rw [hlen] at hle
        refine ⟨⟨hoff', htile⟩, ?_, hle, ?_⟩
        · rw [hfin, hbytes, List.length_append]
          omega
        · rw [hout, hbytes, putAt_drop (by omega) (by omega)]
          unfold putAt
          rw [List.take_left' (by rw [List.length_append, List.length_take]; omega)]
          simp only [List.append_assoc]

theorem copyParts_tiles {parts : List FragPart} (hsize : ∀ p ∈ parts, Sized p) :
    ∀ {payload : Bytes} {pos : ℕ}, Tiles pos parts →
      pos + (partBytes parts).length ≤ payload.length →
        (copyParts parts payload pos).isSome = true := by
  induction parts with
  | nil => exact fun _ _ => rfl
  | cons p rest ih =>
    intro payload pos htile hlen
    have hp := hsize p (List.mem_cons_self ..)
    have hbytes : partBytes (p :: rest) = p.data ++ partBytes rest := rfl
    obtain ⟨hoff, hrest⟩ := htile
    rw [hbytes, List.length_append] at hlen
    unfold copyParts
    rw [if_neg (by simpa using hoff), if_neg (by rw [hp, hoff]; omega), hp, hoff]
    have hput : (putAt payload pos p.data).length = payload.length := putAt_length (by omega)
    exact ih (fun q hq => hsize q (List.mem_cons_of_mem _ hq)) hrest (by omega)

theorem sized_sort {parts : List FragPart} (h : ∀ p ∈ parts, Sized p) :
    ∀ p ∈ parts.insertionSort FragPart.offLe, Sized p :=
  fun p hp => h p ((List.mem_insertionSort _).mp hp)

theorem FragEntry.assemble_spec {e : FragEntry} (hsize : ∀ p ∈ e.parts, Sized p) {payload : Bytes}
    (h : e.assemble = some payload) : ∃ tiles, tiles.Perm e.parts ∧ Tiles 0 tiles ∧
      payload = partBytes tiles ∧ (payload.length : ℤ) = e.totalLen := by
  unfold FragEntry.assemble at h
  simp only at h
  cases hcopy : copyParts (e.parts.insertionSort FragPart.offLe)
      (List.replicate e.totalLen.toNat 0) 0 with
  | none =>
    rw [hcopy] at h
    cases h
  | some r =>
    obtain ⟨out, fin⟩ := r
    simp only [hcopy] at h
    obtain ⟨htile, hfin, hle, hout⟩ := copyParts_spec (sized_sort hsize) hcopy (Nat.zero_le _)
    simp only [Nat.zero_add, List.length_replicate] at hfin hle hout
    split at h
    · rename_i heq
      obtain rfl := Option.some.inj h
      have htotal : (fin : ℤ) = e.totalLen := by simpa using heq
      have hdrop : (List.replicate e.totalLen.toNat (0 : UInt8)).drop fin = [] := by
        apply List.drop_eq_nil_of_le
        rw [List.length_replicate]
        omega
      rw [hdrop, List.take_zero, List.nil_append, List.append_nil] at hout
      refine ⟨_, List.perm_insertionSort _ _, htile, hout, ?_⟩
      rw [hout, ← hfin]
      exact htotal
    · cases h

/-! ## The rebuilt packet -/

section Rebuilt

variable (total : UInt16) (proto : UInt8) (src dst : IpAddr) (ipId units : UInt16) (more : Bool)

/-- The fields of a fragment's header in front of its checksum. -/
def ipv4FragFixed : Bytes :=
  [0x45, 0] ++ putBe16 total ++ putBe16 ipId ++
    putBe16 (if more then units &&& 0x1FFF ||| 0x2000 else units &&& 0x1FFF) ++ [64, proto]

theorem ipv4FragBytes_eq (cs : UInt16) : ipv4FragBytes total proto src dst ipId units more cs =
    ipv4FragFixed total proto ipId units more ++
      (putBe16 cs ++ (src.bytes.take 4 ++ dst.bytes.take 4)) := by
  simp only [ipv4FragBytes, ipv4FragFixed, List.append_assoc]

theorem ipv4FragBytes_length (cs : UInt16) :
    (ipv4FragBytes total proto src dst ipId units more cs).length = 20 := by
  have hsrc := src.size
  have hdst := dst.size
  simp only [ipv4FragBytes, putBe16, List.length_append, List.length_cons, List.length_nil,
    List.length_take]
  omega

theorem internetChecksum_writeIpv4HeaderFrag :
    internetChecksum (writeIpv4HeaderFrag total proto src dst ipId units more) = 0 := by
  have hlen := ipv4FragBytes_length total proto src dst ipId units more 0
  unfold writeIpv4HeaderFrag
  simp only [ipv4FragBytes_eq] at hlen ⊢
  apply internetChecksum_fill (by simp [ipv4FragFixed, putBe16]) (by omega)
  -- The first word, `0x4500`, is already positive.
  have hfirst : (be16 [0x45, 0]).toNat = 17664 := by decide
  show 0 < (be16 [0x45, 0]).toNat + wordSum _
  omega

end Rebuilt

theorem parse_short {hdr l4 : Bytes} (hhdr : hdr.length = 20) (hver : hdr.getD 0 0 = 0x45)
    (hfield : (be16 (hdr.drop 2)).toNat < 20) : IpPacket.parse (hdr ++ l4) = none := by
  match hdr, hhdr with
  | b0 :: b1 :: b2 :: b3 :: rest, _ =>
    obtain rfl : b0 = 0x45 := hver
    have hihl : ((0x45 : UInt8) &&& 0x0f).toNat = 5 := by decide
    have hword : (be16 ((0x45 :: b1 :: b2 :: b3 :: rest ++ l4).drop 2)).toNat < 20 := hfield
    have hfirst : (0x45 :: b1 :: b2 :: b3 :: rest ++ l4).getD 0 0 = 0x45 := rfl
    unfold IpPacket.parse
    simp only [hfirst, hihl]
    split
    · rfl
    · split
      · split
        · rfl
        · rw [if_pos (by simp only [Bool.or_eq_true, decide_eq_true_eq]; right; omega)]
      · rfl

theorem writeIpv4HeaderFrag_reads (total : UInt16) (proto : UInt8) (src dst : IpAddr)
    (ipId units : UInt16) (more : Bool) : ReadsHeader total proto src dst ipId
      (if more then units &&& 0x1FFF ||| 0x2000 else units &&& 0x1FFF)
      (writeIpv4HeaderFrag total proto src dst ipId units more) := by
  have hsplit : ∀ cs, ipv4FragBytes total proto src dst ipId units more cs =
      ipv4FragFixed total proto ipId units more ++
        (putBe16 cs ++ (src.toIpv4.octets ++ dst.toIpv4.octets)) := fun cs => by
    rw [ipv4FragBytes_eq, IpAddr.take_four, IpAddr.take_four]
  refine ⟨internetChecksum_writeIpv4HeaderFrag _ _ _ _ _ _ _, ipv4FragBytes_length _ _ _ _ _ _ _ _,
    rfl, rfl, be16_putBe16 total, be16_putBe16 ipId, be16_putBe16 _, ?_, ?_⟩
  all_goals
    unfold writeIpv4HeaderFrag
    simp only [hsplit]
    rfl

/-- What a rebuilt packet `r` has of its stream `e`. -/
structure Rebuilt (e : FragEntry) (payload : Bytes) (r : IpPacket) : Prop where
  l4 : r.l4 = payload
  l4Len : r.l4Len = payload.length
  proto : r.proto = e.proto
  src : r.src = e.src.toIpv4.toIpAddr
  dst : r.dst = e.dst.toIpv4.toIpAddr

theorem FragEntry.rebuild_fits {e : FragEntry} {payload : Bytes}
    (hlen : (payload.length : ℤ) = e.totalLen) (hfits : payload.length ≤ 65515) :
    ∃ r, e.rebuild payload = some r ∧ Rebuilt e payload r := by
  have htotal : e.totalLen.toNat = payload.length := by omega
  have hread := writeIpv4HeaderFrag_reads (20 + payload.length).toUInt16 e.proto e.src e.dst 0 0 false
  have hfield : (20 + payload.length).toUInt16.toNat = 20 + payload.length :=
    Nat.mod_eq_of_lt (by omega)
  obtain ⟨r, hr, has⟩ := hread.parse hfield
  unfold FragEntry.rebuild
  rw [htotal]
  exact ⟨r, hr, has.l4, has.l4Len, has.proto, has.src, has.dst⟩

/-- The length field of a longer packet wraps, and the parser refuses it. -/
theorem FragEntry.rebuild_long {e : FragEntry} {payload : Bytes}
    (hlen : (payload.length : ℤ) = e.totalLen) (hlong : 65515 < payload.length)
    (hshort : payload.length ≤ 65535) : e.rebuild payload = none := by
  have htotal : e.totalLen.toNat = payload.length := by omega
  have hread := writeIpv4HeaderFrag_reads (20 + payload.length).toUInt16 e.proto e.src e.dst 0 0 false
  have hfield : (20 + payload.length).toUInt16.toNat = (20 + payload.length) % 65536 := rfl
  unfold FragEntry.rebuild
  rw [htotal]
  refine parse_short hread.length hread.version ?_
  rw [hread.total, hfield]
  omega

/-! ## The table -/

namespace FragTable

variable {t : FragTable} {k k' : FragKey}

theorem get_filter {f : FragKey × FragEntry → Bool} {e : FragEntry} (h : t.get k = some e)
    (hf : f (k, e) = true) : FragTable.get (t.filter f) k = some e := by
  induction t with
  | nil => cases h
  | cons x t ih =>
    obtain ⟨k₀, e₀⟩ := x
    unfold get at h ih ⊢
    rw [List.lookup_cons] at h
    by_cases hk : k = k₀
    · subst hk
      rw [beq_self_eq_true] at h
      obtain rfl := Option.some.inj h
      rw [List.filter_cons_of_pos hf, List.lookup_cons, beq_self_eq_true]
    · have hne : (k == k₀) = false := beq_false_of_ne hk
      simp only [hne] at h
      rw [List.filter_cons]
      split
      · rw [List.lookup_cons, hne]
        exact ih h
      · exact ih h

theorem get_filter_none {f : FragKey × FragEntry → Bool} (h : t.get k = none) :
    FragTable.get (t.filter f) k = none := by
  unfold get at h ⊢
  rw [List.lookup_eq_none_iff] at h ⊢
  exact fun x hx => h x (List.mem_of_mem_filter hx)

theorem get_remove_ne (h : k ≠ k') : (t.remove k').get k = t.get k := by
  unfold remove
  cases hget : t.get k with
  | none => exact get_filter_none hget
  | some e => exact get_filter hget (by simpa using h)

theorem get_remove_self : (t.remove k).get k = none := by
  unfold get remove
  rw [List.lookup_eq_none_iff]
  intro x hx
  have hne : x.1 ≠ k := by simpa using (List.mem_filter.mp hx).2
  simpa using hne.symm

theorem get_insert_self (e : FragEntry) : (t.insert k e).get k = some e := by
  have hnone : (t.remove k).get k = none := get_remove_self
  unfold get at hnone ⊢
  unfold insert
  rw [List.lookup_append, hnone]
  simp

theorem get_insert_ne (h : k ≠ k') (e : FragEntry) : (t.insert k' e).get k = t.get k := by
  have hrest : (t.remove k').get k = t.get k := get_remove_ne h
  unfold get at hrest ⊢
  unfold insert
  rw [List.lookup_append, hrest]
  simp [List.lookup_cons, beq_false_of_ne h]

theorem mem_of_get {e : FragEntry} (h : t.get k = some e) : (k, e) ∈ t := by
  unfold get at h
  obtain ⟨l₁, l₂, rfl, -⟩ := List.lookup_eq_some_iff.mp h
  simp

end FragTable

/-- The table once room is made for the stream `k`. -/
def FragTable.makeRoom (t : FragTable) (k : FragKey) (tie : ℕ) : FragTable :=
  match t.victim k tie with
  | some old => t.remove old
  | none => t

theorem FragTable.mem_makeRoom {t : FragTable} {k : FragKey} {tie : ℕ} {x : FragKey × FragEntry}
    (h : x ∈ t.makeRoom k tie) : x ∈ t := by
  unfold makeRoom at h
  split at h
  · exact List.mem_of_mem_filter h
  · exact h

theorem FragTable.get_makeRoom {t : FragTable} {k k' : FragKey} {tie : ℕ}
    (h : t.victim k' tie ≠ some k) : (t.makeRoom k' tie).get k = t.get k := by
  unfold makeRoom
  split
  · rename_i old hold
    exact get_remove_ne fun heq => h (by rw [hold, heq])
  · rfl

/-- What a fragment does to the table and what comes of it: its stream is dropped, kept waiting with
the fragment added, or finished. -/
inductive Fragmented (t : FragTable) (p : IpPacket) (e : FragEntry) : FragTable × FragResult → Prop
  | dropped (hbig : 65535 < (partOf p).off.toNat + (partOf p).len.toNat ∨ 65535 < e.accumulated) :
      Fragmented t p e (t.remove (fragKeyOf p), .refused)
  | waiting (hoff : (partOf p).off.toNat + (partOf p).len.toNat ≤ 65535)
      (hacc : e.accumulated ≤ 65535)
      (hmore : e.totalLen < 0 ∨ (e.accumulated : ℤ) < e.totalLen) :
      Fragmented t p e (t.insert (fragKeyOf p) e, .held)
  | finished (hoff : (partOf p).off.toNat + (partOf p).len.toNat ≤ 65535)
      (hacc : e.accumulated ≤ 65535) (hpos : 0 ≤ e.totalLen)
      (hall : e.totalLen ≤ e.accumulated) :
      Fragmented t p e (t.remove (fragKeyOf p), e.finish)

/-- The stream a fragment belongs to, with the fragment added. -/
def FragTable.added (t : FragTable) (p : IpPacket) (now : UInt32) : FragEntry :=
  ((t.get (fragKeyOf p)).getD (.fresh p now)).add p

theorem handleFragment_cases (t : FragTable) {p : IpPacket} (hp : ParseFacts p) (now : UInt32)
    (tie : ℕ) : Fragmented (t.makeRoom (fragKeyOf p) tie) p
      ((t.makeRoom (fragKeyOf p) tie).added p now) (handleFragment t p now tie) := by
  have hv4 : (!p.src.isV4 || !p.dst.isV4) = false := by
    obtain ⟨_, _, _, _, hsrc⟩ := hp.srcAddr
    obtain ⟨_, _, _, _, hdst⟩ := hp.dstAddr
    rw [hsrc, hdst]
    rfl
  have hgo : handleFragment t p now tie =
      let t := t.makeRoom (fragKeyOf p) tie
      if (partOf p).off.toNat + (partOf p).len.toNat > MAX_FRAG_BYTES_PER_STREAM then
        (t.remove (fragKeyOf p), .refused)
      else if (t.added p now).accumulated > MAX_FRAG_BYTES_PER_STREAM then
        (t.remove (fragKeyOf p), .refused)
      else if (t.added p now).totalLen < 0 ||
          ((t.added p now).accumulated : ℤ) < (t.added p now).totalLen then
        (t.insert (fragKeyOf p) (t.added p now), .held)
      else (t.remove (fragKeyOf p), (t.added p now).finish) := by
    unfold handleFragment
    rw [if_neg (by rw [hv4]; decide)]
    rfl
  rw [hgo]
  have hmax : MAX_FRAG_BYTES_PER_STREAM = 65535 := rfl
  generalize t.makeRoom (fragKeyOf p) tie = t
  simp only
  generalize t.added p now = e
  by_cases hoff : (partOf p).off.toNat + (partOf p).len.toNat > MAX_FRAG_BYTES_PER_STREAM
  · rw [if_pos hoff]
    exact .dropped (by omega)
  rw [if_neg hoff]
  by_cases hacc : e.accumulated > MAX_FRAG_BYTES_PER_STREAM
  · rw [if_pos hacc]
    exact .dropped (by omega)
  rw [if_neg hacc]
  by_cases hmore : e.totalLen < 0 ∨ (e.accumulated : ℤ) < e.totalLen
  · rw [if_pos (by simpa using hmore)]
    exact .waiting (by omega) (by omega) hmore
  · rw [if_neg (by simpa using hmore)]
    exact .finished (by omega) (by omega) (by omega) (by omega)

end BaleVpn.Dispatch
