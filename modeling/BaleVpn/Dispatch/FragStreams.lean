import BaleVpn.Dispatch.Reassemble
import Mathlib.Data.List.Nodup
import Mathlib.Data.List.Perm.Basic

/-!
# Runs of the fragment table

The table over whole runs: packets from the tunnel, fragments among them, and sweeps. One invariant
says what each waiting stream is made of, and gives soundness for every run. A second follows one
stream that is neither evicted nor expired, and gives back the segment it was cut from.
-/

namespace BaleVpn.Dispatch

open Net

inductive FragEvent
  | recv (data : Bytes) (now : UInt32) (tie : ℕ)
  | sweep (now : UInt32)

/-- A reassembled packet that is handed on, the stream it comes from and the call that gets it. -/
structure Handed where
  key : FragKey
  packet : IpPacket
  call : L4Call

def FragResult.handed (k : FragKey) : FragResult → List Handed
  | .rebuilt r =>
    match routeL4 r with
    | .call c => [⟨k, r, c⟩]
    | _ => []
  | _ => []

/-- The fragment in a received packet. Other packets never reach the table. -/
def fragmentOf (data : Bytes) : Option IpPacket := (IpPacket.parse data).filter (·.isFragment)

def fragStep (t : FragTable) : FragEvent → FragTable × List Handed
  | .recv data now tie =>
    match fragmentOf data with
    | some p => ((handleFragment t p now tie).1, (handleFragment t p now tie).2.handed (fragKeyOf p))
    | none => (t, [])
  | .sweep now => (t.sweep now, [])

/-- All that is handed on in a run. -/
def handedOn : FragTable → List FragEvent → List Handed
  | _, [] => []
  | t, ev :: evs => (fragStep t ev).2 ++ handedOn (fragStep t ev).1 evs

def FragEvent.fragment : FragEvent → Option IpPacket
  | .recv data _ _ => fragmentOf data
  | .sweep _ => none

/-- The fragments of the stream `k` in a run, in the order received. -/
def fragmentsOf (k : FragKey) (evs : List FragEvent) : List IpPacket :=
  (evs.filterMap FragEvent.fragment).filter fun p => fragKeyOf p = k

theorem fragments_cons (ev : FragEvent) (evs : List FragEvent) :
    (ev :: evs).filterMap FragEvent.fragment =
      ev.fragment.toList ++ evs.filterMap FragEvent.fragment := by
  cases hev : ev.fragment <;> simp [hev]

theorem FragEvent.fragment_parsed {ev : FragEvent} {p : IpPacket} (h : ev.fragment = some p) :
    ParseFacts p := by
  cases ev with
  | recv data now tie =>
    obtain ⟨hparse, -⟩ := Option.filter_eq_some_iff.mp h
    exact Parsed.facts ⟨data, hparse⟩
  | sweep now => cases h

theorem fragStep_cases (t : FragTable) (ev : FragEvent) :
    (ev.fragment = none ∧ (fragStep t ev).2 = [] ∧
        ((fragStep t ev).1 = t ∨ ∃ now, ev = .sweep now ∧ (fragStep t ev).1 = t.sweep now)) ∨
      ∃ data now tie p, ev = .recv data now tie ∧ ev.fragment = some p ∧
        fragStep t ev =
          ((handleFragment t p now tie).1, (handleFragment t p now tie).2.handed (fragKeyOf p)) := by
  cases ev with
  | sweep now => exact .inl ⟨rfl, rfl, .inr ⟨now, rfl, rfl⟩⟩
  | recv data now tie =>
    cases hp : fragmentOf data with
    | none =>
      refine .inl ⟨hp, ?_, .inl ?_⟩ <;> simp only [fragStep, hp]
    | some p =>
      refine .inr ⟨data, now, tie, p, rfl, hp, ?_⟩
      simp only [fragStep, hp]

theorem FragResult.mem_handed {res : FragResult} {k : FragKey} {h : Handed}
    (hmem : h ∈ res.handed k) : res = .rebuilt h.packet ∧ h.key = k ∧
      routeL4 h.packet = .call h.call := by
  cases res with
  | refused => simp [FragResult.handed] at hmem
  | held => simp [FragResult.handed] at hmem
  | rebuilt r =>
    simp only [FragResult.handed] at hmem
    split at hmem
    · rename_i c hroute
      rw [List.mem_singleton] at hmem
      subst hmem
      exact ⟨rfl, rfl, hroute⟩
    · simp at hmem

/-! ## Soundness -/

/-- What a waiting stream is made of: fragments of its key among those `seen`, and an end that one of
them set. -/
structure Traced (seen : List IpPacket) (k : FragKey) (e : FragEntry) (recv : List IpPacket) :
    Prop where
  sub : recv.Sublist seen
  parsed : ∀ p ∈ recv, ParseFacts p ∧ fragKeyOf p = k
  parts : e.parts = recv.map partOf
  proto : e.proto = k.proto
  src : e.src = k.src
  dst : e.dst = k.dst
  total : e.totalLen < 0 ∨ ∃ p ∈ recv, p.moreFrags = false ∧
    e.totalLen = (p.fragOffsetBytes.toNat : ℤ) + p.l4Len

/-- Every stream of the table is traced. -/
def TableTraced (seen : List IpPacket) (t : FragTable) : Prop :=
  ∀ x ∈ t, ∃ recv, Traced seen x.1 x.2 recv

theorem Traced.mono {seen seen' recv : List IpPacket} {k : FragKey} {e : FragEntry}
    (h : Traced seen k e recv) (hsub : seen.Sublist seen') : Traced seen' k e recv :=
  { h with sub := h.sub.trans hsub }

theorem Traced.fresh (seen : List IpPacket) (p : IpPacket) (now : UInt32) :
    Traced seen (fragKeyOf p) (.fresh p now) [] :=
  ⟨List.nil_sublist _, fun _ h => by simp at h, rfl, rfl, rfl, rfl, .inl (by simp [FragEntry.fresh])⟩

theorem Traced.add {seen recv : List IpPacket} {e : FragEntry} {p : IpPacket}
    (h : Traced seen (fragKeyOf p) e recv) (hp : ParseFacts p) :
    Traced (seen ++ [p]) (fragKeyOf p) (e.add p) (recv ++ [p]) where
  sub := h.sub.append (List.Sublist.refl _)
  parsed q hq := by
    rcases List.mem_append.mp hq with hq | hq
    · exact h.parsed q hq
    · obtain rfl := List.mem_singleton.mp hq
      exact ⟨hp, rfl⟩
  parts := by simp [FragEntry.add, h.parts]
  proto := h.proto
  src := h.src
  dst := h.dst
  total := by
    by_cases hmore : p.moreFrags = true
    · rcases h.total with hneg | ⟨q, hq, hlast, htotal⟩
      · exact .inl (by simpa [FragEntry.add, hmore] using hneg)
      · refine .inr ⟨q, List.mem_append_left _ hq, hlast, ?_⟩
        simpa [FragEntry.add, hmore] using htotal
    · have hlast : p.moreFrags = false := by simpa using hmore
      refine .inr ⟨p, by simp, hlast, ?_⟩
      simp [FragEntry.add, hlast]

theorem TableTraced.added {seen : List IpPacket} {t : FragTable} {p : IpPacket} {now : UInt32}
    (h : TableTraced seen t) (hp : ParseFacts p) :
    ∃ recv, Traced (seen ++ [p]) (fragKeyOf p) (t.added p now) recv := by
  unfold FragTable.added
  cases hget : t.get (fragKeyOf p) with
  | none => exact ⟨_, (Traced.fresh seen p now).add hp⟩
  | some e =>
    obtain ⟨recv, hrecv⟩ := h _ (FragTable.mem_of_get hget)
    exact ⟨_, hrecv.add hp⟩

theorem Traced.sized {seen recv : List IpPacket} {k : FragKey} {e : FragEntry}
    (h : Traced seen k e recv) : ∀ q ∈ e.parts, Sized q := by
  intro q hq
  rw [h.parts, List.mem_map] at hq
  obtain ⟨p, hp, rfl⟩ := hq
  obtain ⟨heq, -, hlen⟩ := (h.parsed p hp).1.partOf_eq
  unfold Sized
  rw [hlen, heq]

theorem TableTraced.step {seen : List IpPacket} {t : FragTable} (h : TableTraced seen t)
    (ev : FragEvent) : TableTraced (seen ++ ev.fragment.toList) (fragStep t ev).1 := by
  rcases fragStep_cases t ev with ⟨hnone, -, htable⟩ | ⟨data, now, tie, p, rfl, hp, hstep⟩
  · rw [hnone, Option.toList_none, List.append_nil]
    rcases htable with htable | ⟨now, -, htable⟩
    · rwa [htable]
    · rw [htable]
      exact fun x hx => h x (List.mem_of_mem_filter hx)
  · have hfacts := FragEvent.fragment_parsed hp
    have hroom : TableTraced seen (t.makeRoom (fragKeyOf p) tie) :=
      fun x hx => h x (FragTable.mem_makeRoom hx)
    have hrest : TableTraced (seen ++ [p]) ((t.makeRoom (fragKeyOf p) tie).remove (fragKeyOf p)) := by
      intro x hx
      obtain ⟨recv, hrecv⟩ := hroom x (List.mem_of_mem_filter hx)
      exact ⟨recv, hrecv.mono (List.sublist_append_left _ _)⟩
    rw [hstep, hp, Option.toList_some]
    have hcases := handleFragment_cases t hfacts now tie
    have hadded : ∃ recv, Traced (seen ++ [p]) (fragKeyOf p)
      ((t.makeRoom (fragKeyOf p) tie).added p now) recv := hroom.added hfacts
    generalize handleFragment t p now tie = res at hcases
    cases hcases with
    | dropped _ => exact hrest
    | finished _ _ _ _ => exact hrest
    | waiting _ _ _ =>
      intro x hx
      rcases List.mem_append.mp hx with hx | hx
      · exact hrest x hx
      · obtain rfl := List.mem_singleton.mp hx
        exact hadded

theorem toIpv4_toIpAddr {a : IpAddr} (h : ∃ b c d e, a = .v4FromBytes b c d e) :
    a.toIpv4.toIpAddr = a := by
  obtain ⟨b, c, d, e, rfl⟩ := h
  rfl

theorem Traced.tiles {seen recv : List IpPacket} {k : FragKey} {e : FragEntry} {payload : Bytes}
    (h : Traced seen k e recv) (hall : e.assemble = some payload) :
    ∃ tiles : List IpPacket, tiles.Perm recv ∧ Tiles 0 (tiles.map partOf) ∧
      payload = tiles.flatMap IpPacket.l4 ∧ (payload.length : ℤ) = e.totalLen := by
  obtain ⟨parts, hperm, htile, hbytes, hlen⟩ := FragEntry.assemble_spec h.sized hall
  rw [h.parts] at hperm
  obtain ⟨tiles, rfl, htiles⟩ : ∃ tiles : List IpPacket, parts = tiles.map partOf ∧
      tiles.Perm recv := by
    have hcomp : Relation.Comp (· = List.map partOf ·) List.Perm parts recv := by
      rw [List.eq_map_comp_perm]
      exact hperm
    exact hcomp
  refine ⟨tiles, htiles, htile, ?_, hlen⟩
  have hdata : ∀ p ∈ tiles, (partOf p).data = p.l4 := by
    intro p hp
    rw [(h.parsed p (htiles.mem_iff.mp hp)).1.partOf_eq.1]
  rw [hbytes, partBytes, List.flatMap_map]
  exact List.flatMap_congr hdata

/-- The payload is the fragments in `tiles` end to end; the fragment without MF says where it ends. -/
structure TiledBy (h : Handed) (tiles : List IpPacket) : Prop where
  key : ∀ p ∈ tiles, fragKeyOf p = h.key
  tile : Tiles 0 (tiles.map partOf)
  bytes : h.packet.l4 = tiles.flatMap IpPacket.l4
  last : ∃ p ∈ tiles, p.moreFrags = false ∧
    p.fragOffsetBytes.toNat + p.l4Len = h.packet.l4.length
  addrs : h.packet.src = h.key.src ∧ h.packet.dst = h.key.dst ∧ h.packet.proto = h.key.proto

theorem Traced.finish {seen recv : List IpPacket} {e : FragEntry} {h : Handed}
    (htr : Traced seen h.key e recv) (hacc : e.accumulated ≤ 65535)
    (hall : e.totalLen ≤ e.accumulated) (hfin : e.finish = .rebuilt h.packet) :
    ∃ tiles, tiles.Subperm seen ∧ TiledBy h tiles := by
  unfold FragEntry.finish at hfin
  cases hasm : e.assemble with
  | none => rw [hasm] at hfin; cases hfin
  | some payload =>
    simp only [hasm] at hfin
    obtain ⟨tiles, hperm, htile, hbytes, hlen⟩ := htr.tiles hasm
    have hfits : payload.length ≤ 65515 := by
      by_contra hlong
      rw [FragEntry.rebuild_long hlen (by omega) (by omega)] at hfin
      cases hfin
    obtain ⟨r, hr, hreb⟩ := FragEntry.rebuild_fits hlen hfits
    simp only [hr] at hfin
    obtain rfl := FragResult.rebuilt.inj hfin
    obtain ⟨p, hp, hmf, htotal⟩ : ∃ p ∈ recv, p.moreFrags = false ∧
        e.totalLen = (p.fragOffsetBytes.toNat : ℤ) + p.l4Len := by
      rcases htr.total with hneg | hlast
      · omega
      · exact hlast
    obtain ⟨hfacts, hkey⟩ := htr.parsed p hp
    have hsrc : e.src = p.src := by rw [htr.src, ← hkey]; rfl
    have hdst : e.dst = p.dst := by rw [htr.dst, ← hkey]; rfl
    refine ⟨tiles, hperm.subperm.trans htr.sub.subperm, ?_⟩
    constructor
    case key => exact fun q hq => (htr.parsed q (hperm.mem_iff.mp hq)).2
    case tile => exact htile
    case bytes => rw [hreb.l4, hbytes]
    case last =>
      refine ⟨p, hperm.mem_iff.mpr hp, hmf, ?_⟩
      rw [hreb.l4]
      omega
    case addrs =>
      rw [hreb.src, hreb.dst, hreb.proto, hsrc, hdst, toIpv4_toIpAddr hfacts.srcAddr,
        toIpv4_toIpAddr hfacts.dstAddr, htr.proto, ← hkey]
      exact ⟨rfl, rfl, rfl⟩

theorem TableTraced.handed {seen : List IpPacket} {t : FragTable} (ht : TableTraced seen t)
    {ev : FragEvent} {h : Handed} (hmem : h ∈ (fragStep t ev).2) :
    ∃ tiles, tiles.Subperm (seen ++ ev.fragment.toList) ∧ TiledBy h tiles := by
  rcases fragStep_cases t ev with ⟨-, hnone, -⟩ | ⟨data, now, tie, p, rfl, hp, hstep⟩
  · rw [hnone] at hmem
    simp at hmem
  · have hfacts := FragEvent.fragment_parsed hp
    have hroom : TableTraced seen (t.makeRoom (fragKeyOf p) tie) :=
      fun x hx => ht x (FragTable.mem_makeRoom hx)
    rw [hstep] at hmem
    rw [hp, Option.toList_some]
    have hcases := handleFragment_cases t hfacts now tie
    obtain ⟨recv, hadded⟩ : ∃ recv, Traced (seen ++ [p]) (fragKeyOf p)
      ((t.makeRoom (fragKeyOf p) tie).added p now) recv := hroom.added hfacts
    generalize handleFragment t p now tie = res at hcases hmem
    obtain ⟨hres, hkey, -⟩ := FragResult.mem_handed hmem
    cases hcases with
    | dropped _ => cases hres
    | waiting _ _ _ => cases hres
    | finished _ hacc _ hall =>
      generalize (t.makeRoom (fragKeyOf p) tie).added p now = e at hadded hacc hall hres
      rw [← hkey] at hadded
      exact hadded.finish hacc hall hres

/-- What is handed on is tiled by fragments received. -/
theorem handedOn_tiled {seen : List IpPacket} {t : FragTable} (ht : TableTraced seen t)
    {evs : List FragEvent} {h : Handed} (hmem : h ∈ handedOn t evs) :
    ∃ tiles, tiles.Subperm (seen ++ evs.filterMap FragEvent.fragment) ∧ TiledBy h tiles := by
  induction evs generalizing seen t with
  | nil => simp [handedOn] at hmem
  | cons ev evs ih =>
    rw [fragments_cons, ← List.append_assoc]
    rcases List.mem_append.mp hmem with hmem | hmem
    · obtain ⟨tiles, hsub, htiled⟩ := ht.handed hmem
      exact ⟨tiles, hsub.trans (List.sublist_append_left _ _).subperm, htiled⟩
    · exact ih (ht.step ev) hmem

/-! ## Completeness -/

/-- What the table reads of a fragment: its offset, MF and data. -/
abbrev Piece := ℕ × Bool × Bytes

def pieceOf (p : IpPacket) : Piece := (p.fragOffsetBytes.toNat, p.moreFrags, p.l4)

/-- The pieces of a segment cut into the given data, the first at offset `off`. -/
def cut : ℕ → List Bytes → List Piece
  | _, [] => []
  | off, b :: rest => (off, !rest.isEmpty, b) :: cut (off + b.length) rest

/-- The part that a fragment with this piece becomes. -/
def Piece.part (q : Piece) : FragPart := ⟨q.1.toUInt16, q.2.2.length.toUInt16, q.2.2⟩

theorem ParseFacts.part_pieceOf {p : IpPacket} (h : ParseFacts p) :
    partOf p = (pieceOf p).part := by
  rw [h.partOf_eq.1]
  simp [Piece.part, pieceOf, h.l4_length]

theorem partBytes_cut (off : ℕ) (pieces : List Bytes) :
    partBytes ((cut off pieces).map Piece.part) = pieces.flatten := by
  induction pieces generalizing off with
  | nil => rfl
  | cons b rest ih =>
    have hrest := ih (off + b.length)
    unfold partBytes at hrest ⊢
    simp only [cut, List.map_cons, List.flatMap_cons, List.flatten_cons, hrest]
    rfl

theorem cut_lengths (off : ℕ) (pieces : List Bytes) :
    ((cut off pieces).map fun q => q.2.2.length).sum = pieces.flatten.length := by
  induction pieces generalizing off with
  | nil => rfl
  | cons b rest ih => simp [cut, ih]

theorem mem_cut {off : ℕ} {pieces : List Bytes} {q : Piece} (h : q ∈ cut off pieces) :
    off ≤ q.1 ∧ q.1 + q.2.2.length ≤ off + pieces.flatten.length ∧ q.2.2 ∈ pieces ∧
      (q.2.1 = false → q.1 + q.2.2.length = off + pieces.flatten.length) := by
  induction pieces generalizing off with
  | nil => simp [cut] at h
  | cons b rest ih =>
    rw [List.flatten_cons, List.length_append]
    rcases List.mem_cons.mp h with rfl | h
    · refine ⟨le_rfl, by simp, by simp, ?_⟩
      intro hlast
      have hnil : rest = [] := by simpa using hlast
      simp [hnil]
    · obtain ⟨hlo, hhi, hmem, hlast⟩ := ih h
      refine ⟨by omega, by omega, List.mem_cons_of_mem _ hmem, ?_⟩
      intro hq
      have := hlast hq
      omega

theorem exists_last_cut {off : ℕ} {pieces : List Bytes} (h : pieces ≠ []) :
    ∃ q ∈ cut off pieces, q.2.1 = false := by
  induction pieces generalizing off with
  | nil => exact absurd rfl h
  | cons b rest ih =>
    by_cases hrest : rest = []
    · exact ⟨_, List.mem_cons_self .., by simp [hrest]⟩
    · obtain ⟨q, hq, hlast⟩ := @ih (off + b.length) hrest
      exact ⟨q, List.mem_cons_of_mem _ hq, hlast⟩

section Cut

variable {off : ℕ} {pieces : List Bytes} (hfits : off + pieces.flatten.length ≤ 65515)
include hfits

theorem part_off_of_mem_cut {q : Piece} (h : q ∈ cut off pieces) :
    q.part.off.toNat = q.1 ∧ Sized q.part := by
  obtain ⟨-, hhi, -, -⟩ := mem_cut h
  exact ⟨Nat.mod_eq_of_lt (by omega), Nat.mod_eq_of_lt (by omega)⟩

theorem tiles_cut : Tiles off ((cut off pieces).map Piece.part) := by
  induction pieces generalizing off with
  | nil => exact trivial
  | cons b rest ih =>
    rw [List.flatten_cons, List.length_append] at hfits
    have hrest : Tiles (off + b.length) ((cut (off + b.length) rest).map Piece.part) :=
      ih (by omega)
    exact ⟨Nat.mod_eq_of_lt (by omega), hrest⟩

theorem pairwise_cut (hne : ∀ b ∈ pieces, b ≠ []) :
    ((cut off pieces).map Piece.part).Pairwise fun p q => p.off.toNat < q.off.toNat := by
  induction pieces generalizing off with
  | nil => exact List.Pairwise.nil
  | cons b rest ih =>
    rw [List.flatten_cons, List.length_append] at hfits
    have hb : 0 < b.length := List.length_pos_of_ne_nil (hne b (List.mem_cons_self ..))
    have hrest := @ih (off + b.length) (by omega) fun b' hb' => hne b' (List.mem_cons_of_mem _ hb')
    refine List.Pairwise.cons ?_ hrest
    intro q hq
    obtain ⟨q, hmem, rfl⟩ := List.mem_map.mp hq
    have hoff := (part_off_of_mem_cut (by omega) hmem).1
    obtain ⟨hlo, -, -, -⟩ := mem_cut hmem
    have hhead : (Piece.part (off, !rest.isEmpty, b)).off.toNat = off := Nat.mod_eq_of_lt (by omega)
    rw [hoff, hhead]
    omega

end Cut

instance : Std.Total FragPart.offLe := ⟨fun p q => Nat.le_total p.off.toNat q.off.toNat⟩

instance : IsTrans FragPart FragPart.offLe := ⟨fun _ _ _ h h' => Nat.le_trans h h'⟩

theorem sort_cut {pieces : List Bytes} (hfits : pieces.flatten.length ≤ 65515)
    (hne : ∀ b ∈ pieces, b ≠ []) {parts : List FragPart}
    (hperm : parts.Perm ((cut 0 pieces).map Piece.part)) :
    parts.insertionSort FragPart.offLe = (cut 0 pieces).map Piece.part := by
  have hcut := @pairwise_cut 0 _ (by omega) hne
  have hsort := (List.perm_insertionSort FragPart.offLe parts).trans hperm
  have hnodup : (((cut 0 pieces).map Piece.part).map fun p => p.off.toNat).Nodup :=
    List.pairwise_map.mpr (hcut.imp fun h => Nat.ne_of_lt h)
  refine List.Perm.eq_of_pairwise ?_ (List.pairwise_insertionSort FragPart.offLe parts)
    (hcut.imp Nat.le_of_lt) hsort
  intro a b ha hb hab hba
  exact List.inj_on_of_nodup_map hnodup (hsort.mem_iff.mp ha) hb (Nat.le_antisymm hab hba)

/-- A segment of the stream `k` and the pieces it is cut into. -/
structure CutSegment (k : FragKey) (pieces : List Bytes) : Prop where
  nonempty : ∀ b ∈ pieces, b ≠ []
  fits : pieces.flatten.length ≤ 65515
  header : k.proto = L4.udp.code ∧ 8 ≤ pieces.flatten.length ∨
    k.proto = L4.tcp.code ∧ 20 ≤ pieces.flatten.length

theorem CutSegment.ne_nil {k : FragKey} {pieces : List Bytes} (h : CutSegment k pieces) :
    pieces ≠ [] := by
  rintro rfl
  rcases h.header with ⟨-, hlen⟩ | ⟨-, hlen⟩ <;> simp at hlen

/-- The stream `k` once it holds the fragments `recv` of a segment. -/
structure Gathered (k : FragKey) (pieces : List Bytes) (e : FragEntry) (recv : List IpPacket) :
    Prop where
  parts : e.parts = recv.map partOf
  acc : e.accumulated = (recv.map fun p => p.l4.length).sum
  total : (∀ p ∈ recv, p.moreFrags = true) ∧ e.totalLen = -1 ∨
    (∃ p ∈ recv, p.moreFrags = false) ∧ e.totalLen = pieces.flatten.length
  proto : e.proto = k.proto
  src : e.src = k.src
  dst : e.dst = k.dst

theorem Gathered.fresh (pieces : List Bytes) (p : IpPacket) (now : UInt32) :
    Gathered (fragKeyOf p) pieces (.fresh p now) [] :=
  ⟨rfl, rfl, .inl ⟨fun _ h => by simp at h, rfl⟩, rfl, rfl, rfl⟩

theorem Gathered.add {k : FragKey} {pieces : List Bytes} {e : FragEntry} {recv : List IpPacket}
    (h : Gathered k pieces e recv) {p : IpPacket} (hp : ParseFacts p)
    (hpiece : pieceOf p ∈ cut 0 pieces) : Gathered k pieces (e.add p) (recv ++ [p]) where
  parts := by simp [FragEntry.add, h.parts]
  acc := by simp [FragEntry.add, h.acc, hp.partOf_eq.2.2]
  total := by
    by_cases hmore : p.moreFrags = true
    · rcases h.total with ⟨hall, hneg⟩ | ⟨⟨q, hq, hlast⟩, htotal⟩
      · refine .inl ⟨?_, by simpa [FragEntry.add, hmore] using hneg⟩
        intro q hq
        rcases List.mem_append.mp hq with hq | hq
        · exact hall q hq
        · rwa [List.mem_singleton.mp hq]
      · exact .inr ⟨⟨q, List.mem_append_left _ hq, hlast⟩,
          by simpa [FragEntry.add, hmore] using htotal⟩
    · have hlast : p.moreFrags = false := by simpa using hmore
      obtain ⟨-, -, -, hend⟩ := mem_cut hpiece
      have hend' : p.fragOffsetBytes.toNat + p.l4.length = 0 + pieces.flatten.length := hend hlast
      refine .inr ⟨⟨p, by simp, hlast⟩, ?_⟩
      rw [hp.l4_length] at hend'
      simp only [FragEntry.add, hlast, Bool.not_false, if_true]
      omega
  proto := h.proto
  src := h.src
  dst := h.dst

/-- The parts of a whole segment, in any order, are assembled to it. -/
theorem FragEntry.assemble_cut {k : FragKey} {pieces : List Bytes} (hseg : CutSegment k pieces)
    {e : FragEntry} (hparts : e.parts.Perm ((cut 0 pieces).map Piece.part))
    (htotal : e.totalLen = pieces.flatten.length) : e.assemble = some pieces.flatten := by
  have hfits := hseg.fits
  have hsized : ∀ p ∈ (cut 0 pieces).map Piece.part, Sized p := by
    intro p hp
    obtain ⟨q, hq, rfl⟩ := List.mem_map.mp hp
    exact (part_off_of_mem_cut (by omega) hq).2
  have htile : Tiles 0 ((cut 0 pieces).map Piece.part) := tiles_cut (by omega)
  have hroom : (List.replicate e.totalLen.toNat (0 : UInt8)).length = pieces.flatten.length := by
    rw [List.length_replicate]
    omega
  have hsome := copyParts_tiles hsized htile (by rw [partBytes_cut, hroom]; omega)
  obtain ⟨⟨out, fin⟩, hcopy⟩ := Option.isSome_iff_exists.mp hsome
  obtain ⟨-, hfin, -, hout⟩ := copyParts_spec hsized hcopy (Nat.zero_le _)
  rw [partBytes_cut, Nat.zero_add] at hfin
  rw [partBytes_cut, hfin, ← hroom, List.drop_length, List.take_zero, List.nil_append,
    List.append_nil] at hout
  unfold FragEntry.assemble
  simp only [sort_cut hfits hseg.nonempty hparts, hcopy]
  rw [if_pos (by simp [hfin, htotal]), hout]

theorem Gathered.total_of_all {k : FragKey} {pieces : List Bytes} (hseg : CutSegment k pieces)
    {e : FragEntry} {recv : List IpPacket} (h : Gathered k pieces e recv)
    (hperm : (recv.map pieceOf).Perm (cut 0 pieces)) : e.totalLen = pieces.flatten.length := by
  rcases h.total with ⟨hall, -⟩ | ⟨-, htotal⟩
  · obtain ⟨q, hq, hlast⟩ := @exists_last_cut 0 _ hseg.ne_nil
    obtain ⟨p, hp, rfl⟩ := List.mem_map.mp (hperm.mem_iff.mpr hq)
    have hmore := hall p hp
    rw [show p.moreFrags = false from hlast] at hmore
    cases hmore
  · exact htotal

theorem Gathered.finish {k : FragKey} {pieces : List Bytes} (hseg : CutSegment k pieces)
    {e : FragEntry} {recv : List IpPacket} (h : Gathered k pieces e recv)
    (hparsed : ∀ p ∈ recv, ParseFacts p) (hperm : (recv.map pieceOf).Perm (cut 0 pieces)) :
    ∃ r, e.finish = .rebuilt r ∧ Rebuilt e pieces.flatten r := by
  have hparts : e.parts.Perm ((cut 0 pieces).map Piece.part) := by
    have hmap : recv.map partOf = (recv.map pieceOf).map Piece.part := by
      rw [List.map_map]
      exact List.map_congr_left fun p hp => (hparsed p hp).part_pieceOf
    rw [h.parts, hmap]
    exact hperm.map _
  have htotal := h.total_of_all hseg hperm
  obtain ⟨r, hr, hreb⟩ := FragEntry.rebuild_fits htotal.symm hseg.fits
  refine ⟨r, ?_, hreb⟩
  unfold FragEntry.finish
  simp only [FragEntry.assemble_cut hseg hparts htotal, hr]

/-- What the table holds of a segment whose fragments `recv` arrived. -/
def Waiting (k : FragKey) (pieces : List Bytes) (t : FragTable) (recv : List IpPacket) : Prop :=
  match t.get k with
  | none => recv = []
  | some e => Gathered k pieces e recv

theorem Waiting.added {pieces : List Bytes} {t : FragTable} {recv : List IpPacket} {p : IpPacket}
    (h : Waiting (fragKeyOf p) pieces t recv) (hp : ParseFacts p)
    (hpiece : pieceOf p ∈ cut 0 pieces) (now : UInt32) :
    Gathered (fragKeyOf p) pieces (t.added p now) (recv ++ [p]) := by
  unfold Waiting at h
  unfold FragTable.added
  cases hget : t.get (fragKeyOf p) with
  | none =>
    rw [hget] at h
    obtain rfl : recv = [] := h
    exact (Gathered.fresh pieces p now).add hp hpiece
  | some e =>
    rw [hget] at h
    exact Gathered.add h hp hpiece

theorem sum_lengths {pieces : List Bytes} {recv rest : List IpPacket}
    (h : ((recv ++ rest).map pieceOf).Perm (cut 0 pieces)) :
    (recv.map fun p => p.l4.length).sum + (rest.map fun p => p.l4.length).sum =
      pieces.flatten.length := by
  rw [← cut_lengths 0 pieces, ← (h.map fun q => q.2.2.length).sum_nat, List.map_map, List.map_append,
    List.sum_append_nat]
  rfl

theorem sum_rest_pos {k : FragKey} {pieces : List Bytes} (hseg : CutSegment k pieces)
    {recv rest : List IpPacket} (h : ((recv ++ rest).map pieceOf).Perm (cut 0 pieces))
    (hrest : rest ≠ []) : 0 < (rest.map fun p => p.l4.length).sum := by
  obtain ⟨q, rest, rfl⟩ := List.exists_cons_of_ne_nil hrest
  have hpiece : pieceOf q ∈ cut 0 pieces := h.mem_iff.mp (List.mem_map_of_mem (by simp))
  obtain ⟨-, -, hmem, -⟩ := mem_cut hpiece
  have hlen : 0 < q.l4.length := List.length_pos_of_ne_nil (hseg.nonempty _ hmem)
  rw [List.map_cons, List.sum_cons]
  omega

/-- A packet that carries the segment `seg` of the stream `k`. -/
structure Carries (k : FragKey) (seg : Bytes) (r : IpPacket) : Prop where
  l4 : r.l4 = seg
  src : r.src = k.src
  dst : r.dst = k.dst
  proto : r.proto = k.proto

/-- The next fragment of the segment is kept while others are missing, and the last one completes
it. -/
theorem Waiting.own {pieces : List Bytes} {t : FragTable} {recv rest : List IpPacket} {p : IpPacket}
    (hseg : CutSegment (fragKeyOf p) pieces) (h : Waiting (fragKeyOf p) pieces t recv)
    (hparsed : ∀ q ∈ recv ++ [p], ParseFacts q)
    (hperm : ((recv ++ [p] ++ rest).map pieceOf).Perm (cut 0 pieces)) (now : UInt32) {tie : ℕ}
    (hspare : t.victim (fragKeyOf p) tie ≠ some (fragKeyOf p)) :
    (rest ≠ [] → Waiting (fragKeyOf p) pieces (handleFragment t p now tie).1 (recv ++ [p]) ∧
        (handleFragment t p now tie).2 = .held) ∧
      (rest = [] → (handleFragment t p now tie).1.get (fragKeyOf p) = none ∧
        ∃ r, (handleFragment t p now tie).2 = .rebuilt r ∧
          Carries (fragKeyOf p) pieces.flatten r ∧ r.l4Len = pieces.flatten.length) := by
  have hfits := hseg.fits
  have hp := hparsed p (by simp)
  have hpiece : pieceOf p ∈ cut 0 pieces := hperm.mem_iff.mp (List.mem_map_of_mem (by simp))
  have hw : Waiting (fragKeyOf p) pieces (t.makeRoom (fragKeyOf p) tie) recv := by
    unfold Waiting at h ⊢
    rwa [FragTable.get_makeRoom hspare]
  have hg := hw.added hp hpiece now
  have hsum := sum_lengths hperm
  have hacc := hg.acc
  have hoff : (partOf p).off.toNat + (partOf p).len.toNat ≤ 65515 := by
    obtain ⟨heq, -, hlen⟩ := hp.partOf_eq
    obtain ⟨-, hhi, -, -⟩ := mem_cut hpiece
    have hhi' : p.fragOffsetBytes.toNat + p.l4.length ≤ 0 + pieces.flatten.length := hhi
    rw [hlen, heq]
    show p.fragOffsetBytes.toNat + _ ≤ _
    omega
  have hcases := handleFragment_cases t hp now tie
  generalize handleFragment t p now tie = res at hcases ⊢
  generalize (t.makeRoom (fragKeyOf p) tie).added p now = e at hcases hg hacc
  cases hcases with
  | dropped hbig => omega
  | waiting _ _ hmore =>
    constructor
    · intro _
      refine ⟨?_, rfl⟩
      unfold Waiting
      simp only [FragTable.get_insert_self]
      exact hg
    · rintro rfl
      -- All fragments are there, so the length is known and reached.
      rw [List.append_nil] at hperm
      have htotal := hg.total_of_all hseg hperm
      rw [List.map_nil, List.sum_nil] at hsum
      omega
  | finished _ _ hpos hall =>
    constructor
    · intro hrest
      have hlen := sum_rest_pos hseg hperm hrest
      rcases hg.total with ⟨-, hneg⟩ | ⟨-, htotal⟩ <;> omega
    · rintro rfl
      rw [List.append_nil] at hperm
      obtain ⟨r, hr, hreb⟩ := hg.finish hseg hparsed hperm
      refine ⟨FragTable.get_remove_self, r, hr, ?_, hreb.l4Len⟩
      constructor
      case l4 => exact hreb.l4
      case src => rw [hreb.src, hg.src]; exact toIpv4_toIpAddr hp.srcAddr
      case dst => rw [hreb.dst, hg.dst]; exact toIpv4_toIpAddr hp.dstAddr
      case proto => rw [hreb.proto, hg.proto]

/-! ## A stream that is left alone -/

/-- The event does not evict or expire the stream `k`. -/
def Spares (k : FragKey) (t : FragTable) : FragEvent → Prop
  | .recv data _ tie => ∀ p, fragmentOf data = some p → t.victim (fragKeyOf p) tie ≠ some k
  | .sweep now => ∀ e, t.get k = some e → FragTable.expired now e = false

/-- No event of the run does. -/
def SparedBy (k : FragKey) : FragTable → List FragEvent → Prop
  | _, [] => True
  | t, ev :: evs => Spares k t ev ∧ SparedBy k (fragStep t ev).1 evs

/-- What is handed on for the stream `k` in a run. -/
def handedFor (k : FragKey) (t : FragTable) (evs : List FragEvent) : List Handed :=
  (handedOn t evs).filter fun h => h.key = k

theorem handedFor_cons (k : FragKey) (t : FragTable) (ev : FragEvent) (evs : List FragEvent) :
    handedFor k t (ev :: evs) =
      ((fragStep t ev).2.filter fun h => h.key = k) ++ handedFor k (fragStep t ev).1 evs := by
  simp [handedFor, handedOn]

theorem fragmentsOf_cons (k : FragKey) (ev : FragEvent) (evs : List FragEvent) :
    fragmentsOf k (ev :: evs) =
      (ev.fragment.toList.filter fun p => fragKeyOf p = k) ++ fragmentsOf k evs := by
  unfold fragmentsOf
  rw [fragments_cons, List.filter_append]

theorem fragStep_other {k : FragKey} {t : FragTable} {ev : FragEvent} (hspare : Spares k t ev)
    (hother : ∀ p, ev.fragment = some p → fragKeyOf p ≠ k) :
    (fragStep t ev).1.get k = t.get k ∧ ((fragStep t ev).2.filter fun h => h.key = k) = [] := by
  rcases fragStep_cases t ev with ⟨-, hnone, htable⟩ | ⟨data, now, tie, p, rfl, hp, hstep⟩
  · rw [hnone]
    refine ⟨?_, rfl⟩
    rcases htable with htable | ⟨now, rfl, htable⟩
    · rw [htable]
    · rw [htable]
      unfold FragTable.sweep
      cases hget : t.get k with
      | none => exact FragTable.get_filter_none hget
      | some e => exact FragTable.get_filter hget (by simp [hspare e hget])
  · have hne := hother p hp
    have hroom : (t.makeRoom (fragKeyOf p) tie).get k = t.get k :=
      FragTable.get_makeRoom (hspare p hp)
    have hcases := handleFragment_cases t (FragEvent.fragment_parsed hp) now tie
    rw [hstep]
    generalize handleFragment t p now tie = res at hcases
    constructor
    · cases hcases with
      | dropped _ => exact (FragTable.get_remove_ne hne.symm).trans hroom
      | waiting _ _ _ => exact (FragTable.get_insert_ne hne.symm _).trans hroom
      | finished _ _ _ _ => exact (FragTable.get_remove_ne hne.symm).trans hroom
    · rw [List.filter_eq_nil_iff]
      intro h hmem
      obtain ⟨-, hkey, -⟩ := FragResult.mem_handed hmem
      simp [hkey, hne]

theorem handedFor_quiet {k : FragKey} {t : FragTable} {evs : List FragEvent}
    (hspare : SparedBy k t evs) (hnone : fragmentsOf k evs = []) : handedFor k t evs = [] := by
  induction evs generalizing t with
  | nil => rfl
  | cons ev evs ih =>
    rw [fragmentsOf_cons, List.append_eq_nil_iff] at hnone
    obtain ⟨-, hout⟩ := fragStep_other hspare.1 fun p hp hkey => by
      simp [hp, hkey] at hnone
    rw [handedFor_cons, hout, ih hspare.2 hnone.2]
    rfl

theorem routeL4_carries {k : FragKey} {pieces : List Bytes} (hseg : CutSegment k pieces)
    {r : IpPacket} (hr : Carries k pieces.flatten r) (hlen : r.l4Len = pieces.flatten.length) :
    ∃ c, routeL4 r = .call c := by
  unfold routeL4
  rw [hr.proto, hlen]
  rcases hseg.header with ⟨hproto, hmin⟩ | ⟨hproto, hmin⟩
  · rw [hproto, if_pos (by decide), if_neg (by omega)]
    exact ⟨_, rfl⟩
  · rw [hproto, if_neg (by decide), if_pos (by decide), if_neg (by omega)]
    exact ⟨_, rfl⟩

/-- From any point of the run on, the fragments still to come complete the segment, once. -/
theorem Waiting.run {k : FragKey} {pieces : List Bytes} (hseg : CutSegment k pieces)
    {evs : List FragEvent} {t : FragTable} {recv : List IpPacket}
    (hw : Waiting k pieces t recv) (hparsed : ∀ q ∈ recv, ParseFacts q)
    (hspare : SparedBy k t evs) (hrest : fragmentsOf k evs ≠ [])
    (hperm : ((recv ++ fragmentsOf k evs).map pieceOf).Perm (cut 0 pieces)) :
    ∃ h : Handed, handedFor k t evs = [h] ∧ Carries k pieces.flatten h.packet ∧
      routeL4 h.packet = .call h.call := by
  induction evs generalizing t recv with
  | nil => exact absurd rfl hrest
  | cons ev evs ih =>
    obtain ⟨hev, hspare⟩ := hspare
    rw [handedFor_cons]
    by_cases hother : ∀ p, ev.fragment = some p → fragKeyOf p ≠ k
    · obtain ⟨hget, hout⟩ := fragStep_other hev hother
      have hfrags : fragmentsOf k (ev :: evs) = fragmentsOf k evs := by
        rw [fragmentsOf_cons]
        cases hp : ev.fragment with
        | none => rfl
        | some p => simp [hother p hp]
      rw [hfrags] at hrest hperm
      rw [hout, List.nil_append]
      refine ih ?_ hparsed hspare hrest hperm
      unfold Waiting at hw ⊢
      rwa [hget]
    · push Not at hother
      obtain ⟨p, hp, rfl⟩ := hother
      have hfrags : fragmentsOf (fragKeyOf p) (ev :: evs) = p :: fragmentsOf (fragKeyOf p) evs := by
        rw [fragmentsOf_cons, hp]
        simp
      have hparsed' : ∀ q ∈ recv ++ [p], ParseFacts q := by
        intro q hq
        rcases List.mem_append.mp hq with hq | hq
        · exact hparsed q hq
        · rw [List.mem_singleton.mp hq]
          exact FragEvent.fragment_parsed hp
      rw [hfrags, List.append_cons] at hperm
      rcases fragStep_cases t ev with ⟨hnone, -⟩ | ⟨data, now, tie, p', rfl, hp', hstep⟩
      · rw [hnone] at hp
        cases hp
      · obtain rfl : p' = p := Option.some.inj (hp'.symm.trans hp)
        obtain ⟨hmore, hdone⟩ := hw.own hseg hparsed' hperm now (hev p' hp')
        rw [hstep] at hspare ⊢
        by_cases hend : fragmentsOf (fragKeyOf p') evs = []
        · obtain ⟨-, r, hr, hcarries, hlen⟩ := hdone hend
          obtain ⟨c, hc⟩ := routeL4_carries hseg hcarries hlen
          refine ⟨⟨fragKeyOf p', r, c⟩, ?_, hcarries, hc⟩
          rw [handedFor_quiet hspare hend, List.append_nil, hr]
          simp [FragResult.handed, hc]
        · obtain ⟨hw', hheld⟩ := hmore hend
          rw [hheld]
          exact ih hw' hparsed' hspare hend hperm

theorem handedOn_sound {evs : List FragEvent} {h : Handed} (hmem : h ∈ handedOn [] evs) :
    ∃ tiles, tiles.Subperm (fragmentsOf h.key evs) ∧ TiledBy h tiles := by
  have hempty : TableTraced [] [] := fun _ hx => by simp at hx
  obtain ⟨tiles, hsub, htiled⟩ := handedOn_tiled hempty hmem
  refine ⟨tiles, ?_, htiled⟩
  have hfilter : tiles.filter (fun p => fragKeyOf p = h.key) = tiles :=
    List.filter_eq_self.mpr fun p hp => by simpa using htiled.key p hp
  rw [← hfilter]
  exact hsub.filter _

/-- A stream that is left alone hands its segment on, once. -/
theorem CutSegment.handed_once {k : FragKey} {pieces : List Bytes} (hseg : CutSegment k pieces)
    {t : FragTable} {evs : List FragEvent} (hget : t.get k = none) (hspare : SparedBy k t evs)
    (hperm : ((fragmentsOf k evs).map pieceOf).Perm (cut 0 pieces)) :
    ∃ h : Handed, handedFor k t evs = [h] ∧ Carries k pieces.flatten h.packet ∧
      routeL4 h.packet = .call h.call := by
  have hw : Waiting k pieces t [] := by
    unfold Waiting
    rw [hget]
  refine hw.run hseg (fun _ h => by simp at h) hspare ?_ hperm
  intro hnone
  obtain ⟨q, hq, -⟩ := @exists_last_cut 0 _ hseg.ne_nil
  rw [hnone] at hperm
  simpa using hperm.mem_iff.mpr hq

/-- Reassembly gives back what was cut. In any run from an empty table, a payload that is handed on
is tiled by fragments of its stream, each received and used once. And in a run over any table
without the stream `k`, in which the fragments of `k` are the pieces of one segment in any order and
no event evicts or expires `k`, that segment is handed on, once. -/
theorem reassembly_sound_and_complete :
    (∀ (evs : List FragEvent) (h : Handed), h ∈ handedOn [] evs →
      ∃ tiles, tiles.Subperm (fragmentsOf h.key evs) ∧ TiledBy h tiles) ∧
    ∀ (k : FragKey) (pieces : List Bytes) (t : FragTable) (evs : List FragEvent),
      CutSegment k pieces → t.get k = none → SparedBy k t evs →
      ((fragmentsOf k evs).map pieceOf).Perm (cut 0 pieces) →
      ∃ h : Handed, handedFor k t evs = [h] ∧ Carries k pieces.flatten h.packet ∧
        routeL4 h.packet = .call h.call :=
  ⟨fun _ _ hmem => handedOn_sound hmem,
    fun _ _ _ _ hseg hget hspare hperm => hseg.handed_once hget hspare hperm⟩

theorem FragTable.victim_of_room {t : FragTable} {k k' : FragKey} {tie : ℕ}
    (h : t.length < MAX_FRAG_STREAMS) : t.victim k' tie ≠ some k := by
  unfold victim
  rw [if_neg (by simp [h])]
  simp

/-- A fragment from 10.0.0.2 to 8.8.8.8 with the given IP id. -/
def sampleFragment (ipId units : UInt16) (more : Bool) (data : Bytes) : Bytes :=
  writeIpv4HeaderFrag (20 + data.length).toUInt16 17 (.v4FromBytes 10 0 0 2) (.v4FromBytes 8 8 8 8)
    ipId units more ++ data

/-- A UDP datagram in two fragments, the second one first, with another stream and a sweep between. -/
def sampleRun : List FragEvent :=
  [.recv (sampleFragment 7 1 false [1, 2, 3, 4]) 100 0,
    .recv (sampleFragment 8 0 true [0, 0, 0, 0, 0, 0, 0, 0]) 101 0,
    .sweep 102,
    .recv (sampleFragment 7 0 true [20, 233, 0, 53, 0, 12, 0, 0]) 103 0]

theorem reassembly_two_fragments :
    ∃ h : Handed, handedFor ⟨.v4FromBytes 10 0 0 2, .v4FromBytes 8 8 8 8, 17, 7⟩ [] sampleRun = [h] ∧
      h.packet.l4 = [20, 233, 0, 53, 0, 12, 0, 0, 1, 2, 3, 4] := by
  have hseg : CutSegment ⟨.v4FromBytes 10 0 0 2, .v4FromBytes 8 8 8 8, 17, 7⟩
      [[20, 233, 0, 53, 0, 12, 0, 0], [1, 2, 3, 4]] := ⟨by decide, by decide, .inl (by decide)⟩
  have hspare : SparedBy ⟨.v4FromBytes 10 0 0 2, .v4FromBytes 8 8 8 8, 17, 7⟩ [] sampleRun := by
    refine ⟨?_, ?_, ?_, ?_, trivial⟩
    · exact fun _ _ => FragTable.victim_of_room (by decide +kernel)
    · exact fun _ _ => FragTable.victim_of_room (by decide +kernel)
    · intro e he
      have hyoung := (Option.all_eq_true (fun e => !FragTable.expired 102 e) _).mp
        (by decide +kernel) e he
      simpa using hyoung
    · exact fun _ _ => FragTable.victim_of_room (by decide +kernel)
  obtain ⟨h, hout, hcarries, -⟩ :=
    reassembly_sound_and_complete.2 _ _ [] sampleRun hseg rfl hspare (by decide +kernel)
  exact ⟨h, hout, hcarries.l4⟩

end BaleVpn.Dispatch
