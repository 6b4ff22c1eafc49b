import BaleVpn.Dispatch.FragStreams
import BaleVpn.Dispatch.Nat

/-!
# UDP replies (`nat/udp_session.rs`)

`UdpSession::build_and_emit`, which wraps what the target sent into one IPv4 packet, or into fragments
where that is longer than the tunnel takes. The fragmenter and the reassembler share no code. They meet
at `cut`: the loop emits the pieces of a cut of the datagram, and the table gives back what was cut.
-/

namespace BaleVpn.Dispatch

open Net

def MAX_IP_PKT : ℕ := 1000
def MAX_FRAG_DATA : ℕ := (MAX_IP_PKT - 20) / 8 * 8

/-- The `UdpBuild` of a reply: the session's key turned around. -/
def UdpSession.reply (s : UdpSession) (payload : Bytes) : UdpBuild :=
  ⟨s.key.dst, s.key.src, s.key.dstPort, s.key.srcPort, payload⟩

/-- `while off < udp_total`. -/
def fragLoop (src dst : IpAddr) (ipId : UInt16) (udp : Bytes) (off : ℕ) : List Bytes :=
  if off < udp.length then
    let remaining := udp.length - off
    let last : Bool := remaining ≤ MAX_FRAG_DATA
    let fragData := if last then remaining else MAX_FRAG_DATA
    (writeIpv4HeaderFrag (20 + fragData).toUInt16 L4.udp.code src dst ipId (off / 8).toUInt16
        (!last) ++ (udp.drop off).take fragData) :: fragLoop src dst ipId udp (off + fragData)
  else []
termination_by udp.length - off
decreasing_by
  have hmax : MAX_FRAG_DATA = 976 := rfl
  split <;> omega

/-- The packets emitted, in order, and the global `IP_ID` after them. -/
def UdpSession.buildAndEmit (s : UdpSession) (payload : Bytes) (ipId : UInt16) :
    List Bytes × UInt16 :=
  let b := s.reply payload
  if 28 + payload.length ≤ MAX_IP_PKT then ((buildUdp (MAX_IP_PKT + 8) b).toList, ipId)
  else if 28 + payload.length > 0xFFFF then ([], ipId)
  else if !s.key.dst.isV4 || !s.key.src.isV4 then ([], ipId)
  else
    let cs := sentChecksum (l4Checksum s.key.dst s.key.src L4.udp.code (udpBytes b 0))
    (fragLoop s.key.dst s.key.src ipId (udpBytes b cs) 0, ipId + 1)

/-! ## The loop and the cut -/

/-- Pieces of at most `n` bytes, all but the last of exactly `n`. -/
structure Chunked (n : ℕ) (l : Bytes) (pieces : List Bytes) : Prop where
  flatten : pieces.flatten = l
  nonempty : ∀ b ∈ pieces, b ≠ []
  short : ∀ b ∈ pieces, b.length ≤ n
  full : ∀ b ∈ pieces.dropLast, b.length = n

theorem Chunked.nil (n : ℕ) : Chunked n [] [] :=
  ⟨rfl, fun _ h => by simp at h, fun _ h => by simp at h, fun _ h => by simp at h⟩

theorem Chunked.single {n : ℕ} {l : Bytes} (hne : l ≠ []) (hlen : l.length ≤ n) :
    Chunked n l [l] := by
  refine ⟨by simp, ?_, ?_, fun _ h => by simp at h⟩
  all_goals
    intro b hb
    obtain rfl := List.mem_singleton.mp hb
    assumption

theorem Chunked.cons {n : ℕ} {l : Bytes} {pieces : List Bytes} (hn : 0 < n) (hlen : n < l.length)
    (h : Chunked n (l.drop n) pieces) : Chunked n l (l.take n :: pieces) ∧ pieces ≠ [] := by
  have htake : (l.take n).length = n := by
    rw [List.length_take]
    omega
  have hne : pieces ≠ [] := by
    rintro rfl
    have hrest := congrArg List.length h.flatten
    rw [List.flatten_nil, List.length_nil, List.length_drop] at hrest
    omega
  refine ⟨⟨?_, ?_, ?_, ?_⟩, hne⟩
  · rw [List.flatten_cons, h.flatten, List.take_append_drop]
  · intro b hb
    rcases List.mem_cons.mp hb with rfl | hb
    · exact List.ne_nil_of_length_pos (by omega)
    · exact h.nonempty b hb
  · intro b hb
    rcases List.mem_cons.mp hb with rfl | hb
    · omega
    · exact h.short b hb
  · intro b hb
    rw [List.dropLast_cons_of_ne_nil hne] at hb
    rcases List.mem_cons.mp hb with rfl | hb
    · exact htake
    · exact h.full b hb

/-- The packet of one piece. -/
def fragPacket (src dst : IpAddr) (ipId : UInt16) (q : Piece) : Bytes :=
  writeIpv4HeaderFrag (20 + q.2.2.length).toUInt16 L4.udp.code src dst ipId (q.1 / 8).toUInt16 q.2.1 ++
    q.2.2

section Loop

variable (src dst : IpAddr) (ipId : UInt16) (udp : Bytes) {off : ℕ}

theorem fragLoop_end (h : udp.length ≤ off) : fragLoop src dst ipId udp off = [] := by
  unfold fragLoop
  rw [if_neg (by omega)]

theorem fragLoop_last (hlt : off < udp.length) (hlast : udp.length - off ≤ MAX_FRAG_DATA) :
    fragLoop src dst ipId udp off = [fragPacket src dst ipId (off, false, udp.drop off)] := by
  have hend := @fragLoop_end src dst ipId udp (off + (udp.length - off)) (by omega)
  have hdrop : (udp.drop off).length = udp.length - off := List.length_drop
  unfold fragLoop
  rw [if_pos hlt]
  simp only [hlast, decide_true, if_true, hend, fragPacket, hdrop, Bool.not_true]
  rw [List.take_of_length_le (by omega)]

theorem fragLoop_more (hmore : MAX_FRAG_DATA < udp.length - off) :
    fragLoop src dst ipId udp off =
      fragPacket src dst ipId (off, true, (udp.drop off).take MAX_FRAG_DATA) ::
        fragLoop src dst ipId udp (off + MAX_FRAG_DATA) := by
  have htake : ((udp.drop off).take MAX_FRAG_DATA).length = MAX_FRAG_DATA := by
    rw [List.length_take, List.length_drop]
    omega
  have hlast : ¬ udp.length - off ≤ MAX_FRAG_DATA := by omega
  rw [fragLoop, if_pos (by omega)]
  simp only [hlast, decide_false, if_false, fragPacket, htake, Bool.false_eq_true, Bool.not_false]

theorem fragLoop_cut (hoff : off ≤ udp.length) :
    ∃ pieces, Chunked MAX_FRAG_DATA (udp.drop off) pieces ∧
      fragLoop src dst ipId udp off = (cut off pieces).map (fragPacket src dst ipId) := by
  have hmax : MAX_FRAG_DATA = 976 := rfl
  have hdrop : (udp.drop off).length = udp.length - off := List.length_drop
  induction hleft : udp.length - off using Nat.strong_induction_on generalizing off with
  | _ left ih =>
    rcases Nat.lt_or_ge MAX_FRAG_DATA (udp.length - off) with hmore | hlast
    · obtain ⟨pieces, hpieces, hloop⟩ := ih (udp.length - (off + MAX_FRAG_DATA)) (by omega)
        (by omega) List.length_drop rfl
      rw [← List.drop_drop] at hpieces
      obtain ⟨hall, hne⟩ := Chunked.cons (by omega) (by omega) hpieces
      have htake : ((udp.drop off).take MAX_FRAG_DATA).length = MAX_FRAG_DATA := by
        rw [List.length_take]
        omega
      refine ⟨_, hall, ?_⟩
      rw [fragLoop_more src dst ipId udp hmore, hloop, cut, htake, List.isEmpty_eq_false_iff.mpr hne]
      rfl
    · by_cases hlt : off < udp.length
      · rw [fragLoop_last src dst ipId udp hlt hlast]
        exact ⟨_, .single (List.ne_nil_of_length_pos (by omega)) (by omega), rfl⟩
      · rw [fragLoop_end src dst ipId udp (by omega), List.drop_of_length_le (by omega)]
        exact ⟨_, .nil _, rfl⟩

end Loop

theorem aligned_cut {n off : ℕ} {l : Bytes} {pieces : List Bytes} (hn : 8 ∣ n)
    (h : Chunked n l pieces) (hoff : 8 ∣ off) {q : Piece} (hq : q ∈ cut off pieces) : 8 ∣ q.1 := by
  have hfull := h.full
  clear h
  induction pieces generalizing off with
  | nil => simp [cut] at hq
  | cons b rest ih =>
    rcases List.mem_cons.mp hq with rfl | hq
    · exact hoff
    · have hne : rest ≠ [] := by
        rintro rfl
        simp [cut] at hq
      rw [List.dropLast_cons_of_ne_nil hne] at hfull
      have hb := hfull b (List.mem_cons_self ..)
      exact ih (by omega) hq fun c hc => hfull c (List.mem_cons_of_mem _ hc)

theorem map_data_cut (off : ℕ) (pieces : List Bytes) :
    (cut off pieces).map (fun q => q.2.2) = pieces := by
  induction pieces generalizing off with
  | nil => rfl
  | cons b rest ih => rw [cut, List.map_cons, ih]

/-! ## The fragments, received -/

/-- The flag and the offset share a word, and the parser's masks tell them apart. -/
theorem fragFlags {units : UInt16} (h : units.toNat ≤ 0x1FFF) (more : Bool) :
    (if more then units &&& 0x1FFF ||| 0x2000 else units &&& 0x1FFF) &&& 0x1FFF = units ∧
      ((if more then units &&& 0x1FFF ||| 0x2000 else units &&& 0x1FFF) &&& 0x2000 != 0) = more := by
  have hmask : units &&& 0x1FFF = units := by
    apply UInt16.toNat_inj.mp
    rw [UInt16.toNat_and]
    exact (Nat.and_two_pow_sub_one_eq_mod units.toNat 13).trans (Nat.mod_eq_of_lt (by omega))
  have hflag : units &&& 0x2000 = 0 := by
    rw [← hmask, UInt16.and_assoc, show (0x1FFF : UInt16) &&& 0x2000 = 0 by decide, UInt16.and_zero]
  have hor : ∀ m : UInt16, (units ||| 0x2000) &&& m = units &&& m ||| 0x2000 &&& m := by
    intro m
    apply UInt16.toNat_inj.mp
    simp only [UInt16.toNat_and, UInt16.toNat_or, Nat.and_or_distrib_right]
  rw [hmask]
  cases more
  · simp [hmask, hflag]
  · rw [if_pos rfl]
    constructor
    · rw [hor, hmask, show (0x2000 : UInt16) &&& 0x1FFF = 0 by decide, UInt16.or_zero]
    · rw [hor, hflag]
      decide

/-- The stream of a reply's fragments. -/
def replyStream (src dst : IpAddr) (ipId : UInt16) : FragKey :=
  ⟨src.toIpv4.toIpAddr, dst.toIpv4.toIpAddr, L4.udp.code, ipId⟩

/-- The data `d` is received as a fragment of the stream `k` with the piece `q`. -/
def ReadAs (k : FragKey) (q : Piece) (d : Bytes) : Prop :=
  ∃ p, fragmentOf d = some p ∧ pieceOf p = q ∧ fragKeyOf p = k

theorem fragPacket_read (src dst : IpAddr) (ipId : UInt16) {q : Piece} (h8 : 8 ∣ q.1)
    (hfits : q.1 + q.2.2.length ≤ 65515) (hfrag : q.2.1 = true ∨ 0 < q.1) :
    ReadAs (replyStream src dst ipId) q (fragPacket src dst ipId q) := by
  obtain ⟨off, more, data⟩ := q
  simp only at h8 hfits hfrag
  have hread := writeIpv4HeaderFrag_reads (20 + data.length).toUInt16 L4.udp.code src dst ipId
    (off / 8).toUInt16 more
  have hunits : (off / 8).toUInt16.toNat = off / 8 := Nat.mod_eq_of_lt (by omega)
  have hfield : (20 + data.length).toUInt16.toNat = 20 + data.length := Nat.mod_eq_of_lt (by omega)
  obtain ⟨hoff, hmore⟩ := fragFlags (show (off / 8).toUInt16.toNat ≤ 0x1FFF by omega) more
  obtain ⟨p, hparse, has⟩ := hread.parse hfield
  have hp := has.units.trans hoff
  refine ⟨p, Option.filter_eq_some_iff.mpr ⟨hparse, ?_⟩, ?_, ?_⟩
  · unfold IpPacket.isFragment
    rw [hp, has.more, hmore]
    rcases hfrag with rfl | hpos
    · rfl
    · have hne : (off / 8).toUInt16 ≠ 0 := fun hzero => by
        rw [hzero, show (0 : UInt16).toNat = 0 from rfl] at hunits
        omega
      simp [hne]
  · have hbytes : ((off / 8).toUInt16 * 8).toNat = off := by
      rw [UInt16.toNat_mul, hunits, show (8 : UInt16).toNat = 8 from rfl]
      omega
    unfold pieceOf IpPacket.fragOffsetBytes
    rw [hp, has.more, hmore, has.l4, hbytes]
  · unfold fragKeyOf replyStream
    rw [has.proto, has.ipId, has.src, has.dst]

/-- A packet given to the dispatcher, with the clock and the choice it would make between streams. -/
structure Arrival where
  data : Bytes
  now : UInt32
  tie : ℕ

def Arrival.event (a : Arrival) : FragEvent := .recv a.data a.now a.tie

section Feed

variable {k : FragKey} {feed : List Arrival}

theorem fragments_feed (feed : List Arrival) :
    (feed.map Arrival.event).filterMap FragEvent.fragment =
      (feed.map Arrival.data).filterMap fragmentOf := by
  rw [List.filterMap_map, List.filterMap_map]
  rfl

theorem pieces_read {qs : List Piece} {send : Piece → Bytes}
    (hread : ∀ q ∈ qs, ReadAs k q (send q)) :
    (((qs.map send).filterMap fragmentOf).filter fun p => fragKeyOf p = k).map pieceOf = qs := by
  induction qs with
  | nil => rfl
  | cons q qs ih =>
    obtain ⟨p, hp, hpiece, hkey⟩ := hread q (List.mem_cons_self ..)
    rw [List.map_cons, List.filterMap_cons_some hp, List.filter_cons_of_pos (by simpa using hkey),
      List.map_cons, hpiece, ih fun q' hq' => hread q' (List.mem_cons_of_mem _ hq')]

theorem fragmentsOf_feed {qs : List Piece} {send : Piece → Bytes}
    (hread : ∀ q ∈ qs, ReadAs k q (send q)) (hperm : (feed.map Arrival.data).Perm (qs.map send)) :
    ((fragmentsOf k (feed.map Arrival.event)).map pieceOf).Perm qs := by
  have hall := ((hperm.filterMap fragmentOf).filter fun p => fragKeyOf p = k).map pieceOf
  rw [pieces_read hread] at hall
  unfold fragmentsOf
  rwa [fragments_feed]

/-- The feed is fragments of the stream `k` only. -/
def FedBy (k : FragKey) (feed : List Arrival) : Prop :=
  ∀ a ∈ feed, ∀ p, fragmentOf a.data = some p → fragKeyOf p = k

theorem FedBy.of_perm {qs : List Piece} {send : Piece → Bytes}
    (hread : ∀ q ∈ qs, ReadAs k q (send q)) (hperm : (feed.map Arrival.data).Perm (qs.map send)) :
    FedBy k feed := by
  intro a ha p hp
  obtain ⟨q, hq, hsend⟩ := List.mem_map.mp (hperm.mem_iff.mp (List.mem_map_of_mem ha))
  obtain ⟨p', hp', -, hkey⟩ := hread q hq
  rw [hsend, hp] at hp'
  obtain rfl := Option.some.inj hp'
  exact hkey

/-- The table holds no stream but `k`. -/
def Alone (k : FragKey) (t : FragTable) : Prop := ∀ x ∈ t, x.1 = k

theorem Alone.step {t : FragTable} (h : Alone k t) {ev : FragEvent}
    (hown : ∀ p, ev.fragment = some p → fragKeyOf p = k) : Alone k (fragStep t ev).1 := by
  rcases fragStep_cases t ev with ⟨-, -, htable⟩ | ⟨data, now, tie, p, rfl, hp, hstep⟩
  · rcases htable with htable | ⟨now, -, htable⟩
    · rwa [htable]
    · rw [htable]
      exact fun x hx => h x (List.mem_of_mem_filter hx)
  · have hrest : Alone k ((t.makeRoom (fragKeyOf p) tie).remove (fragKeyOf p)) :=
      fun x hx => h x (FragTable.mem_makeRoom (List.mem_of_mem_filter hx))
    have hcases := handleFragment_cases t (FragEvent.fragment_parsed hp) now tie
    rw [hstep]
    generalize handleFragment t p now tie = res at hcases
    cases hcases with
    | dropped _ => exact hrest
    | finished _ _ _ _ => exact hrest
    | waiting _ _ _ =>
      intro x hx
      rcases List.mem_append.mp hx with hx | hx
      · exact hrest x hx
      · obtain rfl := List.mem_singleton.mp hx
        exact hown p hp

/-- A stream that is alone is not evicted: it has its entry, or the table is empty. -/
theorem Alone.victim {t : FragTable} (h : Alone k t) (tie : ℕ) : t.victim k tie = none := by
  unfold FragTable.victim
  cases hget : t.get k with
  | some e => simp
  | none =>
    obtain rfl : t = [] := by
      apply List.eq_nil_iff_forall_not_mem.mpr
      intro x hx
      have hne := (List.lookup_eq_none_iff.mp hget) x hx
      simp [h x hx] at hne
    rfl

theorem Alone.spared {t : FragTable} (h : Alone k t) (hown : FedBy k feed) :
    SparedBy k t (feed.map Arrival.event) := by
  induction feed generalizing t with
  | nil => trivial
  | cons a feed ih =>
    have ha := hown a (List.mem_cons_self ..)
    refine ⟨?_, ih (h.step ha) fun b hb => hown b (List.mem_cons_of_mem _ hb)⟩
    intro p hp
    rw [ha p hp, h.victim]
    simp

theorem FedBy.handedFor (hown : FedBy k feed) :
    handedFor k [] (feed.map Arrival.event) = handedOn [] (feed.map Arrival.event) := by
  apply List.filter_eq_self.mpr
  intro h hmem
  obtain ⟨tiles, hsub, htiled⟩ := handedOn_sound hmem
  obtain ⟨p, hp, -, -⟩ := htiled.last
  have hseen := (List.mem_filter.mp (hsub.subset hp)).1
  rw [fragments_feed] at hseen
  obtain ⟨d, hd, hparse⟩ := List.mem_filterMap.mp hseen
  obtain ⟨a, ha, rfl⟩ := List.mem_map.mp hd
  have hkey := (htiled.key p hp).symm.trans (hown a ha p hparse)
  simpa using hkey

end Feed

/-! ## The datagram -/

/-- The packet `r`, handed on as `c`, is the session's reply: from its target to its client, with a
checksum that is there and verifies. -/
structure IsReply (s : UdpSession) (payload : Bytes) (r : IpPacket) (c : L4Call) : Prop where
  call : c = .udp ⟨r.src, r.dst, s.key.dstPort, s.key.srcPort, .udp⟩ payload
  src : (r.src == s.key.dst) = true
  dst : (r.dst == s.key.src) = true
  length : (be16 (r.l4.drop 4)).toNat = r.l4.length
  checked : be16 (r.l4.drop 6) ≠ 0
  verifies : l4Checksum r.src r.dst r.proto r.l4 = 0

/-- The datagram that `build_udp` and the fragmenter both write. -/
def UdpSession.datagram (s : UdpSession) (payload : Bytes) : Bytes := (s.reply payload).datagram

section Reply

variable {s : UdpSession} {payload : Bytes}

theorem UdpSession.datagram_length : (s.datagram payload).length = 8 + payload.length :=
  udpBytes_length _ _

theorem UdpSession.isReply (hv4 : s.key.IsV4) (hlen : payload.length ≤ 65507) {r : IpPacket}
    (hl4 : r.l4 = s.datagram payload) (hsrc : r.src = s.key.dst.toIpv4.toIpAddr)
    (hdst : r.dst = s.key.src.toIpv4.toIpAddr) (hproto : r.proto = L4.udp.code) {c : L4Call}
    (hcall : routeL4 r = .call c) : IsReply s payload r c := by
  have hbytes := @datagram_length s payload
  have hreads : UdpReads (s.reply payload) (s.datagram payload) :=
    udpBytes_reads _ (show 8 + payload.length ≤ _ by omega)
  constructor
  case call =>
    have hfrom : be16 (s.datagram payload) = s.key.dstPort := hreads.srcPort
    have hto : be16 ((s.datagram payload).drop 2) = s.key.srcPort := hreads.dstPort
    have hdata : (s.datagram payload).drop 8 = payload := hreads.payload
    unfold routeL4 at hcall
    rw [hproto, if_pos (by decide), hl4, hfrom, hto, hdata] at hcall
    split at hcall
    · cases hcall
    · exact (Routed.call.inj hcall).symm
  case src =>
    rw [hsrc]
    exact IpAddr.beq_toIpv4 hv4.2
  case dst =>
    rw [hdst]
    exact IpAddr.beq_toIpv4 hv4.1
  case length =>
    rw [hl4]
    exact hreads.udpLen
  case checked =>
    rw [hl4]
    show be16 (putBe16 (sentChecksum _) ++ payload) ≠ 0
    rw [be16_append]
    exact sentChecksum_ne _
  case verifies =>
    rw [hsrc, hdst, hproto, hl4, l4Checksum_toIpv4 hv4.2]
    exact (s.reply payload).datagram_verifies hv4.2 (show 8 + payload.length ≤ _ by omega)

end Reply

/-! ## Both paths -/

/-- A packet the tunnel takes, with a header that verifies. -/
def Emittable (pkt : Bytes) : Prop :=
  pkt.length ≤ MAX_IP_PKT ∧ internetChecksum (pkt.take 20) = 0

theorem emittable_append {total ipId flagsOff : UInt16} {proto : UInt8} {src dst : IpAddr}
    {hdr data : Bytes} (h : ReadsHeader total proto src dst ipId flagsOff hdr)
    (hlen : 20 + data.length ≤ MAX_IP_PKT) : Emittable (hdr ++ data) := by
  have hhdr := h.length
  constructor
  · rw [List.length_append]
    omega
  · rw [List.take_left' hhdr]
    exact h.sum

section Paths

variable {s : UdpSession} {payload : Bytes}

theorem UdpSession.emit_whole (hv4 : s.key.IsV4) (hshort : 28 + payload.length ≤ MAX_IP_PKT)
    (ipId : UInt16) : (s.buildAndEmit payload ipId).1 =
      [writeIpv4Header (28 + payload.length).toUInt16 L4.udp.code s.key.dst s.key.src ++
        s.datagram payload] := by
  have hmax : MAX_IP_PKT = 1000 := rfl
  have hbuild := @buildUdp_fits (MAX_IP_PKT + 8) (s.reply payload) hv4.2 hv4.1
    (show 28 + payload.length ≤ _ by omega) (show 28 + payload.length ≤ _ by omega)
  unfold buildAndEmit
  simp only [hshort, if_true, hbuild]
  rfl

theorem UdpSession.whole_received (hv4 : s.key.IsV4) (hshort : 28 + payload.length ≤ MAX_IP_PKT) :
    ∃ r c, IpPacket.parse (writeIpv4Header (28 + payload.length).toUInt16 L4.udp.code s.key.dst
        s.key.src ++ s.datagram payload) = some r ∧ r.isFragment = false ∧
      routeL4 r = .call c ∧ IsReply s payload r c := by
  have hmax : MAX_IP_PKT = 1000 := rfl
  have hbytes := @datagram_length s payload
  have hfield : (28 + payload.length).toUInt16.toNat = 20 + (s.datagram payload).length := by
    rw [hbytes]
    exact (Nat.mod_eq_of_lt (by omega)).trans (by omega)
  obtain ⟨r, hparse, has⟩ := (writeIpv4Header_reads _ L4.udp.code s.key.dst s.key.src).parse hfield
  have hroute : ∃ c, routeL4 r = .call c := by
    unfold routeL4
    rw [has.proto, has.l4Len, if_pos (by decide), if_neg (by omega)]
    exact ⟨_, rfl⟩
  obtain ⟨c, hc⟩ := hroute
  refine ⟨r, c, hparse, ?_, hc, isReply hv4 (by omega) has.l4 has.src has.dst has.proto hc⟩
  unfold IpPacket.isFragment
  rw [has.units, has.more]
  decide

theorem UdpSession.emit_cut (hv4 : s.key.IsV4) (hlen : payload.length ≤ 65507)
    (hlong : MAX_IP_PKT < 28 + payload.length) (ipId : UInt16) :
    ∃ pieces, Chunked MAX_FRAG_DATA (s.datagram payload) pieces ∧ (s.buildAndEmit payload ipId).1 =
      (cut 0 pieces).map (fragPacket s.key.dst s.key.src ipId) := by
  obtain ⟨pieces, hpieces, hloop⟩ :=
    fragLoop_cut s.key.dst s.key.src ipId (s.datagram payload) (Nat.zero_le _)
  refine ⟨pieces, hpieces, ?_⟩
  have hv4' : (!s.key.dst.isV4 || !s.key.src.isV4) = false := by
    rw [hv4.1, hv4.2]
    rfl
  unfold buildAndEmit
  rw [if_neg (by omega), if_neg (by omega), if_neg (by rw [hv4']; decide)]
  exact hloop

theorem UdpSession.cut_received (hlen : payload.length ≤ 65507)
    (hlong : MAX_IP_PKT < 28 + payload.length) {pieces : List Bytes}
    (h : Chunked MAX_FRAG_DATA (s.datagram payload) pieces) (ipId : UInt16) {q : Piece}
    (hq : q ∈ cut 0 pieces) : ReadAs (replyStream s.key.dst s.key.src ipId) q
      (fragPacket s.key.dst s.key.src ipId q) := by
  have hmax : MAX_IP_PKT = 1000 := rfl
  have hfrag : MAX_FRAG_DATA = 976 := rfl
  have hbytes := @datagram_length s payload
  obtain ⟨-, hhi, hmem, hlast⟩ := mem_cut hq
  have hshort := h.short _ hmem
  rw [h.flatten] at hhi hlast
  refine fragPacket_read _ _ _ (aligned_cut (by decide) h (Nat.dvd_zero 8) hq) (by omega) ?_
  cases hmore : q.2.1 with
  | true => exact .inl rfl
  | false =>
    have hend := hlast hmore
    exact .inr (by omega)

theorem UdpSession.cutSegment {pieces : List Bytes} (hlen : payload.length ≤ 65507)
    (h : Chunked MAX_FRAG_DATA (s.datagram payload) pieces) (ipId : UInt16) :
    CutSegment (replyStream s.key.dst s.key.src ipId) pieces := by
  have hbytes := @datagram_length s payload
  refine ⟨h.nonempty, ?_, .inl ⟨rfl, ?_⟩⟩ <;> rw [h.flatten] <;> omega

/-- In any order, the pieces are handed on once, as the reply. -/
theorem UdpSession.cut_handed (hv4 : s.key.IsV4) (hlen : payload.length ≤ 65507)
    (hlong : MAX_IP_PKT < 28 + payload.length) {pieces : List Bytes}
    (h : Chunked MAX_FRAG_DATA (s.datagram payload) pieces) (ipId : UInt16) {feed : List Arrival}
    (hperm : (feed.map Arrival.data).Perm
      ((cut 0 pieces).map (fragPacket s.key.dst s.key.src ipId))) :
    ∃ r : Handed, handedOn [] (feed.map Arrival.event) = [r] ∧ IsReply s payload r.packet r.call := by
  have hread : ∀ q ∈ cut 0 pieces, ReadAs (replyStream s.key.dst s.key.src ipId) q
      (fragPacket s.key.dst s.key.src ipId q) := fun q hq => cut_received hlen hlong h ipId hq
  have hown := FedBy.of_perm hread hperm
  have halone : Alone (replyStream s.key.dst s.key.src ipId) [] := fun x hx => by simp at hx
  obtain ⟨r, hout, hcarries, hcall⟩ := (cutSegment hlen h ipId).handed_once rfl
    (halone.spared hown) (fragmentsOf_feed hread hperm)
  rw [hown.handedFor] at hout
  refine ⟨r, hout, isReply hv4 hlen ?_ hcarries.src hcarries.dst hcarries.proto hcall⟩
  rw [hcarries.l4, h.flatten]

end Paths

/-- Every reply is emitted in packets that the tunnel takes, the fragments cut at multiples of 8, and a
receiver gets it from them: from the packet as it is, or from the fragments in any order through a table
without other fragments, once. -/
theorem udp_reply_survives (s : UdpSession) (hv4 : s.key.IsV4) (payload : Bytes)
    (hlen : payload.length ≤ 65507) (ipId : UInt16) :
    (∀ pkt ∈ (s.buildAndEmit payload ipId).1, Emittable pkt) ∧
    (∀ pkt ∈ (s.buildAndEmit payload ipId).1.dropLast, 8 ∣ (pkt.drop 20).length) ∧
    (28 + payload.length ≤ MAX_IP_PKT → ∃ pkt r c, (s.buildAndEmit payload ipId).1 = [pkt] ∧
      IpPacket.parse pkt = some r ∧ r.isFragment = false ∧ routeL4 r = .call c ∧
      IsReply s payload r c) ∧
    (MAX_IP_PKT < 28 + payload.length →
      (∀ pkt ∈ (s.buildAndEmit payload ipId).1, (fragmentOf pkt).isSome = true) ∧
      ∀ feed : List Arrival, (feed.map Arrival.data).Perm (s.buildAndEmit payload ipId).1 →
        ∃ h : Handed, handedOn [] (feed.map Arrival.event) = [h] ∧
          IsReply s payload h.packet h.call) := by
  have hmax : MAX_IP_PKT = 1000 := rfl
  have hfrag : MAX_FRAG_DATA = 976 := rfl
  have hbytes := @UdpSession.datagram_length s payload
  rcases Nat.lt_or_ge MAX_IP_PKT (28 + payload.length) with hlong | hshort
  · obtain ⟨pieces, hpieces, hemit⟩ := UdpSession.emit_cut hv4 hlen hlong ipId
    rw [hemit]
    refine ⟨?_, ?_, fun h => by omega, fun _ => ⟨?_, fun feed hperm =>
      UdpSession.cut_handed hv4 hlen hlong hpieces ipId hperm⟩⟩
    · intro pkt hpkt
      obtain ⟨q, hq, rfl⟩ := List.mem_map.mp hpkt
      have hsize := hpieces.short _ (mem_cut hq).2.2.1
      exact emittable_append (writeIpv4HeaderFrag_reads _ _ _ _ _ _ _) (by omega)
    · intro pkt hpkt
      rw [← List.map_dropLast] at hpkt
      obtain ⟨q, hq, rfl⟩ := List.mem_map.mp hpkt
      have hdata := List.mem_map_of_mem (f := fun q : Piece => q.2.2) hq
      rw [List.map_dropLast, map_data_cut] at hdata
      have hread := writeIpv4HeaderFrag_reads (20 + q.2.2.length).toUInt16 L4.udp.code s.key.dst
        s.key.src ipId (q.1 / 8).toUInt16 q.2.1
      unfold fragPacket
      rw [List.drop_left' hread.length, hpieces.full _ hdata]
      decide
    · intro pkt hpkt
      obtain ⟨q, hq, rfl⟩ := List.mem_map.mp hpkt
      obtain ⟨p, hp, -⟩ := UdpSession.cut_received hlen hlong hpieces ipId hq
      rw [hp]
      rfl
  · have hemit := UdpSession.emit_whole hv4 hshort ipId
    rw [hemit]
    refine ⟨?_, fun _ hpkt => by simp at hpkt, fun _ => ?_, fun h => by omega⟩
    · intro pkt hpkt
      obtain rfl := List.mem_singleton.mp hpkt
      exact emittable_append (writeIpv4Header_reads _ _ _ _) (by omega)
    · obtain ⟨r, c, hparse, hwhole, hcall, hreply⟩ := UdpSession.whole_received hv4 hshort
      exact ⟨_, r, c, rfl, hparse, hwhole, hcall, hreply⟩

/-- A reply of 1500 bytes, its fragments received last one first. -/
theorem udp_reply_survives_reversed :
    ∃ h : Handed, handedOn [] (((UdpSession.buildAndEmit ⟨⟨.v4FromBytes 10 8 0 2,
        .v4FromBytes 8 8 8 8, 40000, 53, .udp⟩, 0⟩ (List.replicate 1500 7) 65535).1.reverse.map
          fun d => Arrival.mk d 100 0).map Arrival.event) = [h] ∧
      h.call = .udp ⟨h.packet.src, h.packet.dst, 53, 40000, .udp⟩ (List.replicate 1500 7) := by
  have hlen : (List.replicate 1500 (7 : UInt8)).length = 1500 := List.length_replicate
  obtain ⟨-, -, -, hcut⟩ := udp_reply_survives ⟨⟨.v4FromBytes 10 8 0 2, .v4FromBytes 8 8 8 8, 40000, 53,
    .udp⟩, 0⟩ (by decide) (List.replicate 1500 7) (by rw [hlen]; decide) 65535
  obtain ⟨h, hout, hreply⟩ := (hcut (by rw [hlen]; decide)).2 (List.map (fun d => Arrival.mk d 100 0)
    (UdpSession.buildAndEmit _ _ _).1.reverse) (by
      rw [List.map_map, show Arrival.data ∘ (fun d => Arrival.mk d 100 0) = id from rfl, List.map_id]
      exact List.reverse_perm _)
  exact ⟨h, hout, hreply.call⟩

end BaleVpn.Dispatch
