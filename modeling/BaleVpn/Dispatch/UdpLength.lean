import BaleVpn.Dispatch.Nat
import BaleVpn.Dispatch.Reassemble

/-!
# The length of a UDP datagram (`nat/dispatcher.rs`)

A UDP datagram says how long it is, and so does the IP packet around it. `process` and `handle_fragment`
both hand on `UdpHeader::payload`, which is everything that the packet has after the header. The accessor
that reads the length field, `payload_len`, has no caller.
-/

namespace BaleVpn.Dispatch

open Net

/-- The packet that `process` routes by its protocol: the one it is given, or the one that is rebuilt
from it and earlier fragments. -/
def NatDispatcher.delivered (n : NatDispatcher) (bytes : Bytes) (o : NatOracle) : Option IpPacket :=
  match IpPacket.parse bytes with
  | none => none
  | some p =>
    if p.isFragment then
      match handleFragment n.frag p (o.clock 0) o.tie with
      | (_, .refused) | (_, .held) => none
      | (_, .rebuilt p) => some p
    else some p

/-- The flow has a socket, or one can be opened for it. -/
def HasSocket (t : UdpTable) (k : FlowKey) (o : NatOracle) : Prop :=
  (t k).isSome = true ∨ (UdpSession.openHost ⟨k, 0⟩ o).1 = true

def udpFlow (r : IpPacket) : FlowKey := ⟨r.src, r.dst, be16 r.l4, be16 (r.l4.drop 2), .udp⟩

/-- The packet is a UDP datagram that goes to a socket. -/
structure Relays (n : NatDispatcher) (o : NatOracle) (r : IpPacket) : Prop where
  proto : r.proto = L4.udp.code
  header : 8 ≤ r.l4Len
  socket : HasSocket n.udp (udpFlow r) o

/-- `payload` is what the length field of the datagram delimits, and that is in the packet. -/
structure Delimited (r : IpPacket) (payload : Bytes) : Prop where
  least : 8 ≤ (UdpHeader.udpLen r.l4).toNat
  fits : (UdpHeader.udpLen r.l4).toNat ≤ r.l4Len
  payload : payload = (UdpHeader.payload r.l4).take (UdpHeader.payloadLen r.l4)

/-- Whatever is sent to a host is the payload of the packet delivered, as its length field delimits it. -/
def SendsDelimited (n : NatDispatcher) (bytes : Bytes) (o : NatOracle) : Prop :=
  ∀ k payload, .send k payload ∈ (n.process bytes o).2.2.udp →
    ∃ r ∈ n.delivered bytes o, Delimited r payload

/-! ## What is sent -/

theorem handleUdp_sends (t : UdpTable) (k : FlowKey) (payload q : Bytes) (o : NatOracle) :
    (∃ k', .send k' q ∈ (handleUdp t k payload o).2.2) ↔ HasSocket t k o ∧ q = payload := by
  unfold handleUdp HasSocket
  cases hk : t k with
  | some s =>
    constructor
    · rintro ⟨k', hmem⟩
      have hsend := List.mem_singleton.mp hmem
      injection hsend with _ hq
      exact ⟨.inl rfl, hq⟩
    · rintro ⟨-, rfl⟩
      exact ⟨s.key, List.mem_singleton_self _⟩
  | none =>
    have hopen : ∀ {k' : FlowKey}, .send k' q ∉ (UdpSession.openHost ⟨k, o.clock 0⟩ o).2 := by
      intro k' hmem
      obtain ⟨hconnect, -⟩ := openHost_allowed _ _ hmem
      cases hconnect
    have hsame : (UdpSession.openHost ⟨k, 0⟩ o).1 = (UdpSession.openHost ⟨k, o.clock 0⟩ o).1 := rfl
    rw [hsame]
    simp only [Option.isSome_none, Bool.false_eq_true, false_or]
    split
    · rename_i hno
      rw [Bool.not_eq_true'] at hno
      rw [hno]
      exact ⟨fun ⟨_, hmem⟩ => absurd hmem hopen, fun h => absurd h.1 Bool.false_ne_true⟩
    · rename_i hyes
      rw [Bool.not_eq_true', Bool.not_eq_false] at hyes
      constructor
      · rintro ⟨k', hmem⟩
        rcases List.mem_append.mp hmem with hmem | hmem
        · exact absurd hmem hopen
        · have hsend := List.mem_singleton.mp hmem
          injection hsend with _ hq
          exact ⟨hyes, hq⟩
      · rintro ⟨-, rfl⟩
        exact ⟨k, List.mem_append_right _ (List.mem_singleton_self _)⟩

theorem route_sends (n : NatDispatcher) (o : NatOracle) (r : IpPacket) (q : Bytes) :
    (∃ k, .send k q ∈ (n.route o (routeL4 r)).2.2.udp) ↔ Relays n o r ∧ q = UdpHeader.payload r.l4 := by
  have hno : ∀ q : Bytes, ¬ ∃ k, UdpAction.send k q ∈ ([] : List UdpAction) := by
    rintro q ⟨k, hmem⟩
    cases hmem
  unfold routeL4
  by_cases hudp : r.proto = L4.udp.code
  · rw [if_pos (by simpa using hudp)]
    by_cases hshort : r.l4Len < 8
    · rw [if_pos hshort]
      refine ⟨fun h => absurd h (hno q), fun h => ?_⟩
      have := h.1.header
      omega
    · rw [if_neg hshort]
      refine (handleUdp_sends n.udp (udpFlow r) (r.l4.drop 8) q o).trans ?_
      exact and_congr_left fun _ => ⟨fun h => ⟨hudp, by omega, h⟩, fun h => h.socket⟩
  · have hnone : ∀ h : Relays n o r ∧ q = UdpHeader.payload r.l4, False := fun h => hudp h.1.proto
    rw [if_neg (by simpa using hudp)]
    split
    · split
      · exact ⟨fun h => absurd h (hno q), fun h => (hnone h).elim⟩
      · exact ⟨fun h => absurd h (hno q), fun h => (hnone h).elim⟩
    · exact ⟨fun h => absurd h (hno q), fun h => (hnone h).elim⟩

theorem process_sends (n : NatDispatcher) (bytes : Bytes) (o : NatOracle) (q : Bytes) :
    (∃ k, .send k q ∈ (n.process bytes o).2.2.udp) ↔
      ∃ r ∈ n.delivered bytes o, Relays n o r ∧ q = UdpHeader.payload r.l4 := by
  have hnone : ∀ P : IpPacket → Prop, (∃ k, UdpAction.send k q ∈ ([] : List UdpAction)) ↔
      ∃ r ∈ (none : Option IpPacket), P r := by
    intro P
    simp
  unfold NatDispatcher.process NatDispatcher.delivered
  cases hparse : IpPacket.parse bytes with
  | none => exact hnone _
  | some p =>
    simp only
    split
    · generalize handleFragment n.frag p (o.clock 0) o.tie = res
      rcases res with ⟨frag, _ | _ | r⟩
      · exact hnone _
      · exact hnone _
      · refine (route_sends { n with frag } o.later r q).trans ?_
        simp only [Option.mem_some_iff, exists_eq_left']
        exact and_congr_left fun _ => ⟨fun h => ⟨h.proto, h.header, h.socket⟩,
          fun h => ⟨h.proto, h.header, h.socket⟩⟩
    · rw [route_sends]
      simp

/-! ## What is delivered -/

theorem handleFragment_parsed {t t' : FragTable} {p r : IpPacket} {now : UInt32} {tie : ℕ}
    (h : handleFragment t p now tie = (t', .rebuilt r)) : Parsed r := by
  have hfinish : ∀ {e : FragEntry}, e.finish = .rebuilt r → Parsed r := by
    intro e he
    unfold FragEntry.finish at he
    split at he
    · cases he
    · split at he
      · cases he
      · rename_i hparse
        obtain rfl := FragResult.rebuilt.inj he
        exact ⟨_, hparse⟩
  unfold handleFragment at h
  simp only at h
  repeat' split at h
  all_goals
    obtain ⟨-, h⟩ := Prod.mk.inj h
    first | cases h | exact hfinish h

theorem delivered_parsed {n : NatDispatcher} {bytes : Bytes} {o : NatOracle} {r : IpPacket}
    (h : r ∈ n.delivered bytes o) : Parsed r := by
  unfold NatDispatcher.delivered at h
  split at h
  · cases h
  · rename_i p hparse
    split at h
    · split at h
      · cases h
      · cases h
      · rename_i hfrag
        obtain rfl := Option.some.inj h
        exact handleFragment_parsed hfrag
    · obtain rfl := Option.some.inj h
      exact ⟨bytes, hparse⟩

theorem delimited_payload_iff {r : IpPacket} (h : Parsed r) (hheader : 8 ≤ r.l4Len) :
    Delimited r (UdpHeader.payload r.l4) ↔ (UdpHeader.udpLen r.l4).toNat = r.l4Len := by
  have hl4 := h.facts.l4_length
  have hlen : (UdpHeader.payload r.l4).length = r.l4Len - 8 := by
    rw [← hl4]
    exact List.length_drop
  constructor
  · rintro ⟨hleast, hfits, hpayload⟩
    have hcut := congrArg List.length hpayload
    unfold UdpHeader.payloadLen at hcut
    rw [if_pos hleast, List.length_take, hlen] at hcut
    omega
  · intro hsame
    refine ⟨by omega, by omega, ?_⟩
    unfold UdpHeader.payloadLen
    rw [if_pos (by omega), hsame, List.take_of_length_le (by omega)]

/-- The length field delimits what is sent to a host if and only if it agrees with the length of the
packet, in every datagram that goes to a socket. -/
theorem udp_length_delimits (n : NatDispatcher) (bytes : Bytes) (o : NatOracle) :
    SendsDelimited n bytes o ↔
      ∀ r ∈ n.delivered bytes o, Relays n o r → (UdpHeader.udpLen r.l4).toNat = r.l4Len := by
  constructor
  · intro h r hr hrelays
    obtain ⟨k, hsend⟩ := (process_sends n bytes o _).mpr ⟨r, hr, hrelays, rfl⟩
    obtain ⟨r', hr', hdelimited⟩ := h k _ hsend
    obtain rfl := Option.some.inj (hr.symm.trans hr')
    exact (delimited_payload_iff (delivered_parsed hr) hrelays.header).mp hdelimited
  · intro h k payload hsend
    obtain ⟨r, hr, hrelays, rfl⟩ := (process_sends n bytes o payload).mp ⟨k, hsend⟩
    refine ⟨r, hr, ?_⟩
    exact (delimited_payload_iff (delivered_parsed hr) hrelays.header).mpr (h r hr hrelays)

/-- A datagram of two bytes, and two bytes of padding. -/
def paddedDatagram : Bytes :=
  [0x45, 0, 0, 32, 0, 0, 0x40, 0, 64, 17, 0x20, 0xb4, 10, 8, 0, 2, 8, 8, 8, 8] ++
    [0x9c, 0x40, 0, 53, 0, 10, 0, 0] ++ [1, 2] ++ [0, 0]

/-- The padding is sent with the data. -/
theorem udp_length_ignored :
    (({} : NatDispatcher).process paddedDatagram {}).2.2.udp =
      [.connect ⟨.v4FromBytes 10 8 0 2, .v4FromBytes 8 8 8 8, 40000, 53, .udp⟩,
        .send ⟨.v4FromBytes 10 8 0 2, .v4FromBytes 8 8 8 8, 40000, 53, .udp⟩ [1, 2, 0, 0]] ∧
    ¬ ∀ (n : NatDispatcher) (bytes : Bytes) (o : NatOracle), SendsDelimited n bytes o := by
  have hsent : (({} : NatDispatcher).process paddedDatagram {}).2.2.udp =
      [.connect ⟨.v4FromBytes 10 8 0 2, .v4FromBytes 8 8 8 8, 40000, 53, .udp⟩,
        .send ⟨.v4FromBytes 10 8 0 2, .v4FromBytes 8 8 8 8, 40000, 53, .udp⟩ [1, 2, 0, 0]] := by
    decide +kernel
  refine ⟨hsent, fun hall => ?_⟩
  have hmem : .send ⟨.v4FromBytes 10 8 0 2, .v4FromBytes 8 8 8 8, 40000, 53, .udp⟩ [1, 2, 0, 0] ∈
      (({} : NatDispatcher).process paddedDatagram {}).2.2.udp := by
    rw [hsent]
    exact List.mem_cons_of_mem _ (List.mem_singleton_self _)
  obtain ⟨r, hr, hdelimited⟩ := hall {} paddedDatagram {} _ _ hmem
  have hfield : (({} : NatDispatcher).delivered paddedDatagram {}).map
      (fun r => UdpHeader.payloadLen r.l4) = some 2 := by
    decide +kernel
  rw [hr] at hfield
  have htwo : UdpHeader.payloadLen r.l4 = 2 := Option.some.inj hfield
  have hlen := congrArg List.length hdelimited.payload
  rw [htwo, List.length_take] at hlen
  have hfour : ([1, 2, 0, 0] : Bytes).length = 4 := rfl
  omega

end BaleVpn.Dispatch
