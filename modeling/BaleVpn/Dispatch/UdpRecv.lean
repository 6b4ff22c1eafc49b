import BaleVpn.Dispatch.UdpReply

/-!
# The receive loop of a UDP session (`nat/udp_session.rs`)

`UdpSession::on_readable`. `build_and_emit` sends what it is given in as many fragments as it takes, but
the loop gives it what `recv` leaves in a buffer of 2048 bytes, and of a longer datagram `recv` leaves the
beginning.
-/

namespace BaleVpn.Dispatch

open Net

def RECV_BUF : ℕ := 2048

/-- What `recv` finds at the socket: a datagram, before it is cut to the buffer, or an error. -/
inductive RecvRes
  | ok (datagram : Bytes) (now : UInt32) | wouldBlock | interrupted | err
  deriving DecidableEq, Repr

/-- The loop of `on_readable`: the datagrams that it received with the packets that it emitted for each,
the session and the global `IP_ID`. -/
def UdpSession.recvLoop : List RecvRes → UdpSession → UInt16 →
    List (Bytes × List Bytes) × UdpSession × UInt16
  | [], s, ipId => ([], s, ipId)
  | .ok d now :: rs, s, ipId =>
    let s := { s with lastActiveMs := now }
    let (pkts, ipId) := s.buildAndEmit (d.take RECV_BUF) ipId
    let (out, s, ipId) := recvLoop rs s ipId
    ((d, pkts) :: out, s, ipId)
  | .interrupted :: rs, s, ipId => recvLoop rs s ipId
  | .wouldBlock :: _, s, ipId => ([], s, ipId)
  | .err :: _, s, ipId => ([], s, ipId)

def UdpSession.onReadable (s : UdpSession) (rs : List RecvRes) (ipId : UInt16) :
    List (Bytes × List Bytes) × UdpSession × UInt16 :=
  s.recvLoop rs ipId

/-- The datagrams that are received before the socket has no more. -/
def received : List RecvRes → List Bytes
  | .ok d _ :: rs => d :: received rs
  | .interrupted :: rs => received rs
  | _ => []

/-! ## What the client gets -/

/-- The client gets `payload` as the session's reply from the packets: from one that is whole, or from
fragments in any order. -/
inductive Receives (s : UdpSession) (payload : Bytes) : List Bytes → Prop
  | whole {pkt : Bytes} {r : IpPacket} {c : L4Call} (hparse : IpPacket.parse pkt = some r)
      (hwhole : r.isFragment = false) (hcall : routeL4 r = .call c) (hreply : IsReply s payload r c) :
      Receives s payload [pkt]
  | pieces {pkts : List Bytes} (hfrag : ∀ pkt ∈ pkts, (fragmentOf pkt).isSome = true)
      (hfeed : ∀ feed : List Arrival, (feed.map Arrival.data).Perm pkts →
        ∃ h : Handed, handedOn [] (feed.map Arrival.event) = [h] ∧ IsReply s payload h.packet h.call) :
      Receives s payload pkts

/-- The datagram is relayed complete, or not at all. -/
def Relayed (s : UdpSession) (d : Bytes) (pkts : List Bytes) : Prop := pkts = [] ∨ Receives s d pkts

theorem IsReply.payload_unique {s : UdpSession} {p q : Bytes} {r : IpPacket} {c : L4Call}
    (hp : IsReply s p r c) (hq : IsReply s q r c) : p = q := by
  have hcall := hp.call.symm.trans hq.call
  injection hcall

theorem Receives.unique {s : UdpSession} {p q : Bytes} {pkts : List Bytes} (hp : Receives s p pkts)
    (hq : Receives s q pkts) : p = q := by
  have mixed : ∀ {pkt : Bytes} {r : IpPacket}, IpPacket.parse pkt = some r → r.isFragment = false →
      ¬ ∀ x ∈ [pkt], (fragmentOf x).isSome = true := by
    intro pkt r hparse hwhole hfrag
    have hsome := hfrag pkt (List.mem_singleton_self pkt)
    simp [fragmentOf, hparse, hwhole] at hsome
  rcases hp with ⟨hparse, hwhole, hcall, hreply⟩ | ⟨hfrag, hfeed⟩
  · rcases hq with ⟨hparse', -, hcall', hreply'⟩ | ⟨hfrag', -⟩
    · obtain rfl := Option.some.inj (hparse.symm.trans hparse')
      obtain rfl := Routed.call.inj (hcall.symm.trans hcall')
      exact hreply.payload_unique hreply'
    · exact absurd hfrag' (mixed hparse hwhole)
  · rcases hq with ⟨hparse', hwhole', -, -⟩ | ⟨-, hfeed'⟩
    · exact absurd hfrag (mixed hparse' hwhole')
    · have hdata : ((pkts.map fun d => Arrival.mk d 0 0).map Arrival.data) = pkts := by
        rw [List.map_map]
        exact List.map_id pkts
      obtain ⟨h, hout, hreply⟩ := hfeed _ (List.Perm.of_eq hdata)
      obtain ⟨h', hout', hreply'⟩ := hfeed' _ (List.Perm.of_eq hdata)
      obtain rfl := List.singleton_inj.mp (hout.symm.trans hout')
      exact hreply.payload_unique hreply'

theorem Receives.ne_nil {s : UdpSession} {p : Bytes} : ¬ Receives s p [] := by
  intro h
  cases h with
  | pieces _ hfeed =>
    obtain ⟨h, hout, -⟩ := hfeed [] (List.Perm.refl [])
    cases hout

/-! ## What is emitted -/

section Emit

variable {s : UdpSession} {payload : Bytes}

theorem UdpSession.buildAndEmit_receives (hv4 : s.key.IsV4) (hlen : payload.length ≤ 65507)
    (ipId : UInt16) : Receives s payload (s.buildAndEmit payload ipId).1 := by
  rcases Nat.lt_or_ge MAX_IP_PKT (28 + payload.length) with hlong | hshort
  · obtain ⟨pieces, hpieces, hemit⟩ := emit_cut hv4 hlen hlong ipId
    rw [hemit]
    refine .pieces (fun pkt hpkt => ?_) fun feed hperm => cut_handed hv4 hlen hlong hpieces ipId hperm
    obtain ⟨q, hq, rfl⟩ := List.mem_map.mp hpkt
    obtain ⟨p, hp, -⟩ := cut_received hlen hlong hpieces ipId hq
    rw [hp]
    rfl
  · obtain ⟨r, c, hparse, hwhole, hcall, hreply⟩ := whole_received hv4 hshort
    rw [emit_whole hv4 hshort ipId]
    exact .whole hparse hwhole hcall hreply

theorem UdpSession.buildAndEmit_v6 (hv6 : ¬ s.key.IsV4) (ipId : UInt16) :
    (s.buildAndEmit payload ipId).1 = [] := by
  have hor : (!s.key.dst.isV4 || !s.key.src.isV4) = true := by
    unfold FlowKey.IsV4 at hv6
    cases hdst : s.key.dst.isV4 <;> cases hsrc : s.key.src.isV4 <;> simp_all
  have hbuild : buildUdp (MAX_IP_PKT + 8) (s.reply payload) = none := by
    unfold buildUdp UdpSession.reply
    rw [if_pos hor]
  unfold buildAndEmit
  simp only [hbuild, hor, if_true, Option.toList_none]
  split
  · rfl
  · split <;> rfl

/-- One turn of the loop relays the datagram exactly if it fits the buffer. -/
theorem UdpSession.relayed_iff (s : UdpSession) (d : Bytes) (ipId : UInt16) :
    Relayed s d (s.buildAndEmit (d.take RECV_BUF) ipId).1 ↔ (s.key.IsV4 → d.length ≤ RECV_BUF) := by
  have hbuf : RECV_BUF = 2048 := rfl
  constructor
  · rintro (hnone | hreceives) hv4
    all_goals
      have hcut : Receives s (d.take RECV_BUF) (s.buildAndEmit (d.take RECV_BUF) ipId).1 :=
        buildAndEmit_receives hv4 (by rw [List.length_take]; omega) ipId
    · rw [hnone] at hcut
      exact absurd hcut Receives.ne_nil
    · have hsame := congrArg List.length (hcut.unique hreceives)
      rw [List.length_take] at hsame
      omega
  · intro hfits
    by_cases hv4 : s.key.IsV4
    · have hlen := hfits hv4
      rw [List.take_of_length_le hlen]
      exact .inr (buildAndEmit_receives hv4 (by omega) ipId)
    · exact .inl (buildAndEmit_v6 hv4 ipId)

end Emit

/-- Every datagram that the loop receives is relayed complete or not at all if and only if none of them
is longer than the buffer, where the session has anything to emit. -/
theorem udp_relay_complete (s : UdpSession) (rs : List RecvRes) (ipId : UInt16) :
    (∀ x ∈ (s.onReadable rs ipId).1, Relayed s x.1 x.2) ↔
      (s.key.IsV4 → ∀ d ∈ received rs, d.length ≤ RECV_BUF) := by
  show (∀ x ∈ (UdpSession.recvLoop rs s ipId).1, Relayed s x.1 x.2) ↔ _
  -- The turns differ in the time of the session only, which nothing here depends on.
  suffices h : ∀ s' : UdpSession, s'.key = s.key →
      ((∀ x ∈ (UdpSession.recvLoop rs s' ipId).1, Relayed s x.1 x.2) ↔
        (s.key.IsV4 → ∀ d ∈ received rs, d.length ≤ RECV_BUF)) from h s rfl
  induction rs generalizing ipId with
  | nil => simp [UdpSession.recvLoop, received]
  | cons r rs ih =>
    intro s' hkey
    rcases r with ⟨d, now⟩ | _ | _ | _
    · have hemit : ∀ p, ({ s' with lastActiveMs := now } : UdpSession).buildAndEmit p ipId =
          s.buildAndEmit p ipId := by
        intro p
        unfold UdpSession.buildAndEmit UdpSession.reply
        rw [show ({ s' with lastActiveMs := now } : UdpSession).key = s.key from hkey]
      simp only [UdpSession.recvLoop, received, hemit, List.forall_mem_cons]
      have hrest := ih (s.buildAndEmit (d.take RECV_BUF) ipId).2 { s' with lastActiveMs := now } hkey
      rw [s.relayed_iff d ipId]
      exact ⟨fun h hv4 => ⟨h.1 hv4, hrest.mp h.2 hv4⟩, fun h => ⟨fun hv4 => (h hv4).1,
        hrest.mpr fun hv4 => (h hv4).2⟩⟩
    · simp [UdpSession.recvLoop, received]
    · exact ih ipId s' hkey
    · simp [UdpSession.recvLoop, received]

theorem UdpSession.onReadable_single (s : UdpSession) (d : Bytes) (now : UInt32) (ipId : UInt16) :
    (s.onReadable [.ok d now, .wouldBlock] ipId).1 =
      [(d, (s.buildAndEmit (d.take RECV_BUF) ipId).1)] := rfl

def resolverSession : UdpSession := ⟨⟨.v4FromBytes 10 8 0 2, .v4FromBytes 8 8 8 8, 40000, 53, .udp⟩, 0⟩

/-- A reply of 2049 bytes reaches the client as one of 2048 bytes. -/
theorem udp_relay_cuts :
    (∃ pkts, (resolverSession.onReadable [.ok (List.replicate 2049 7) 100, .wouldBlock] 0).1 =
        [(List.replicate 2049 7, pkts)] ∧ Receives resolverSession (List.replicate 2048 7) pkts) ∧
    ¬ ∀ (s : UdpSession) (rs : List RecvRes) (ipId : UInt16),
      (∀ d ∈ received rs, d.length ≤ 65507) →
      ∀ x ∈ (s.onReadable rs ipId).1, Relayed s x.1 x.2 := by
  have hv4 : resolverSession.key.IsV4 := by decide
  have hlen : (List.replicate 2049 (7 : UInt8)).length = 2049 := List.length_replicate
  have htake : (List.replicate 2049 (7 : UInt8)).take RECV_BUF = List.replicate 2048 7 :=
    List.take_replicate
  have hcut : (List.replicate 2048 (7 : UInt8)).length ≤ 65507 := by
    rw [List.length_replicate]
    decide
  rw [UdpSession.onReadable_single, htake]
  generalize List.replicate 2048 (7 : UInt8) = cut at hcut htake ⊢
  generalize List.replicate 2049 (7 : UInt8) = d at hlen htake ⊢
  refine ⟨⟨_, rfl, UdpSession.buildAndEmit_receives hv4 hcut 0⟩, fun hall => ?_⟩
  have hlong : ∀ x ∈ received [.ok d 100, .wouldBlock], x.length ≤ 65507 := by
    intro x hx
    obtain rfl := List.mem_singleton.mp hx
    omega
  have hrelayed := hall resolverSession _ 0 hlong _ (List.mem_singleton_self _)
  have hfits := (UdpSession.relayed_iff resolverSession d 0).mp hrelayed hv4
  rw [hlen] at hfits
  exact absurd hfits (by decide)

end BaleVpn.Dispatch
