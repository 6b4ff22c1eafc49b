import BaleVpn.Dispatch.Nat
import BaleVpn.Net.Readdress

/-!
# Inbound packets of a server tunnel (`lib.rs`, `tun.rs`, `server/tun_gateway.rs`)

`inject_inbound_ip` of a tunnel in server role, and the calls that choose where it sends a packet: the
handler of the shared TUN gateway, the userspace NAT, the TUN of the session. The gateway's handler
and the NAT's sockets ask `is_blocked_dst`; the TUN of the session takes every packet. The gateway asks
before it rewrites the source, and the checksum it then patches can be in the destination; what a short
write leaves of a packet goes to the device as a packet of its own.

The lease a gateway has free, the results of the device's writes and what the NAT gets from the
outside are inputs. What the devices are read for is not modelled.
-/

namespace BaleVpn.Server

open Net Tcp Dispatch

/-! ## TUN devices -/

/-- A packet received from the peer on its way to a TUN device, and the bytes handed to `write`. -/
structure TunWrite where
  ip : Bytes
  wire : Bytes
  deriving DecidableEq

inductive TunFormat
  | rawIp
  | utunAfHeader
  deriving DecidableEq, Repr

/-- The address families have the values of macOS, the one system with `utun`. -/
def AF_INET : UInt32 := 2
def AF_INET6 : UInt32 := 30

def afForIp (ip : Bytes) : UInt32 :=
  match ip with
  | [] => AF_INET
  | b :: _ => if b >>> 4 == 6 then AF_INET6 else AF_INET

def wrapForWire (ip : Bytes) : TunFormat → Bytes
  | .rawIp => ip
  | .utunAfHeader => putBe32 (afForIp ip) ++ ip

def UTUN_HEADER_LEN : ℕ := 4

def unwrapFromWire (wire : Bytes) : TunFormat → Bytes
  | .rawIp => wire
  | .utunAfHeader => if wire.length ≤ UTUN_HEADER_LEN then [] else wire.drop UTUN_HEADER_LEN

def MAX_PENDING_TX_PKTS : ℕ := 4096

/-- `TunBridge`. An entry of `pending` is a packet and what is left of its wire form. -/
structure TunBridge where
  format : TunFormat
  pending : List TunWrite := []

/-- The loop of `drain`: the queue that is left, and the writes the device took bytes of. -/
def drainPending : List WriteRes → List TunWrite → List TunWrite × List TunWrite
  | _, [] => ([], [])
  | [], p :: ps => (p :: ps, [])
  | r :: rs, p :: ps =>
    match r with
    | .ok n =>
      if n ≥ p.wire.length then
        let (left, taken) := drainPending rs ps
        (left, p :: taken)
      else ({ p with wire := p.wire.drop n } :: ps, [{ p with wire := p.wire.take n }])
    | .wouldBlock => (p :: ps, [])
    | .interrupted => drainPending rs (p :: ps)
    | .err => (p :: ps, [])

namespace TunBridge

def drain (b : TunBridge) (results : List WriteRes) : TunBridge × List TunWrite :=
  let (pending, taken) := drainPending results b.pending
  ({ b with pending }, taken)

/-- `inject`; a packet that finds the queue full is dropped. -/
def inject (b : TunBridge) (ip : Bytes) (results : List WriteRes) : TunBridge × List TunWrite :=
  if b.pending.length ≥ MAX_PENDING_TX_PKTS then (b, [])
  else drain { b with pending := b.pending ++ [⟨ip, wrapForWire ip b.format⟩] } results

end TunBridge

/-! ## The gateway -/

def dropOutbound (pkt : Bytes) : Bool :=
  if pkt.length < 20 || pkt.getD 0 0 >>> 4 != 4 then true
  else
    let dst := octetsAt pkt 16
    if dst.o0 == 10 && dst.o1 == 8 then true else isBlockedDst (.v4 dst)

/-- The handler that `register` installs, for the lease `10.8.0.lease`. -/
def gatewayHandler (lease : UInt8) (pkt : Bytes) : List TunWrite :=
  if dropOutbound pkt then []
  else
    let (ok, buf) := rewriteV4Src pkt ⟨10, 8, 0, lease⟩
    if !ok then [] else [⟨pkt, buf⟩]

/-! ## The tunnel -/

/-- `LkTunnel` in server role, as far as the inbound path reads it. -/
structure ServerTunnel where
  connected : Bool := false
  /-- The lease of the gateway whose handler is installed. -/
  onIpOverride : Option UInt8 := none
  nat : Option NatDispatcher := none
  tun : Option TunBridge := none

structure Effects where
  nat : NatLog := {}
  /-- The format of the device that `tun` goes to. -/
  format : TunFormat := .rawIp
  tun : List TunWrite := []

namespace ServerTunnel

def startServer (t : ServerTunnel) : Except String ServerTunnel :=
  if !t.connected then .error "not connected"
  else if t.tun.isSome then .error "already in client mode"
  else if t.nat.isSome then .error "already in server mode"
  else .ok { t with nat := some {} }

def attachTunWithFormat (t : ServerTunnel) (fd : ℤ) (format : TunFormat) :
    Except String ServerTunnel :=
  if !t.connected then .error "not connected"
  else if fd < 0 then .error "invalid fd"
  else if t.nat.isSome then .error "already in server mode"
  else if t.tun.isSome then .error "TUN already attached"
  else .ok { t with tun := some { format } }

def injectInboundIp (t : ServerTunnel) (ip : Bytes) (o : NatOracle) (results : List WriteRes) :
    ServerTunnel × Effects :=
  match t.onIpOverride, t.nat, t.tun with
  | some lease, _, _ => (t, { tun := gatewayHandler lease ip })
  | none, some n, _ =>
    let (_, n, log) := n.process ip o
    ({ t with nat := some n }, { nat := log })
  | none, none, some b =>
    let (b, taken) := b.inject ip results
    ({ t with tun := some b }, { format := b.format, tun := taken })
  | none, none, none => (t, {})

end ServerTunnel

inductive TunnelEvent
  | connected
  | startServer
  | attachTun (fd : ℤ) (format : TunFormat)
  | detachTun
  | register (lease : UInt8)
  | unregister
  | packet (ip : Bytes) (o : NatOracle) (results : List WriteRes)
  | tunWritable (results : List WriteRes)
  | host (k : FlowKey) (ev : HostEvent) (o : Oracle)
  | sweep (now udpIdleMs : UInt32) (grew : Bool) (o : FlowKey → Oracle)
  | disconnect

namespace ServerTunnel

/-- One call or event; a call that is refused changes nothing. -/
def step (t : ServerTunnel) : TunnelEvent → ServerTunnel × Effects
  | .connected => ({ t with connected := true }, {})
  | .startServer => (t.startServer.toOption.getD t, {})
  | .attachTun fd format => ((t.attachTunWithFormat fd format).toOption.getD t, {})
  | .detachTun => ({ t with tun := none }, {})
  | .register lease => ({ t with onIpOverride := some lease }, {})
  | .unregister => ({ t with onIpOverride := none }, {})
  | .packet ip o results => t.injectInboundIp ip o results
  | .tunWritable results =>
    match t.tun with
    | some b =>
      let (b, taken) := b.drain results
      ({ t with tun := some b }, { format := b.format, tun := taken })
    | none => (t, {})
  | .host k ev o =>
    match t.nat with
    | some n =>
      let (n, log) := n.onHostEvent k ev o
      ({ t with nat := some n }, { nat := log })
    | none => (t, {})
  | .sweep now udpIdleMs grew o =>
    match t.nat with
    | some n =>
      let (n, log) := n.sweepIdle now udpIdleMs grew o
      ({ t with nat := some n }, { nat := log })
    | none => (t, {})
  | .disconnect => ({ t with connected := false, nat := none, tun := none }, {})

/-- What the tunnel does to the outside, event by event. -/
def run (t : ServerTunnel) : List TunnelEvent → List Effects
  | [] => []
  | e :: es => (t.step e).2 :: (t.step e).1.run es

end ServerTunnel

/-! ## The policy -/

/-- The IPv4 destination of a packet. -/
def dstOf (ip : Bytes) : Option Ipv4Addr :=
  if ip.length < 20 || ip.getD 0 0 >>> 4 != 4 then none else some (octetsAt ip 16)

/-- No host socket is connected to `d`, and no bytes that a TUN device took are a packet for `d`. -/
structure Effects.Spares (e : Effects) (d : Ipv4Addr) : Prop where
  tcp : ∀ k, .hostOpen ∈ e.nat.tcp k → k.dst.toIpv4 ≠ d
  udp : ∀ k, .connect k ∈ e.nat.udp → k.dst.toIpv4 ≠ d
  tun : ∀ w ∈ e.tun, dstOf (unwrapFromWire w.wire e.format) ≠ some d

/-- No blocked destination is reached by a host socket or through a TUN device, whichever packet of the
peer names it. -/
def PolicyKept (evs : List TunnelEvent) : Prop :=
  ∀ d, isBlockedDst (.v4 d) = true → ∀ e ∈ ServerTunnel.run {} evs, e.Spares d

/-- A packet with a blocked destination. -/
def blockedPacket (ip : Bytes) : Bool := (dstOf ip).any fun d => isBlockedDst (.v4 d)

def TunWrite.blocked (format : TunFormat) (w : TunWrite) : Bool :=
  blockedPacket (unwrapFromWire w.wire format)

/-- A write of the loop is short, and what it leaves reads as a packet with a blocked destination. -/
def leavesBlocked (format : TunFormat) : List WriteRes → List TunWrite → Bool
  | _, [] => false
  | [], _ :: _ => false
  | r :: rs, p :: ps =>
    match r with
    | .ok n =>
      if n ≥ p.wire.length then leavesBlocked format rs ps
      else TunWrite.blocked format { p with wire := p.wire.drop n }
    | .wouldBlock => false
    | .interrupted => leavesBlocked format rs (p :: ps)
    | .err => false

/-- `inject` queues a blocked packet, or the drain behind it leaves such a rest. -/
def TunBridge.admitsBlocked (b : TunBridge) (ip : Bytes) (results : List WriteRes) : Bool :=
  b.pending.length < MAX_PENDING_TX_PKTS && (blockedPacket ip ||
    leavesBlocked b.format results (b.pending ++ [⟨ip, wrapForWire ip b.format⟩]))

/-- A packet passes the gateway's filter, and the patch of a checksum makes its destination a blocked one. -/
def patchesBlocked (lease : UInt8) (ip : Bytes) : Bool :=
  !dropOutbound ip && isBlockedDst (.v4 (patchedDst ip ⟨10, 8, 0, lease⟩))

/-- A blocked destination gets past the filters. -/
def exposed (t : ServerTunnel) : TunnelEvent → Bool
  | .packet ip _ results =>
    match t.onIpOverride, t.nat, t.tun with
    | some lease, _, _ => patchesBlocked lease ip
    | none, none, some b => b.admitsBlocked ip results
    | none, some _, _ => false
    | none, none, none => false
  | .tunWritable results => t.tun.any fun b => leavesBlocked b.format results b.pending
  | _ => false

def NeverExposed (t : ServerTunnel) : List TunnelEvent → Prop
  | [] => True
  | e :: es => exposed t e = false ∧ NeverExposed (t.step e).1 es

/-! ## Every other step keeps it -/

/-- Nothing the outside saw concerns a blocked destination. -/
def Effects.Clean (e : Effects) : Prop :=
  LogGuarded e.nat ∧ ∀ w ∈ e.tun, w.blocked e.format = false

theorem blockedPacket_of_dst {ip : Bytes} {d : Ipv4Addr} (hdst : dstOf ip = some d)
    (hblocked : isBlockedDst (.v4 d) = true) : blockedPacket ip = true := by
  simp [blockedPacket, hdst, hblocked]

theorem blockedPacket_eq_false {ip : Bytes} (h : isBlockedDst (.v4 (octetsAt ip 16)) = false) :
    blockedPacket ip = false := by
  unfold blockedPacket dstOf
  by_cases hip : (decide (ip.length < 20) || ip.getD 0 0 >>> 4 != 4) = true
  · rw [if_pos hip]
    rfl
  · rw [if_neg hip]
    exact h

theorem Effects.Clean.spares {e : Effects} (h : e.Clean) {d : Ipv4Addr}
    (hd : isBlockedDst (.v4 d) = true) : e.Spares d := by
  obtain ⟨⟨htcp, hudp⟩, htun⟩ := h
  have hallowed : ∀ k, Allowed k → k.dst.toIpv4 ≠ d := by
    rintro k hk rfl
    rw [hk] at hd
    cases hd
  refine ⟨fun k hk => hallowed k (htcp k hk), fun k hk => hallowed k (hudp k hk), ?_⟩
  intro w hw hdst
  have hfree := htun w hw
  rw [TunWrite.blocked, blockedPacket_of_dst hdst hd] at hfree
  cases hfree

theorem clean_none : Effects.Clean {} := ⟨⟨fun _ => nofun, fun _ => nofun⟩, nofun⟩

theorem blockedPacket_prefix {l ip : Bytes} (h : l <+: ip) (hfree : blockedPacket ip = false) :
    blockedPacket l = false := by
  obtain ⟨rest, rfl⟩ := h
  unfold blockedPacket dstOf at hfree ⊢
  by_cases hshort : l.length < 20
  · simp [hshort]
  · have hget : ∀ i < 20, (l ++ rest).getD i 0 = l.getD i 0 := by
      intro i hi
      rw [List.getD_eq_getElem?_getD, List.getElem?_append_left (by omega), List.getD_eq_getElem?_getD]
    have hlong : ¬ (l ++ rest).length < 20 := by
      rw [List.length_append]
      omega
    have hdst : octetsAt (l ++ rest) 16 = octetsAt l 16 := by
      simp only [octetsAt]
      rw [hget 16 (by omega), hget 17 (by omega), hget 18 (by omega), hget 19 (by omega)]
    simp only [hget 0 (by omega), hdst, hlong, decide_false, Bool.false_or] at hfree
    simpa only [hshort, decide_false, Bool.false_or] using hfree

theorem unwrapFromWire_take (wire : Bytes) (n : ℕ) (format : TunFormat) :
    unwrapFromWire (wire.take n) format <+: unwrapFromWire wire format := by
  cases format with
  | rawIp => exact List.take_prefix n wire
  | utunAfHeader =>
    simp only [unwrapFromWire]
    split
    · exact List.nil_prefix
    · next hlong =>
      rw [List.length_take] at hlong
      rw [if_neg (by omega), List.drop_take]
      exact List.take_prefix _ _

theorem unwrapFromWire_wrapForWire (ip : Bytes) (format : TunFormat) :
    unwrapFromWire (wrapForWire ip format) format = ip := by
  cases format with
  | rawIp => rfl
  | utunAfHeader =>
    have hlen : (putBe32 (afForIp ip)).length = UTUN_HEADER_LEN := rfl
    simp only [unwrapFromWire, wrapForWire, List.length_append, hlen]
    split
    · next hshort => exact (List.length_eq_zero_iff.mp (by omega)).symm
    · rw [← hlen, List.drop_left]

/-- The queue is drained in order: each entry is written, left as it is, or written in part. -/
theorem drainPending_free {format : TunFormat} {results : List WriteRes} {ps : List TunWrite}
    (h : ∀ w ∈ ps, w.blocked format = false) (hleaves : leavesBlocked format results ps = false) :
    (∀ w ∈ (drainPending results ps).1, w.blocked format = false) ∧
      ∀ w ∈ (drainPending results ps).2, w.blocked format = false := by
  induction results generalizing ps with
  | nil =>
    cases ps with
    | nil => exact ⟨h, nofun⟩
    | cons p ps => exact ⟨h, nofun⟩
  | cons r rs ih =>
    cases ps with
    | nil => exact ⟨h, nofun⟩
    | cons p ps =>
      obtain ⟨hp, hps⟩ := List.forall_mem_cons.mp h
      cases r with
      | ok n =>
        by_cases hn : n ≥ p.wire.length
        · simp only [leavesBlocked, if_pos hn] at hleaves
          obtain ⟨hleft, htaken⟩ := ih hps hleaves
          simp only [drainPending, if_pos hn]
          exact ⟨hleft, List.forall_mem_cons.mpr ⟨hp, htaken⟩⟩
        · simp only [leavesBlocked, if_neg hn] at hleaves
          simp only [drainPending, if_neg hn]
          refine ⟨List.forall_mem_cons.mpr ⟨hleaves, hps⟩, List.forall_mem_singleton.mpr ?_⟩
          exact blockedPacket_prefix (unwrapFromWire_take p.wire n format) hp
      | wouldBlock => exact ⟨h, nofun⟩
      | interrupted => exact ih h hleaves
      | err => exact ⟨h, nofun⟩

theorem gatewayHandler_free {lease : UInt8} {pkt : Bytes} {w : TunWrite}
    (hpatch : patchesBlocked lease pkt = false) (h : w ∈ gatewayHandler lease pkt) :
    w.blocked .rawIp = false := by
  unfold gatewayHandler at h
  split at h
  · cases h
  · next hpass =>
    generalize hr : rewriteV4Src pkt ⟨10, 8, 0, lease⟩ = r at h
    obtain ⟨ok, buf⟩ := r
    simp only at h
    split at h
    · cases h
    · next hok =>
      obtain rfl := List.mem_singleton.mp h
      obtain rfl : ok = true := by simpa using hok
      simp only [patchesBlocked, hpass, Bool.not_false, Bool.true_and, ← octetsAt_rewriteV4Src hr] at hpatch
      exact blockedPacket_eq_false hpatch

/-- The NAT's sessions keep to the policy, and nothing that waits for the TUN reads as a blocked packet. -/
structure Safe (t : ServerTunnel) : Prop where
  nat : ∀ n, t.nat = some n → TableGuarded n.tcp
  tun : ∀ b, t.tun = some b → ∀ w ∈ b.pending, w.blocked b.format = false

theorem inject_free {b : TunBridge} (h : ∀ w ∈ b.pending, w.blocked b.format = false) {ip : Bytes}
    {results : List WriteRes} (hadmits : b.admitsBlocked ip results = false) :
    (∀ w ∈ (b.inject ip results).1.pending, w.blocked b.format = false) ∧
      ∀ w ∈ (b.inject ip results).2, w.blocked b.format = false := by
  unfold TunBridge.inject
  split
  · exact ⟨h, nofun⟩
  · next hroom =>
    unfold TunBridge.admitsBlocked at hadmits
    rw [decide_eq_true (Nat.not_le.mp hroom), Bool.true_and, Bool.or_eq_false_iff] at hadmits
    obtain ⟨hfree, hleaves⟩ := hadmits
    refine drainPending_free (fun w hw => ?_) hleaves
    obtain hw | hw := List.mem_append.mp hw
    · exact h w hw
    · obtain rfl := List.mem_singleton.mp hw
      rwa [TunWrite.blocked, unwrapFromWire_wrapForWire]

theorem TunBridge.inject_format (b : TunBridge) (ip : Bytes) (results : List WriteRes) :
    (b.inject ip results).1.format = b.format := by
  unfold TunBridge.inject
  split <;> rfl

theorem Safe.injectInboundIp {t : ServerTunnel} (h : Safe t) {ip : Bytes} {o : NatOracle}
    {results : List WriteRes} (hexp : exposed t (.packet ip o results) = false) :
    Safe (t.injectInboundIp ip o results).1 ∧ (t.injectInboundIp ip o results).2.Clean := by
  unfold ServerTunnel.injectInboundIp
  unfold exposed at hexp
  split
  · next hover =>
    simp only [hover] at hexp
    exact ⟨h, ⟨clean_none.1, fun _ => gatewayHandler_free hexp⟩⟩
  · next n _ hnat =>
    obtain ⟨htable, hlog⟩ := process_guarded (h.nat n hnat) ip o
    refine ⟨⟨?_, h.tun⟩, hlog, nofun⟩
    rintro n' hn'
    obtain rfl := Option.some.inj hn'
    exact htable
  · next b hover hnat htun =>
    simp only [hover, hnat, htun] at hexp
    obtain ⟨hleft, htaken⟩ := inject_free (h.tun b htun) hexp
    rw [← b.inject_format ip results] at hleft htaken
    refine ⟨⟨h.nat, ?_⟩, clean_none.1, htaken⟩
    rintro b' hb'
    obtain rfl := Option.some.inj hb'
    exact hleft
  · exact ⟨h, clean_none⟩

theorem Safe.startServer {t t' : ServerTunnel} (h : Safe t) (hstart : t.startServer = .ok t') :
    Safe t' := by
  unfold ServerTunnel.startServer at hstart
  split at hstart
  · cases hstart
  · split at hstart
    · cases hstart
    · split at hstart
      · cases hstart
      · obtain rfl := Except.ok.inj hstart
        refine ⟨?_, h.tun⟩
        rintro n hn
        obtain rfl := Option.some.inj hn
        exact fun _ _ => nofun

theorem Safe.attachTun {t t' : ServerTunnel} (h : Safe t) {fd : ℤ} {format : TunFormat}
    (hattach : t.attachTunWithFormat fd format = .ok t') : Safe t' := by
  unfold ServerTunnel.attachTunWithFormat at hattach
  split at hattach
  · cases hattach
  · split at hattach
    · cases hattach
    · split at hattach
      · cases hattach
      · split at hattach
        · cases hattach
        · obtain rfl := Except.ok.inj hattach
          refine ⟨h.nat, ?_⟩
          rintro b hb
          obtain rfl := Option.some.inj hb
          exact nofun

theorem Safe.toOption {t : ServerTunnel} (h : Safe t) {r : Except String ServerTunnel}
    (hr : ∀ t', r = .ok t' → Safe t') : Safe (r.toOption.getD t) := by
  cases r with
  | error e => exact h
  | ok t' => exact hr t' rfl

theorem Safe.step {t : ServerTunnel} (h : Safe t) {e : TunnelEvent} (hexp : exposed t e = false) :
    Safe (t.step e).1 ∧ (t.step e).2.Clean := by
  cases e with
  | connected | register | unregister => exact ⟨⟨h.nat, h.tun⟩, clean_none⟩
  | startServer => exact ⟨h.toOption fun _ => h.startServer, clean_none⟩
  | attachTun fd format => exact ⟨h.toOption fun _ => h.attachTun, clean_none⟩
  | detachTun => exact ⟨⟨h.nat, nofun⟩, clean_none⟩
  | packet ip o results => exact h.injectInboundIp hexp
  | disconnect => exact ⟨⟨nofun, nofun⟩, clean_none⟩
  | tunWritable results =>
    simp only [ServerTunnel.step]
    split
    · rename_i b htun
      have hleaves : leavesBlocked b.format results b.pending = false := by
        simpa only [exposed, htun, Option.any_some] using hexp
      obtain ⟨hleft, htaken⟩ := drainPending_free (h.tun b htun) hleaves
      refine ⟨⟨h.nat, ?_⟩, clean_none.1, htaken⟩
      rintro b' hb'
      obtain rfl := Option.some.inj hb'
      exact hleft
    · exact ⟨h, clean_none⟩
  | host k ev o =>
    simp only [ServerTunnel.step]
    split
    · rename_i n hnat
      refine ⟨⟨?_, h.tun⟩, ⟨fun k' => ?_, fun _ => nofun⟩, nofun⟩
      · rintro n' hn'
        obtain rfl := Option.some.inj hn'
        exact step_guarded (h.nat n hnat) (.host k ev o)
      · exact @tcpActs_allowed _ (h.nat n hnat) k' (.host k ev o)
    · exact ⟨h, clean_none⟩
  | sweep now udpIdleMs grew o =>
    simp only [ServerTunnel.step]
    split
    · rename_i n hnat
      refine ⟨⟨?_, h.tun⟩, ⟨fun k' => ?_, fun _ => nofun⟩, nofun⟩
      · rintro n' hn'
        obtain rfl := Option.some.inj hn'
        exact step_guarded (h.nat n hnat) (.sweep now grew o)
      · exact @tcpActs_allowed _ (h.nat n hnat) k' (.sweep now grew o)
    · exact ⟨h, clean_none⟩

theorem Safe.run {t : ServerTunnel} (h : Safe t) {evs : List TunnelEvent}
    (hnever : NeverExposed t evs) : ∀ e ∈ t.run evs, e.Clean := by
  induction evs generalizing t with
  | nil => exact nofun
  | cons e es ih =>
    obtain ⟨hexp, hrest⟩ := hnever
    obtain ⟨hsafe, hclean⟩ := h.step hexp
    exact List.forall_mem_cons.mpr ⟨hclean, ih hsafe hrest⟩

/-- All routes keep to one policy, but for blocked packets that find the TUN of the session, and for those
that a checksum patch or a short write makes out of others. -/
theorem policy_kept {evs : List TunnelEvent} (h : NeverExposed {} evs) : PolicyKept evs := by
  intro d hblocked e he
  have hsafe : Safe {} := ⟨nofun, nofun⟩
  exact (hsafe.run h e he).spares hblocked

/-- A UDP packet with ports 5000 and 53 and no payload, to `d`. -/
def udpPacketTo (d : Ipv4Addr) : Bytes :=
  (buildUdp 64 ⟨.v4FromBytes 10 8 0 2, d.toIpAddr, 5000, 53, []⟩).getD []

def metadataHost : Ipv4Addr := ⟨169, 254, 169, 254⟩

def packetTo (d : Ipv4Addr) : TunnelEvent := .packet (udpPacketTo d) {} [.ok 1500]

/-- The metadata host behind the NAT and behind the gateway, and `1.1.1.1` behind a TUN. -/
def routedRun : List TunnelEvent :=
  [.connected, .startServer, packetTo metadataHost, .register 7, packetTo metadataHost, .unregister,
    .disconnect, .connected, .attachTun 3 .utunAfHeader, packetTo ⟨1, 1, 1, 1⟩]

theorem policy_kept_routed : PolicyKept routedRun := by
  refine policy_kept ?_
  simp only [routedRun, NeverExposed, packetTo]
  decide +kernel

theorem metadata_host_reached :
    dstOf (udpPacketTo metadataHost) = some metadataHost ∧ isBlockedDst (.v4 metadataHost) = true ∧
      ¬ ∀ e ∈ ServerTunnel.run {} [.connected, .attachTun 3 .rawIp, packetTo metadataHost],
        e.Spares metadataHost := by
  refine ⟨by decide +kernel, by decide, fun h => ?_⟩
  have hspares := h _ (List.mem_cons_of_mem _ (List.mem_cons_of_mem _ List.mem_cons_self))
  exact hspares.tun ⟨udpPacketTo metadataHost, udpPacketTo metadataHost⟩ (by decide +kernel)
    (by decide +kernel)

/-- Behind the gateway: TCP to `169.255.169.254`, with a header length of 0 and the source `10.8.0.2`. -/
example :
    (gatewayHandler 3 [0x40, 0, 0, 20, 0, 0, 0, 0, 64, 6, 0, 0, 10, 8, 0, 2, 169, 255, 169, 254]).map
      (dstOf ·.wire) = [some metadataHost] := by decide +kernel

end BaleVpn.Server
