import BaleVpn.Tcp.Emissions
import BaleVpn.Tcp.SeqArith

/-!
# The retransmit queue covers what is in flight

The entries of `retx` lie end to end from the segment that holds `snd_una` up to `snd_nxt`. Every
data segment enters the queue together with the advance of `snd_nxt`; the SYN-ACK and the FIN
advance `snd_nxt` even when the callback refused them, and then nothing in the queue covers them.
-/

namespace BaleVpn.Tcp

open Net

/-! ## End to end -/

/-- The entries lie end to end from `a` to `b`. -/
def Chain : UInt32 → List OutSeg → UInt32 → Prop
  | a, [], b => a = b
  | a, e :: l, b => e.seq = a ∧ Chain (a + e.span) l b

theorem Chain.append {l l' : List OutSeg} : ∀ {a b : UInt32}, Chain a (l ++ l') b →
    ∃ m, Chain a l m ∧ Chain m l' b := by
  induction l with
  | nil => exact fun h => ⟨_, rfl, h⟩
  | cons e l ih =>
    intro a b h
    obtain ⟨hseq, hrest⟩ := h
    obtain ⟨m, hl, hl'⟩ := ih hrest
    exact ⟨m, ⟨hseq, hl⟩, hl'⟩

theorem Chain.snoc {l : List OutSeg} {e : OutSeg} : ∀ {a b : UInt32}, Chain a l b → e.seq = b →
    Chain a (l ++ [e]) (b + e.span) := by
  induction l with
  | nil =>
    rintro a b rfl hseq
    exact ⟨hseq, rfl⟩
  | cons f l ih =>
    rintro a b ⟨hf, hrest⟩ hseq
    exact ⟨hf, ih hrest hseq⟩

theorem Chain.end_getLast {l : List OutSeg} {e : OutSeg} : ∀ {a b : UInt32}, Chain a l b →
    l.getLast? = some e → e.seq + e.span = b := by
  induction l with
  | nil => exact fun _ h => by cases h
  | cons f l ih =>
    rintro a b ⟨hf, hrest⟩ hlast
    cases l with
    | nil =>
      obtain rfl : f = e := by simpa using hlast
      rw [hf]
      exact hrest
    | cons g l => exact ih hrest (by simpa using hlast)

theorem Chain.next {l : List OutSeg} : ∀ {a b : UInt32} {i : ℕ} {e f : OutSeg}, Chain a l b →
    l[i]? = some e → l[i + 1]? = some f → e.seq + e.span = f.seq := by
  induction l with
  | nil => exact fun _ h => by simp at h
  | cons g l ih =>
    rintro a b i e f ⟨hg, hrest⟩ he hf
    cases i with
    | zero =>
      obtain rfl : g = e := by simpa using he
      cases l with
      | nil => simp at hf
      | cons h l =>
        obtain rfl : h = f := by simpa using hf
        rw [hg, hrest.1]
    | succ i => exact ih hrest (by simpa using he) (by simpa using hf)

/-- Sequence numbers that a list of entries takes. -/
def outstanding (l : List OutSeg) : ℕ := (l.map fun e => e.span.toNat).sum

theorem outstanding_core (l : List OutSeg) : outstanding (l.map OutSeg.core) = outstanding l := by
  unfold outstanding
  rw [List.map_map]
  rfl

theorem Chain.sub_toNat {l : List OutSeg} : ∀ {a b : UInt32}, Chain a l b →
    (b - a).toNat = outstanding l % 2 ^ 32 := by
  induction l with
  | nil =>
    rintro a b rfl
    simp [outstanding]
  | cons e l ih =>
    rintro a b ⟨-, hrest⟩
    have h := ih hrest
    have hsum : outstanding (e :: l) = e.span.toNat + outstanding l := by simp [outstanding]
    rw [UInt32.toNat_sub, UInt32.toNat_add] at h
    rw [hsum, UInt32.toNat_sub]
    have := a.toNat_lt
    have := b.toNat_lt
    have := e.span.toNat_lt
    omega

/-! ## The invariant -/

/-- The queue lies end to end up to `snd_nxt`, and `snd_una` is in its first entry. -/
structure Covered (v : Core) : Prop where
  chain : ∃ a, Chain a v.queue v.send.sndNxt
  small : ∀ e ∈ v.queue, 0 < e.span.toNat ∧ e.span.toNat < 2 ^ 30
  head : ∀ e ∈ v.queue.head?, (v.send.sndUna - e.seq).toNat < e.span.toNat
  idle : v.queue = [] → v.send.sndUna = v.send.sndNxt

theorem ack_in_head {m span ack : UInt32} (hlo : (ack - m).toNat < 2 ^ 31 + span.toNat) (hhi : seqLe (m + span) ack = false) :
    (ack - m).toNat < span.toNat := by
  have hne : ¬ (m + span = ack ∨ 2 ^ 31 ≤ (m + span - ack).toNat) := by
    rw [← seqLe_iff, hhi]
    simp
  obtain ⟨hneq, hlt⟩ := not_or.mp hne
  have hneq' : (m + span).toNat ≠ ack.toNat := fun h => hneq (UInt32.toNat_inj.mp h)
  rw [UInt32.toNat_sub, UInt32.toNat_add] at hlt
  rw [UInt32.toNat_add] at hneq'
  rw [UInt32.toNat_sub] at hlo ⊢
  have := ack.toNat_lt
  have := m.toNat_lt
  omega

theorem Covered.ackIn {v : Core} (hv : Covered v) {ack : UInt32} {popped rest : List OutSeg}
    (hq : v.queue = popped ++ rest) (hhi : seqLt v.send.sndNxt ack = false)
    (hlo : seqLe ack v.send.sndUna = false)
    (hp : ∀ e ∈ popped, seqLe (e.seq + e.span) ack = true)
    (hr : ∀ e ∈ rest.head?, seqLe (e.seq + e.span) ack = false) :
    Covered { v with send.sndUna := ack, queue := rest } := by
  obtain ⟨a, hchain⟩ := hv.chain
  rw [hq] at hchain
  obtain ⟨m, hpop, hrest⟩ := hchain.append
  have hnew : ack ≠ v.send.sndUna ∧ (ack - v.send.sndUna).toNat < 2 ^ 31 := by
    have h : ¬ (ack = v.send.sndUna ∨ 2 ^ 31 ≤ (ack - v.send.sndUna).toNat) := by
      rw [← seqLe_iff, hlo]
      simp
    obtain ⟨hne, hlt⟩ := not_or.mp h
    exact ⟨hne, Nat.not_le.mp hlt⟩
  refine ⟨⟨m, hrest⟩, fun e he => hv.small e (by simp [hq, he]), ?_, ?_⟩
  · intro e he
    obtain ⟨rest', hrest'⟩ : ∃ rest', rest = e :: rest' := by
      cases rest with
      | nil => cases he
      | cons f l => exact ⟨l, by simpa using he⟩
    have hsmall := hv.small e (by simp [hq, hrest'])
    have hm : e.seq = m := by
      rw [hrest'] at hrest
      exact hrest.1
    have hle := hr e he
    rw [hm] at hle ⊢
    -- the ACK is past the start of the first entry left: past the last one popped, or past
    -- `snd_una`, which that entry held before
    apply ack_in_head _ hle
    cases hlast : popped.getLast? with
    | none =>
      obtain rfl : popped = [] := by simpa using hlast
      have hhead := hv.head e (by rw [hq]; exact he)
      rw [hm] at hhead
      have := hnew.2
      rw [UInt32.toNat_sub] at *
      have := ack.toNat_lt
      have := m.toNat_lt
      have := v.send.sndUna.toNat_lt
      omega
    | some f =>
      have hend := hp f (List.mem_of_getLast? hlast)
      rw [hpop.end_getLast hlast, seqLe_iff] at hend
      obtain rfl | hend := hend
      · simp only [UInt32.sub_self, UInt32.toNat_zero]
        omega
      · rw [UInt32.toNat_sub] at *
        have := ack.toNat_lt
        have := m.toNat_lt
        omega
  · rintro rfl
    obtain rfl : m = v.send.sndNxt := hrest
    have hhi' : ¬ 2 ^ 31 ≤ (v.send.sndNxt - ack).toNat := by
      rw [← seqLt_iff, hhi]
      simp
    cases hlast : popped.getLast? with
    | none =>
      obtain rfl : popped = [] := by simpa using hlast
      have hidle := hv.idle (by simpa using hq)
      exfalso
      rw [← hidle] at hhi'
      have hne : ack.toNat ≠ v.send.sndUna.toNat := fun h => hnew.1 (UInt32.toNat_inj.mp h)
      have := hnew.2
      rw [UInt32.toNat_sub] at *
      have := ack.toNat_lt
      have := v.send.sndUna.toNat_lt
      omega
    | some f =>
      have hend := hp f (List.mem_of_getLast? hlast)
      rw [hpop.end_getLast hlast, seqLe_iff] at hend
      exact (hend.resolve_right hhi').symm

theorem Covered.record {v : Core} (hv : Covered v) {e : OutSeg} (hseq : e.seq = v.send.sndNxt)
    (hpos : 0 < e.span.toNat) (hsmall : e.span.toNat < 2 ^ 30) (send : SendVars)
    (huna : send.sndUna = v.send.sndUna) (hnxt : send.sndNxt = v.send.sndNxt + e.span) :
    Covered { v with send := send, queue := v.queue ++ [e] } := by
  obtain ⟨a, hchain⟩ := hv.chain
  refine ⟨⟨a, by rw [hnxt]; exact hchain.snoc hseq⟩, ?_, ?_, by simp⟩
  · intro f hf
    obtain hf | rfl := List.mem_append.mp hf |>.imp id List.mem_singleton.mp
    · exact hv.small f hf
    · exact ⟨hpos, hsmall⟩
  · intro f hf
    simp only [huna]
    cases hq : v.queue with
    | nil =>
      obtain rfl : e = f := by simpa [hq] using hf
      rw [hv.idle hq, hseq, UInt32.sub_self]
      exact hpos
    | cons g l =>
      obtain rfl : g = f := by simpa [hq] using hf
      exact hv.head g (by simp [hq])

theorem Covered.congr {v v' : Core} (hv : Covered v) (hq : v'.queue = v.queue)
    (huna : v'.send.sndUna = v.send.sndUna) (hnxt : v'.send.sndNxt = v.send.sndNxt) :
    Covered v' where
  chain := by rw [hq, hnxt]; exact hv.chain
  small := by rw [hq]; exact hv.small
  head := by rw [hq, huna]; exact hv.head
  idle := by rw [hq, huna, hnxt]; exact hv.idle

theorem fresh_span (seq : UInt32) (flags : UInt8) (data options : Bytes) :
    (OutSeg.fresh seq flags data options).span =
      data.length.toUInt32 + (if hasFlag flags TCP_SYN then 1 else 0) +
        (if hasFlag flags TCP_FIN then 1 else 0) := rfl

theorem fresh_data_span (seq : UInt32) (data : Bytes) :
    (OutSeg.fresh seq (TCP_ACK ||| TCP_PSH) data []).span = data.length.toUInt32 := by
  have hsyn : hasFlag (TCP_ACK ||| TCP_PSH) TCP_SYN = false := by decide
  have hfin : hasFlag (TCP_ACK ||| TCP_PSH) TCP_FIN = false := by decide
  simp [fresh_span, hsyn, hfin]

theorem fresh_fin_span (seq : UInt32) :
    (OutSeg.fresh seq (TCP_FIN ||| TCP_ACK) [] []).span = 1 := by
  rw [fresh_span]
  decide

theorem fresh_syn_span (seq : UInt32) (options : Bytes) :
    (OutSeg.fresh seq (TCP_SYN ||| TCP_ACK) [] options).span = 1 := by
  rw [fresh_span]
  decide

theorem Sender.covered {v v' : View} (h : Sender v v') (hv : Covered v.toCore) :
    Covered v'.toCore := by
  cases h with
  | resend h =>
    rw [h.core]
    exact hv
  | refuse hk hf hb => exact hv
  | @send cause s b pkt chunk d hk hf hb =>
    have hlen : (v.send.next chunk).length = chunk := by
      rw [← hf.snap]
      exact next_length hk
    have hmss := hk.bounds.1
    have hlt := s.peerMss.toNat_lt
    have hspan := fresh_data_span v.send.sndNxt (v.send.next chunk)
    rw [hlen] at hspan
    have hnat : chunk.toUInt32.toNat = chunk := Nat.mod_eq_of_lt (show chunk < 2 ^ 32 by omega)
    refine hv.record rfl ?_ ?_ _ rfl ?_
    · rw [hspan, hnat]
      exact hk.1
    · rw [hspan, hnat]
      omega
    · rw [hspan]
  | ackIn a popped rest hq hhi hlo hp hr => exact hv.ackIn hq hhi hlo hp hr

/-! ## Every run -/

/-- The callback refused a SYN-ACK or a FIN. -/
def Action.losesControl : Action → Bool
  | .emit .synAck _ _ _ ok => !ok
  | .emit .fin _ _ _ ok => !ok
  | _ => false

/-- No SYN-ACK and no FIN was refused. -/
def ControlKept (trace : List Action) : Prop := ∀ a ∈ trace, a.losesControl = false

instance (trace : List Action) : Decidable (ControlKept trace) :=
  inferInstanceAs (Decidable (∀ a ∈ trace, a.losesControl = false))

theorem ControlKept.of_append {t acts : List Action} (h : ControlKept (t ++ acts)) : ControlKept t :=
  fun a ha => h a (List.mem_append_left acts ha)

/-- The invariant of a run. -/
def QueueInv (v : View) : Prop := v.key.IsV4 ∧ (ControlKept v.trace → Covered v.toCore)

theorem fin_lost_refused {v : View} {s : TcpSession} {b : TcpBuild} {acts : List Action}
    (hkey : v.key.IsV4)
    (hf : Framed { v.toCore with send.sentFin := true } (TCP_FIN ||| TCP_ACK) v.send.sndNxt [] [] s b)
    (ha : (buildTcp 1564 b = none ∧ acts = []) ∨
      ∃ pkt, buildTcp 1564 b = some pkt ∧ acts = [.emit .fin s b pkt false]) :
    ¬ ControlKept (v.trace ++ acts) := by
  intro hkept
  obtain ⟨hnone, -⟩ | ⟨pkt, -, rfl⟩ := ha
  · obtain ⟨pkt, hpkt⟩ := hf.builds hkey rfl (by simp)
    rw [hnone] at hpkt
    cases hpkt
  · have := hkept (.emit .fin s b pkt false) (by simp)
    cases this

theorem Micro.queueInv {v v' : View} (h : Micro v v') (hv : QueueInv v) : QueueInv v' := by
  obtain ⟨hkey, hcov⟩ := hv
  cases h with
  | sender h =>
    refine ⟨by rw [h.frame.key]; exact hkey, fun hkept => h.covered (hcov ?_)⟩
    obtain ⟨acts, hacts, -⟩ := h.adds
    rw [hacts] at hkept
    exact hkept.of_append
  | finLost acts hs he hd hf ha =>
    exact ⟨hkey, fun hkept => absurd hkept (fin_lost_refused hkey hf ha)⟩
  | fin d hs he hd hf hb =>
    refine ⟨hkey, fun hkept => ?_⟩
    have hspan := fresh_fin_span v.send.sndNxt
    have hrec := (hcov hkept.of_append).record
      (e := .fresh v.send.sndNxt (TCP_FIN ||| TCP_ACK) [] [])
      rfl (by rw [hspan]; decide) (by rw [hspan]; decide)
      { v.send with sentFin := true, sndNxt := v.send.sndNxt + 1 } rfl (by rw [hspan])
    exact hrec.congr rfl rfl rfl
  | read data hh hd =>
    have hpush : (v.send.push data).sndUna = v.send.sndUna ∧
        (v.send.push data).sndNxt = v.send.sndNxt := by
      unfold SendVars.push
      split <;> exact ⟨rfl, rfl⟩
    exact ⟨hkey, fun hkept => (hcov hkept.of_append).congr rfl hpush.1 hpush.2⟩
  | clear h => exact ⟨hkey, fun hkept => (hcov hkept).congr rfl rfl rfl⟩
  | eof a ha => exact ⟨hkey, fun hkept => (hcov hkept.of_append).congr rfl rfl rfl⟩
  | openHost _ _ => exact ⟨hkey, fun hkept => (hcov hkept.of_append).congr rfl rfl rfl⟩
  | shutdownWr => exact ⟨hkey, fun hkept => (hcov hkept.of_append).congr rfl rfl rfl⟩
  | pause | window | establish | finIn | settle =>
    exact ⟨hkey, fun hkept => (hcov hkept).congr rfl rfl rfl⟩

theorem HostStep.queueInv {x y : Obs} (h : HostStep x y) (hx : QueueInv x.view) :
    QueueInv y.view := by
  have hframe := h.frame
  obtain ⟨acts, hacts, -⟩ := h.adds
  refine ⟨by rw [show y.view.key = x.view.key from hframe.key]; exact hx.1, fun hkept => ?_⟩
  rw [show y.view.trace = x.view.trace ++ acts from hacts] at hkept
  have hq : y.s.core.queue = x.s.core.queue := congrArg (List.map OutSeg.core) hframe.retx
  exact (hx.2 hkept.of_append).congr hq (congrArg SendVars.sndUna hframe.send)
    (congrArg SendVars.sndNxt hframe.send)

theorem queueInv_stable : Stable QueueInv where
  micro := Micro.queueInv
  wake _ hv := ⟨hv.1, fun hkept => (hv.2 hkept).congr rfl rfl rfl⟩
  host := HostStep.queueInv
  rst _ _ _ hx := ⟨hx.1, fun hkept => hx.2 hkept.of_append⟩
  closed _ hx := ⟨hx.1, fun hkept => (hx.2 hkept.of_append).congr rfl rfl rfl⟩
  timeWait _ _ _ hv := ⟨hv.1, fun hkept => (hv.2 hkept.of_append).congr rfl rfl rfl⟩

theorem Started.queueInv {key : FlowKey} (hkey : key.IsV4) {v : View} (h : Started key v) :
    QueueInv v := by
  cases h with
  | lost acts d hp ho hf ha =>
    refine ⟨hkey, fun hkept => ?_⟩
    obtain ⟨hnone, -⟩ | ⟨pkt, -, rfl⟩ := ha
    · obtain ⟨pkt, hpkt⟩ := hf.builds hkey ho.2 (by have := ho.1; simp; omega)
      rw [hnone] at hpkt
      cases hpkt
    · have := hkept (.emit .synAck _ _ pkt false) (List.mem_append_left _ (List.mem_singleton.mpr rfl))
      cases this
  | @sent isn _ _ _ opts _ _ _ d d' hp ho hf hb =>
    have hspan := fresh_syn_span isn opts
    refine ⟨hkey, fun _ => ⟨⟨isn, rfl, ?_⟩, ?_, ?_, by simp⟩⟩
    · exact congrArg (isn + ·) hspan
    · simp [hspan]
    · intro e he
      obtain rfl : OutSeg.fresh isn (TCP_SYN ||| TCP_ACK) [] opts = e := by simpa using he
      rw [hspan]
      show (isn - isn).toNat < 1
      rw [UInt32.sub_self]
      decide

/-! ## The property -/

/-- The retransmit queue covers everything in flight. -/
structure RetxCovers (s : TcpSession) : Prop where
  contiguous : ∀ i e f, s.retx[i]? = some e → s.retx[i + 1]? = some f → e.seq + e.span = f.seq
  last : ∀ e ∈ s.retx.getLast?, e.seq + e.span = s.sndNxt
  first : ∀ e ∈ s.retx.head?, (s.sndUna - e.seq).toNat < e.span.toNat
  empty : s.retx = [] ↔ s.sndUna = s.sndNxt

theorem Covered.retxCovers {s : TcpSession} (h : Covered s.core) (hout : outstanding s.retx < 2 ^ 32) :
    RetxCovers s := by
  obtain ⟨a, hchain⟩ := h.chain
  have hget : ∀ (i : ℕ) (e : OutSeg), s.retx[i]? = some e → s.core.queue[i]? = some e.core := by
    intro i e he
    simp only [TcpSession.core, List.getElem?_map, he, Option.map_some]
  have hhead : ∀ e : OutSeg, e ∈ s.retx.head? → e.core ∈ s.core.queue.head? := by
    intro e he
    simp only [TcpSession.core, List.head?_map, Option.mem_def.mp he, Option.map_some, Option.mem_def]
  refine ⟨fun i e f he hf =>
    hchain.next (e := e.core) (f := f.core) (hget _ _ he) (hget _ _ hf), ?_, ?_, ?_⟩
  · intro e he
    refine hchain.end_getLast (e := e.core) ?_
    simp only [TcpSession.core, List.getLast?_map, Option.mem_def.mp he, Option.map_some]
  · exact fun e he => h.head e.core (hhead e he)
  · refine ⟨fun hnil => h.idle (congrArg (List.map OutSeg.core) hnil), fun heq => ?_⟩
    -- a non-empty queue leaves a positive number, below a full circle, between the two
    cases hq : s.retx with
    | nil => rfl
    | cons e l =>
      exfalso
      have hfirst := h.head e.core (hhead e (by simp [hq]))
      have hqueue : s.core.queue = e.core :: l.map OutSeg.core := congrArg (List.map OutSeg.core) hq
      have hspan := hchain.sub_toNat
      rw [hqueue] at hchain hspan
      have hseq : e.core.seq = a := hchain.1
      have hsum : outstanding (e.core :: l.map OutSeg.core) = outstanding s.retx := by
        rw [hq]
        exact outstanding_core (e :: l)
      have hge : e.core.span.toNat ≤ outstanding (e.core :: l.map OutSeg.core) := by
        simp [outstanding]
      have hune : s.core.send.sndUna = s.core.send.sndNxt := heq
      rw [hsum, Nat.mod_eq_of_lt hout] at hspan
      rw [hsum] at hge
      rw [hseq, hune] at hfirst
      omega

/-- In every run whose SYN-ACK and FIN the callback took, and with less than a full circle of
sequence numbers outstanding, the queue covers everything in flight. -/
theorem retx_covers_flight {key : FlowKey} {c : Ctx} (h : Reachable key c)
    (hkept : ControlKept c.io.trace) (hout : outstanding c.s.retx < 2 ^ 32) : RetxCovers c.s := by
  obtain ⟨c₀, inputs, h₀, rfl⟩ := h
  have hinv := queueInv_stable.run (h₀.started.queueInv h₀.1) inputs
  exact (hinv.2 hkept).retxCovers hout

/-- A session with data of the host in flight. -/
def inFlight : Ctx :=
  (sampleStart 1000 []).run
    [sampleAck 1000, ⟨.host { isReadable := true }, { reads := [.ok [1, 2, 3]] }⟩]

theorem retx_covers_in_flight : inFlight.s.retx.length = 1 ∧ RetxCovers inFlight.s :=
  ⟨by decide +kernel, retx_covers_flight ((sampleStart_accepted _ _ (by decide)).reachable _)
    (by decide +kernel) (by decide +kernel)⟩

/-- The callback refuses the SYN-ACK: nothing will resend it. -/
def refusedStart : Ctx :=
  start sampleKey (clientSegment sampleKey TCP_SYN 100 0 1000 [] []) { accept := fun _ => false }

theorem retx_misses_refused_syn_ack :
    ¬ ∀ (key : FlowKey) (c : Ctx), Reachable key c → c.s.state ≠ .closed → RetxCovers c.s := by
  intro hall
  have hreach : Reachable sampleKey refusedStart :=
    ⟨refusedStart, [], ⟨by decide, _, _, rfl, by decide⟩, rfl⟩
  have hempty := (hall _ _ hreach (by decide)).empty
  exact absurd (hempty.mp (by decide)) (by decide)

end BaleVpn.Tcp
