import BaleVpn.Lib.Machine
import Mathlib.Data.List.Infix
import Mathlib.Data.List.Nodup

/-!
# Event fan-out (`lk-signaling/src/lib.rs`)

`EventsSink`: the senders of all subscribers in one list under a lock. `emit` goes over the list with
`retain`, which sends to each and drops the senders whose receiver is gone; `subscribe` waits for the lock.
A receiver reads and is dropped at any time, in the middle of a pass too. The clones of a sink share the
list, so a move does not say which of them made it.
-/

namespace BaleVpn.Signaling

open Lib

variable {E : Type}

/-- The receiving end of an unbounded channel. -/
structure Receiver (E : Type) where
  /-- Sent and not yet read. -/
  queue : List E := []
  /-- Read so far. -/
  got : List E := []
  dropped : Bool := false
  /-- How many emits had taken effect when it subscribed. -/
  since : ℕ

/-- All that was sent to it. -/
def Receiver.sent (r : Receiver E) : List E := r.got ++ r.queue

/-- The pass of an `emit` that holds the lock. -/
structure Pass (E : Type) where
  ev : E
  todo : List ℕ
  kept : List ℕ := []

/-- A sink and its receivers, which the senders in `subs` name by their index. -/
structure EventsSink (E : Type) where
  subs : List ℕ := []
  pass : Option (Pass E) := none
  receivers : List (Receiver E) := []
  /-- The events, in the order in which their emits took the lock. -/
  log : List E := []

namespace EventsSink

inductive Move (E : Type)
  | subscribe
  | emit (ev : E)
  /-- The pass goes on: to the next sender, or to its end and out of the lock. -/
  | retain
  | recv (id : ℕ)
  | drop (id : ℕ)

/-- `tx.send(ev.clone()).is_ok()`: what is left of the pass and of the receiver. -/
def sendTo (p : Pass E) (id : ℕ) (rest : List ℕ) (r : Receiver E) : Pass E × Receiver E :=
  if r.dropped then ({ p with todo := rest }, r)
  else ({ p with todo := rest, kept := p.kept ++ [id] }, { r with queue := r.queue ++ [p.ev] })

/-- One move. One that has to wait for the lock, or has nothing to do, leaves the sink as it is. -/
def step (s : EventsSink E) : Move E → EventsSink E
  | .subscribe =>
    match s.pass with
    | some _ => s
    | none =>
      { s with
        subs := s.subs ++ [s.receivers.length]
        receivers := s.receivers ++ [{ since := s.log.length }] }
  | .emit ev =>
    match s.pass with
    | some _ => s
    | none => { s with pass := some { ev, todo := s.subs }, log := s.log ++ [ev] }
  | .retain =>
    match s.pass with
    | none => s
    | some p =>
      match p.todo with
      | [] => { s with subs := p.kept, pass := none }
      | id :: rest =>
        match s.receivers[id]? with
        | none => s
        | some r =>
          { s with
            pass := some (sendTo p id rest r).1
            receivers := s.receivers.set id (sendTo p id rest r).2 }
  | .recv id =>
    { s with receivers := s.receivers.modify id fun r =>
        match r.queue with
        | [] => r
        | ev :: queue => { r with queue, got := r.got ++ [ev] } }
  | .drop id => { s with receivers := s.receivers.modify id fun r => { r with dropped := true, queue := [] } }

def run (ms : List (Move E)) : EventsSink E := ms.foldl step {}

/-! ## What was sent -/

/-- The senders that are left, and those the pass has not come to yet. -/
def senders (s : EventsSink E) : List ℕ :=
  match s.pass with
  | none => s.subs
  | some p => p.kept ++ p.todo

def todo (s : EventsSink E) : List ℕ :=
  match s.pass with
  | none => []
  | some p => p.todo

/-- The events that went to every receiver the pass has come to, the current one among them, and those
that went to the others. -/
def reached (s : EventsSink E) (id : ℕ) : List E := if id ∈ s.todo then s.log.dropLast else s.log

/-- The receiver `r` has been sent what it should have by now: everything since it subscribed, or, once it
is dropped, a first part of it. -/
structure Served (s : EventsSink E) (id : ℕ) (r : Receiver E) : Prop where
  since : r.since ≤ (s.reached id).length
  live : r.dropped = false → id ∈ s.senders ∧ r.sent = (s.reached id).drop r.since
  order : r.sent <+: (s.reached id).drop r.since

structure Inv (s : EventsSink E) : Prop where
  nodup : s.senders.Nodup
  known : ∀ id ∈ s.senders, id < s.receivers.length
  last : ∀ p, s.pass = some p → s.log.getLast? = some p.ev
  served : ∀ id r, s.receivers[id]? = some r → s.Served id r

variable {s s' : EventsSink E}

theorem Served.mono {id : ℕ} {r : Receiver E} (h : s.Served id r)
    (hreached : s.reached id <+: s'.reached id)
    (hlive : r.dropped = false → s'.reached id = s.reached id ∧ id ∈ s'.senders) :
    s'.Served id r := by
  refine ⟨Nat.le_trans h.since hreached.length_le, ?_, h.order.trans (hreached.drop r.since)⟩
  intro hr
  rw [(hlive hr).1]
  exact ⟨(hlive hr).2, (h.live hr).2⟩

theorem reached_idle (h : s.pass = none) (id : ℕ) : s.reached id = s.log := by
  simp [reached, todo, h]

theorem senders_idle (h : s.pass = none) : s.senders = s.subs := by
  simp [senders, h]

theorem Inv.init : Inv ({} : EventsSink E) where
  nodup := List.nodup_nil
  known _ h := by simp [senders] at h
  last _ h := by cases h
  served _ _ h := by simp at h

theorem Inv.subscribe (h : Inv s) : Inv (s.step .subscribe) := by
  cases hpass : s.pass with
  | some p =>
    have hstep : s.step .subscribe = s := by simp only [step, hpass]
    rwa [hstep]
  | none =>
    have hsenders := senders_idle hpass
    have hnodup := h.nodup
    have hknown := h.known
    rw [hsenders] at hnodup hknown
    obtain ⟨s', hstep, hpass'⟩ : ∃ s', s.step .subscribe = s' ∧ s'.pass = none :=
      ⟨_, rfl, by simp [step, hpass]⟩
    have hsubs : s'.subs = s.subs ++ [s.receivers.length] := by simp [← hstep, step, hpass]
    have hlog : s'.log = s.log := by simp [← hstep, step, hpass]
    have hall : s'.receivers = s.receivers ++ [{ since := s.log.length }] := by
      simp [← hstep, step, hpass]
    have hsenders' := senders_idle hpass'
    rw [hstep]
    constructor
    case nodup =>
      rw [hsenders', hsubs]
      refine List.nodup_append.mpr ⟨hnodup, List.nodup_singleton _, ?_⟩
      intro id hid _ hnew heq
      have hlt := hknown id hid
      rw [heq, List.mem_singleton.mp hnew] at hlt
      omega
    case known =>
      intro id hid
      rw [hsenders', hsubs] at hid
      rw [hall, List.length_append, List.length_singleton]
      rcases List.mem_append.mp hid with hid | hid
      · have hlt := hknown id hid
        omega
      · rw [List.mem_singleton.mp hid]
        omega
    case last =>
      intro p hp
      rw [hpass'] at hp
      cases hp
    case served =>
      intro id r hr
      rw [hall] at hr
      by_cases hlt : id < s.receivers.length
      · rw [List.getElem?_append_left hlt] at hr
        have hserved := h.served id r hr
        refine hserved.mono ?_ fun hlive => ⟨?_, ?_⟩
        · rw [reached_idle hpass, reached_idle hpass', hlog]
        · rw [reached_idle hpass, reached_idle hpass', hlog]
        · have hmem := (hserved.live hlive).1
          rw [hsenders] at hmem
          rw [hsenders', hsubs]
          exact List.mem_append_left _ hmem
      · rw [List.getElem?_append_right (by omega), List.getElem?_singleton] at hr
        split at hr
        · obtain rfl := Option.some.inj hr
          have hid : id = s.receivers.length := by omega
          have hdrop : s.log.drop s.log.length = [] := List.drop_length
          refine ⟨?_, fun _ => ⟨?_, ?_⟩, List.nil_prefix⟩
          · rw [reached_idle hpass', hlog]
          · rw [hsenders', hsubs, hid]
            simp
          · rw [reached_idle hpass', hlog, hdrop]
            rfl
        · cases hr

theorem Inv.emit (h : Inv s) (ev : E) : Inv (s.step (.emit ev)) := by
  cases hpass : s.pass with
  | some p =>
    have hstep : s.step (.emit ev) = s := by simp only [step, hpass]
    rwa [hstep]
  | none =>
    have hsenders := senders_idle hpass
    have hstep : s.step (.emit ev) =
        { s with pass := some { ev, todo := s.subs }, log := s.log ++ [ev] } := by
      simp only [step, hpass]
    rw [hstep]
    constructor
    case nodup => exact hsenders ▸ h.nodup
    case known => exact fun id hid => h.known id (hsenders ▸ hid)
    case last =>
      intro p hp
      obtain rfl := Option.some.inj hp
      exact List.getLast?_concat
    case served =>
      intro id r hr
      have hserved := h.served id r hr
      have hreached : ({ s with pass := some { ev, todo := s.subs }, log := s.log ++ [ev] } :
          EventsSink E).reached id = if id ∈ s.subs then s.log else s.log ++ [ev] := by
        simp [reached, todo]
      refine hserved.mono ?_ fun hlive => ?_
      · rw [reached_idle hpass, hreached]
        split
        · exact List.prefix_rfl
        · exact List.prefix_append _ _
      · have hmem := (hserved.live hlive).1
        rw [hsenders] at hmem
        refine ⟨?_, hmem⟩
        rw [reached_idle hpass, hreached, if_pos hmem]

theorem Inv.release (h : Inv s) {ev : E} {kept : List ℕ} (hpass : s.pass = some ⟨ev, [], kept⟩) :
    Inv { s with subs := kept, pass := none } := by
  have hsenders : s.senders = kept := by simp [senders, hpass]
  have hreached : ∀ id, s.reached id = s.log := fun id => by simp [reached, todo, hpass]
  constructor
  case nodup => exact hsenders ▸ h.nodup
  case known => exact fun id hid => h.known id (hsenders ▸ hid)
  case last => exact fun _ hp => by cases hp
  case served =>
    intro id r hr
    have hserved := h.served id r hr
    refine hserved.mono ?_ fun hlive => ⟨?_, hsenders ▸ (hserved.live hlive).1⟩
    · rw [hreached, reached_idle rfl]
    · rw [hreached, reached_idle rfl]

/-- What is left of the pass once it has been at the sender `id`. -/
structure Passed (s s' : EventsSink E) (id : ℕ) (ev : E) (rest : List ℕ) : Prop where
  todo : s.todo = id :: rest
  log : s'.log = s.log
  last : s.log.getLast? = some ev
  pass : ∃ kept, s'.pass = some ⟨ev, rest, kept⟩

theorem Passed.reached_self {id : ℕ} {ev : E} {rest : List ℕ} (h : Passed s s' id ev rest)
    (hid : id ∉ rest) : s.reached id = s.log.dropLast ∧ s'.reached id = s.log.dropLast ++ [ev] := by
  obtain ⟨kept, hpass⟩ := h.pass
  have htodo' : s'.todo = rest := by simp [EventsSink.todo, hpass]
  unfold reached
  rw [h.todo, htodo', if_pos (List.mem_cons_self ..), if_neg hid, h.log]
  exact ⟨rfl, (List.dropLast_append_getLast? ev h.last).symm⟩

theorem Passed.reached_ne {id x : ℕ} {ev : E} {rest : List ℕ} (h : Passed s s' id ev rest)
    (hx : x ≠ id) : s'.reached x = s.reached x := by
  obtain ⟨kept, hpass⟩ := h.pass
  have htodo' : s'.todo = rest := by simp [EventsSink.todo, hpass]
  unfold reached
  rw [h.todo, htodo', h.log]
  simp [hx]

theorem Inv.send (h : Inv s) {ev : E} {id : ℕ} {rest kept : List ℕ} {r : Receiver E}
    (hpass : s.pass = some ⟨ev, id :: rest, kept⟩) (hr : s.receivers[id]? = some r)
    (hlive : r.dropped = false) :
    Inv { s with
      pass := some ⟨ev, rest, kept ++ [id]⟩
      receivers := s.receivers.set id { r with queue := r.queue ++ [ev] } } := by
  have hsenders : s.senders = kept ++ id :: rest := by simp [senders, hpass]
  obtain ⟨s', hs'⟩ : ∃ s' : EventsSink E, { s with
      pass := some ⟨ev, rest, kept ++ [id]⟩
      receivers := s.receivers.set id { r with queue := r.queue ++ [ev] } } = s' := ⟨_, rfl⟩
  have hsenders' : s'.senders = s.senders := by simp [← hs', senders, hpass]
  have hpassed : Passed s s' id ev rest :=
    ⟨by simp [todo, hpass], by rw [← hs'], h.last _ hpass, kept ++ [id], by rw [← hs']⟩
  have hnot : id ∉ rest := by
    have hnodup := h.nodup
    rw [hsenders] at hnodup
    exact (List.nodup_cons.mp (List.nodup_append.mp hnodup).2.1).1
  have hlt := h.known id (by simp [hsenders])
  have hserved := h.served id r hr
  obtain ⟨hold, hnew⟩ := hpassed.reached_self hnot
  rw [hs']
  constructor
  case nodup => rw [hsenders']; exact h.nodup
  case known =>
    rw [hsenders', ← hs']
    simpa using h.known
  case last =>
    intro p hp
    rw [← hs'] at hp ⊢
    obtain rfl := Option.some.inj hp
    exact hpassed.last
  case served =>
    intro x r' hr'
    rw [← hs'] at hr'
    by_cases hx : x = id
    · subst hx
      obtain rfl : { r with queue := r.queue ++ [ev] } = r' := by
        simpa [List.getElem?_set_self hlt] using hr'
      have hsent : r.got ++ (r.queue ++ [ev]) = (s.log.dropLast ++ [ev]).drop r.since := by
        have hlen := hserved.since
        rw [hold] at hlen
        rw [List.drop_append_of_le_length hlen, ← List.append_assoc, ← hold, ← (hserved.live hlive).2]
        rfl
      refine ⟨?_, fun _ => ⟨?_, ?_⟩, ?_⟩
      · have hlen := hserved.since
        rw [hold] at hlen
        show r.since ≤ _
        rw [hnew, List.length_append]
        omega
      · rw [hsenders']
        exact (hserved.live hlive).1
      · rw [hnew]
        exact hsent
      · rw [hnew, ← hsent]
        exact List.prefix_rfl
    · rw [List.getElem?_set_ne (Ne.symm hx)] at hr'
      have hserved' := h.served x r' hr'
      refine hserved'.mono ?_ fun hr => ⟨hpassed.reached_ne hx, ?_⟩
      · rw [hpassed.reached_ne hx]
      · rw [hsenders']
        exact (hserved'.live hr).1

theorem Inv.prune (h : Inv s) {ev : E} {id : ℕ} {rest kept : List ℕ} {r : Receiver E}
    (hpass : s.pass = some ⟨ev, id :: rest, kept⟩) (hr : s.receivers[id]? = some r)
    (hdropped : r.dropped = true) : Inv { s with pass := some ⟨ev, rest, kept⟩ } := by
  have hsenders : s.senders = kept ++ id :: rest := by simp [senders, hpass]
  obtain ⟨s', hs'⟩ : ∃ s' : EventsSink E, { s with pass := some ⟨ev, rest, kept⟩ } = s' := ⟨_, rfl⟩
  have hsenders' : s'.senders = kept ++ rest := by simp [← hs', senders]
  have hall : s'.receivers = s.receivers := by rw [← hs']
  have hpassed : Passed s s' id ev rest :=
    ⟨by simp [todo, hpass], by rw [← hs'], h.last _ hpass, kept, by rw [← hs']⟩
  have hsub : s'.senders.Sublist s.senders := by
    rw [hsenders, hsenders']
    exact (List.Sublist.refl kept).append (List.sublist_cons_self id rest)
  have hnot : id ∉ rest := by
    have hnodup := h.nodup
    rw [hsenders] at hnodup
    exact (List.nodup_cons.mp (List.nodup_append.mp hnodup).2.1).1
  rw [hs']
  constructor
  case nodup => exact h.nodup.sublist hsub
  case known => exact fun x hx => hall ▸ h.known x (hsub.subset hx)
  case last =>
    intro p hp
    rw [← hs'] at hp ⊢
    obtain rfl := Option.some.inj hp
    exact hpassed.last
  case served =>
    intro x r' hr'
    rw [hall] at hr'
    have hserved' := h.served x r' hr'
    by_cases hx : x = id
    · subst hx
      obtain rfl := Option.some.inj (hr.symm.trans hr')
      obtain ⟨hold, hnew⟩ := hpassed.reached_self hnot
      refine hserved'.mono ?_ fun hlive => ?_
      · rw [hold, hnew]
        exact List.prefix_append _ _
      · rw [hdropped] at hlive
        cases hlive
    · refine hserved'.mono ?_ fun hlive => ⟨hpassed.reached_ne hx, ?_⟩
      · rw [hpassed.reached_ne hx]
      · have hmem := (hserved'.live hlive).1
        rw [hsenders] at hmem
        rw [hsenders']
        simpa [hx] using hmem

theorem Inv.retain (h : Inv s) : Inv (s.step .retain) := by
  cases hpass : s.pass with
  | none =>
    have hstep : s.step .retain = s := by simp only [step, hpass]
    rwa [hstep]
  | some p =>
    obtain ⟨ev, todo', kept⟩ := p
    cases todo' with
    | nil =>
      have hstep : s.step .retain = { s with subs := kept, pass := none } := by simp only [step, hpass]
      rw [hstep]
      exact h.release hpass
    | cons id rest =>
      have hlt := h.known id (by simp [senders, hpass])
      obtain ⟨r, hr⟩ : ∃ r, s.receivers[id]? = some r := ⟨_, List.getElem?_eq_getElem hlt⟩
      have hstep : s.step .retain = { s with
          pass := some (sendTo ⟨ev, id :: rest, kept⟩ id rest r).1
          receivers := s.receivers.set id (sendTo ⟨ev, id :: rest, kept⟩ id rest r).2 } := by
        simp only [step, hpass, hr]
      rw [hstep]
      by_cases hdropped : r.dropped = true
      · have hsent : sendTo ⟨ev, id :: rest, kept⟩ id rest r = (⟨ev, rest, kept⟩, r) := if_pos hdropped
        have hsame : s.receivers.set id r = s.receivers := by
          obtain ⟨_, rfl⟩ := List.getElem?_eq_some_iff.mp hr
          exact List.set_getElem_self _
        rw [hsent, hsame]
        exact h.prune hpass hr hdropped
      · have hsent : sendTo ⟨ev, id :: rest, kept⟩ id rest r =
            (⟨ev, rest, kept ++ [id]⟩, { r with queue := r.queue ++ [ev] }) := if_neg hdropped
        rw [hsent]
        exact h.send hpass hr (Bool.eq_false_iff.mpr hdropped)

theorem Inv.modify (h : Inv s) (id : ℕ) (f : Receiver E → Receiver E)
    (hf : ∀ r, (f r).since = r.since ∧ (f r).sent <+: r.sent ∧
      ((f r).dropped = false → r.dropped = false ∧ (f r).sent = r.sent)) :
    Inv { s with receivers := s.receivers.modify id f } := by
  have hkept : ∀ r x, s.Served x r → Served { s with receivers := s.receivers.modify id f } x (f r) := by
    intro r x hserved
    obtain ⟨hsince, hprefix, hlive⟩ := hf r
    refine ⟨?_, fun hr => ?_, ?_⟩
    · rw [hsince]
      exact hserved.since
    · obtain ⟨hold, hsent⟩ := hlive hr
      rw [hsent, hsince]
      exact hserved.live hold
    · rw [hsince]
      exact hprefix.trans hserved.order
  constructor
  case nodup => exact h.nodup
  case known =>
    intro x hx
    rw [List.length_modify]
    exact h.known x hx
  case last => exact h.last
  case served =>
    intro x r hr
    rw [List.getElem?_modify] at hr
    obtain ⟨r', hr', hmap⟩ := Option.map_eq_some_iff.mp hr
    subst hmap
    split
    · exact hkept r' x (h.served x r' hr')
    · have hserved := h.served x r' hr'
      exact ⟨hserved.since, hserved.live, hserved.order⟩

theorem Inv.step (h : Inv s) (m : Move E) : Inv (s.step m) := by
  cases m with
  | subscribe => exact h.subscribe
  | emit ev => exact h.emit ev
  | retain => exact h.retain
  | recv id =>
    refine h.modify id _ fun r => ?_
    split
    · exact ⟨rfl, List.prefix_rfl, fun hr => ⟨hr, rfl⟩⟩
    · rename_i ev queue hqueue
      have hsent : r.got ++ [ev] ++ queue = r.sent := by simp [Receiver.sent, hqueue]
      refine ⟨rfl, ?_, fun hr => ⟨hr, hsent⟩⟩
      show r.got ++ [ev] ++ queue <+: r.sent
      rw [hsent]
  | drop id =>
    refine h.modify id _ fun r => ⟨rfl, ?_, fun hr => by cases hr⟩
    show r.got ++ [] <+: r.got ++ r.queue
    rw [List.append_nil]
    exact List.prefix_append _ _

theorem inv_run (ms : List (Move E)) : Inv (run ms) :=
  foldl_invariant (fun _ m h => h.step m) ms Inv.init

/-! ## The emits that take effect -/

/-- The event of a move that is an emit and gets the lock. -/
def effect (s : EventsSink E) : Move E → List E
  | .emit ev => if s.pass.isNone then [ev] else []
  | _ => []

def emits (s : EventsSink E) : List (Move E) → List E
  | [] => []
  | m :: ms => s.effect m ++ emits (s.step m) ms

theorem log_step (s : EventsSink E) (m : Move E) : (s.step m).log = s.log ++ s.effect m := by
  cases hpass : s.pass with
  | none => cases m <;> simp [step, effect, hpass]
  | some p =>
    cases m with
    | retain =>
      simp only [step, effect, hpass, List.append_nil]
      split
      · rfl
      · split <;> rfl
    | _ => simp [step, effect, hpass]

theorem log_foldl (ms : List (Move E)) (s : EventsSink E) :
    (ms.foldl step s).log = s.log ++ s.emits ms := by
  induction ms generalizing s with
  | nil => simp [emits]
  | cons m ms ih => rw [List.foldl_cons, ih, log_step, emits, List.append_assoc]

/-- The receiver `id` subscribed after `n` emits. -/
def Since (n id : ℕ) (s : EventsSink E) : Prop := ∃ r, s.receivers[id]? = some r ∧ r.since = n

theorem Since.congr {n id : ℕ} (h : s.Since n id) (hsame : s'.receivers = s.receivers) :
    s'.Since n id := by
  obtain ⟨r, hr, hsince⟩ := h
  exact ⟨r, by rw [hsame, hr], hsince⟩

theorem Since.modify {n id : ℕ} (h : s.Since n id) (x : ℕ) (f : Receiver E → Receiver E)
    (hf : ∀ r, (f r).since = r.since) : Since n id { s with receivers := s.receivers.modify x f } := by
  obtain ⟨r, hr, hsince⟩ := h
  refine ⟨if x = id then f r else r, ?_, ?_⟩
  · rw [List.getElem?_modify, hr]
    rfl
  · split
    · rw [hf, hsince]
    · exact hsince

theorem Since.retain {n id : ℕ} (h : s.Since n id) : Since n id (s.step .retain) := by
  cases hpass : s.pass with
  | none => simpa only [EventsSink.step, hpass] using h
  | some p =>
    simp only [EventsSink.step, hpass]
    split
    · exact h.congr rfl
    · rename_i x rest htodo
      split
      · exact h
      · rename_i r' hr'
        obtain ⟨r, hr, hsince⟩ := h
        by_cases hx : x = id
        · subst hx
          obtain rfl := Option.some.inj (hr.symm.trans hr')
          have hlt : x < s.receivers.length := (List.getElem?_eq_some_iff.mp hr).1
          refine ⟨_, List.getElem?_set_self hlt, ?_⟩
          unfold sendTo
          split <;> exact hsince
        · exact ⟨r, by rw [List.getElem?_set_ne hx, hr], hsince⟩

theorem Since.step {n id : ℕ} (h : s.Since n id) (m : Move E) : Since n id (s.step m) := by
  cases m with
  | subscribe =>
    cases hpass : s.pass with
    | some p => simpa only [EventsSink.step, hpass] using h
    | none =>
      obtain ⟨r, hr, hsince⟩ := h
      have hlt : id < s.receivers.length := (List.getElem?_eq_some_iff.mp hr).1
      simp only [EventsSink.step, hpass]
      exact ⟨r, by rw [List.getElem?_append_left hlt, hr], hsince⟩
  | emit ev =>
    apply h.congr
    cases hpass : s.pass <;> simp only [EventsSink.step, hpass]
  | retain => exact h.retain
  | recv x => exact h.modify x _ fun r => by split <;> rfl
  | drop x => exact h.modify x _ fun r => rfl

/-! ## The ends of the passes -/

/-- How many moves the pass still takes. -/
def left (s : EventsSink E) : ℕ :=
  match s.pass with
  | none => 0
  | some p => p.todo.length + 1

theorem Inv.left_retain (h : Inv s) : (s.step .retain).left = s.left - 1 := by
  cases hpass : s.pass with
  | none => simp [EventsSink.step, left, hpass]
  | some p =>
    cases htodo : p.todo with
    | nil => simp [EventsSink.step, left, hpass, htodo]
    | cons id rest =>
      have hlt := h.known id (by simp [senders, hpass, htodo])
      have hrest : ∀ r : Receiver E, (sendTo p id rest r).1.todo = rest := by
        intro r
        unfold sendTo
        split <;> rfl
      simp [EventsSink.step, left, hpass, htodo, List.getElem?_eq_getElem hlt, hrest]

/-- Left to itself, a pass comes to its end. -/
theorem Inv.pass_ends (h : Inv s) {n : ℕ} (hn : s.left ≤ n) :
    ((List.replicate n Move.retain).foldl EventsSink.step s).pass = none := by
  induction n generalizing s with
  | zero =>
    unfold left at hn
    split at hn
    · assumption
    · omega
  | succ n ih =>
    rw [List.replicate_succ, List.foldl_cons]
    apply ih h.retain
    have hleft := h.left_retain
    omega

/-! ## Lossless and in order -/

/-- What the receiver `id`, to which the events `due` were emitted, has been sent. -/
structure Delivered (s : EventsSink E) (id : ℕ) (due : List E) : Prop where
  sent : ∀ r, s.receivers[id]? = some r → r.sent <+: due
  live : ∀ r, s.receivers[id]? = some r → r.dropped = false →
    match s.pass with
    | none => r.sent = due
    | some p => if id ∈ p.todo then r.sent ++ [p.ev] = due else r.sent = due

/-- The receivers `x` and `y` were sent the events they share in one order. -/
def Agree (s : EventsSink E) (x y : ℕ) : Prop :=
  ∀ r r', s.receivers[x]? = some r → s.receivers[y]? = some r' → r.since ≤ r'.since →
    r.sent.drop (r'.since - r.since) <+: r'.sent ∨ r'.sent <+: r.sent.drop (r'.since - r.since)

theorem Inv.delivered (h : Inv s) {id n : ℕ} (hsince : s.Since n id) :
    s.Delivered id (s.log.drop n) := by
  obtain ⟨r, hr, rfl⟩ := hsince
  have hserved := h.served id r hr
  have hsame : ∀ r', s.receivers[id]? = some r' → r' = r := by
    intro r' hr'
    exact Option.some.inj (hr'.symm.trans hr)
  have hprefix : s.reached id <+: s.log := by
    unfold reached
    split
    · exact List.dropLast_prefix _
    · exact List.prefix_rfl
  constructor
  case sent =>
    intro r' hr'
    rw [hsame r' hr']
    exact hserved.order.trans (List.IsPrefix.drop hprefix r.since)
  case live =>
    intro r' hr' hlive
    rw [hsame r' hr'] at hlive ⊢
    have hsent := (hserved.live hlive).2
    cases hpass : s.pass with
    | none => rw [hsent, reached_idle hpass]
    | some p =>
      have htodo : s.todo = p.todo := by simp [todo, hpass]
      rw [reached, htodo] at hsent
      have hlen := hserved.since
      rw [reached, htodo] at hlen
      show if id ∈ p.todo then r.sent ++ [p.ev] = _ else r.sent = _
      by_cases hmem : id ∈ p.todo
      · rw [if_pos hmem] at hsent hlen ⊢
        calc r.sent ++ [p.ev] = s.log.dropLast.drop r.since ++ [p.ev] := by rw [hsent]
          _ = (s.log.dropLast ++ [p.ev]).drop r.since := (List.drop_append_of_le_length hlen).symm
          _ = s.log.drop r.since := by rw [List.dropLast_append_getLast? p.ev (h.last p hpass)]
      · rw [if_neg hmem] at hsent ⊢
        exact hsent

theorem Inv.agree (h : Inv s) (x y : ℕ) : s.Agree x y := by
  intro r r' hr hr' hle
  have hx := (h.delivered ⟨r, hr, rfl⟩).sent r hr
  have hy := (h.delivered ⟨r', hr', rfl⟩).sent r' hr'
  have hshared := hx.drop (r'.since - r.since)
  rw [List.drop_drop, Nat.add_sub_cancel' hle] at hshared
  exact List.prefix_or_prefix_of_prefix hshared hy

/-- The receiver that subscribes after the moves `before` gets what is emitted during `after`. -/
theorem subscriber_delivered (before after : List (Move E)) (hidle : (run before).pass = none) :
    (run (before ++ .subscribe :: after)).Delivered (run before).receivers.length
      ((run (before ++ [Move.subscribe])).emits after) := by
  have hsplit : run (before ++ .subscribe :: after) =
      after.foldl step (run (before ++ [Move.subscribe])) := by simp [run]
  have hsub : run (before ++ [Move.subscribe]) = (run before).step .subscribe := by simp [run]
  have hlog : (run (before ++ [Move.subscribe])).log = (run before).log := by
    rw [hsub]
    simp only [step, hidle]
  have hsince : Since (run before).log.length (run before).receivers.length
      (run (before ++ .subscribe :: after)) := by
    rw [hsplit]
    refine foldl_invariant (I := Since _ _) (fun _ m h => h.step m) after ?_
    rw [hsub]
    simp only [step, hidle]
    exact ⟨{ since := (run before).log.length }, by simp, rfl⟩
  have hdelivered := (inv_run (before ++ .subscribe :: after)).delivered hsince
  have hdue : (run (before ++ .subscribe :: after)).log.drop (run before).log.length =
      (run (before ++ [Move.subscribe])).emits after := by
    rw [hsplit, log_foldl, hlog, List.drop_left]
  rwa [hdue] at hdelivered

/-- The fan-out serves the receiver `id` with `due` and is fair to all. -/
structure FanOut (s : EventsSink E) (id : ℕ) (due : List E) : Prop where
  delivered : s.Delivered id due
  order : ∀ x y, s.Agree x y
  drop : ∀ x y, y ≠ x → (s.step (.drop x)).receivers[y]? = s.receivers[y]?
  pass : ∀ x, (s.step (.drop x)).subs = s.subs ∧ (s.step (.drop x)).pass = s.pass
  ends : ((List.replicate s.left Move.retain).foldl step s).pass = none

/-- Whatever the others do, a receiver is sent what was emitted since it subscribed, in order. -/
theorem fan_out_lossless (before after : List (Move E)) (hidle : (run before).pass = none) :
    (run (before ++ .subscribe :: after)).FanOut (run before).receivers.length
      ((run (before ++ [Move.subscribe])).emits after) where
  delivered := subscriber_delivered before after hidle
  order := (inv_run _).agree
  drop x y hne := by
    show (List.modify _ x _)[y]? = _
    simp [Ne.symm hne]
  pass _ := ⟨rfl, rfl⟩
  ends := (inv_run _).pass_ends (Nat.le_refl _)

/-- One receiver goes in the middle of the pass that has not come to it. -/
theorem fan_out_lossless_dropped :
    (run ([Move.subscribe] ++ Move.subscribe :: [.emit 'a', .drop 0, .retain, .retain, .emit 'b', .retain,
      .recv 1])).FanOut 1 ['a'] :=
  fan_out_lossless [.subscribe] _ rfl

end EventsSink

end BaleVpn.Signaling
