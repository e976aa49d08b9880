import DmaBurst.Proofs.Worker.ReceiveBurst
import Mathlib

namespace DmaBurst

/-- What happens to a worker and to the ring that it drains: polls, with the shutdown flags as they
are at the time, and packets that the hardware delivers. -/
inductive StreamOp where
  | poll (flags : List Bool)
  | push (data header : Bytes) (flags : UInt16)

def Poll.moved : Except (Halt WorkerError) Poll → Nat
  | .ok (.progress packets) => packets
  | _ => 0

def PacketRing.retiredTo (r r' : PacketRing) : List Packet :=
  r.contents.take (r'.tail - r.tail).toNat

namespace RxWorker

variable {σ : Type} [ByteSink σ]

def stream : List StreamOp → RxWorker σ → PacketRing → RxWorker σ × PacketRing
  | [], w, r => (w, r)
  | .poll flags :: ops, w, r => stream ops (w.poll flags r).2.1 (w.poll flags r).2.2
  | .push data header flags :: ops, w, r => stream ops w (r.push data header flags).2

def answers : List StreamOp → RxWorker σ → PacketRing → List (Except (Halt WorkerError) Poll)
  | [], _, _ => []
  | .poll flags :: ops, w, r =>
    (w.poll flags r).1 :: answers ops (w.poll flags r).2.1 (w.poll flags r).2.2
  | .push data header flags :: ops, w, r => answers ops w (r.push data header flags).2

def retired : List StreamOp → RxWorker σ → PacketRing → List Packet
  | [], _, _ => []
  | .poll flags :: ops, w, r =>
    r.retiredTo (w.poll flags r).2.2 ++ retired ops (w.poll flags r).2.1 (w.poll flags r).2.2
  | .push data header flags :: ops, w, r => retired ops w (r.push data header flags).2

open LawfulSink

variable [LawfulSink σ] {w w' w'' : RxWorker σ} {r : PacketRing} {packets packets' : List Packet}

/-- The books of a worker agree that it has moved these packets from its ring to its sink. -/
structure Moved (w w' : RxWorker σ) (packets : List Packet) : Prop where
  stored_eq : stored w'.sink = stored w.sink ++ (packets.map Packet.data).flatten
  remaining_eq : w.budget.remaining - w'.budget.remaining = packets.length
  packets_eq : w'.queue.stats.packets = w.queue.stats.packets + packets.length
  bytes_eq : w'.queue.stats.bytes =
    w.queue.stats.bytes + (packets.map Packet.data).flatten.length
  acquires_eq : w'.queue.stats.acquires + w.polls = w.queue.stats.acquires + w'.polls
  releases_eq : w'.queue.stats.releases + w.polls = w.queue.stats.releases + w'.polls
  batchSize_eq : w'.batchSize = w.batchSize
  id_eq : w'.queue.id = w.queue.id

namespace Moved

theorem refl (w : RxWorker σ) : w.Moved w [] := by
  constructor <;> simp

theorem trans (h : w.Moved w' packets) (h' : w'.Moved w'' packets') :
    w.Moved w'' (packets ++ packets') := by
  have hr := h.remaining_eq
  have hr' := h'.remaining_eq
  have ha := h.acquires_eq
  have ha' := h'.acquires_eq
  have hl := h.releases_eq
  have hl' := h'.releases_eq
  refine ⟨?_, ?_, ?_, ?_, by omega, by omega, h'.batchSize_eq.trans h.batchSize_eq,
    h'.id_eq.trans h.id_eq⟩
  · rw [h'.stored_eq, h.stored_eq, List.map_append, List.flatten_append, List.append_assoc]
  · rw [List.length_append]
    omega
  · rw [h'.packets_eq, h.packets_eq, List.length_append, Nat.add_assoc]
  · rw [h'.bytes_eq, h.bytes_eq, List.map_append, List.flatten_append, List.length_append,
      Nat.add_assoc]

end Moved

namespace Steady

omit [ByteSink σ] [LawfulSink σ] in
theorem served (h : w.Steady r) (hw : w'.queue = w.served r) :
    w'.Steady (r.takeOff w.batchSize) := by
  refine ⟨?_, ?_, h.sound.takeOff _, h.fits.takeOff _⟩
  · rw [hw]
    exact ⟨h.ready.started, h.ready.bound, rfl⟩
  · rw [hw]
    exact h.direction_eq

omit [ByteSink σ] [LawfulSink σ] in
theorem push (h : w.Steady r) (data header : Bytes) (flags : UInt16) :
    w.Steady (r.push data header flags).2 :=
  ⟨h.ready, h.direction_eq, h.sound.push data header flags, h.fits.push data header flags⟩

omit [ByteSink σ] [LawfulSink σ] in
theorem retiredTo_takeOff (h : w.Steady r) : r.retiredTo (r.takeOff w.batchSize) = w.due r := by
  have hlt : (w.due r).length < 2 ^ 64 := by
    obtain ⟨c, hc⟩ := h.sound
    exact Nat.lt_of_le_of_lt h.length_due_le hc.capacity_lt
  have htail : ((r.takeOff w.batchSize).tail - r.tail).toNat = (w.due r).length := by
    rw [PacketRing.takeOff_tail, h.length_due, UInt64.add_comm, UInt64.add_sub_cancel,
      UInt64.toNat_ofNat', Nat.mod_eq_of_lt hlt]
  rw [PacketRing.retiredTo, htail, due, List.length_take, ← List.take_take, List.take_length]

omit [ByteSink σ] [LawfulSink σ] in
theorem retiredTo_self (r : PacketRing) : r.retiredTo r = [] := by
  simp [PacketRing.retiredTo]

end Steady

omit [LawfulSink σ] in
theorem poll_cases (flags : List Bool) (w : RxWorker σ) (r : PacketRing) :
    (∃ status, w.poll flags r = (.ok (.done status), { w with finished := some status }, r)) ∨
      (w.poll flags r = w.burst r ∧ 0 < w.budget.remaining) := by
  rw [poll]
  cases hf : w.finished with
  | some status =>
    obtain ⟨queue, sink, budget, batchSize, maxPolls, polls, backoff, finished⟩ := w
    cases hf
    exact .inl ⟨status, rfl⟩
  | none =>
    cases hv : w.verdict flags with
    | some status => exact .inl ⟨status, rfl⟩
    | none =>
      refine .inr ⟨rfl, ?_⟩
      by_contra hn
      rw [verdict, Budget.isMet, if_pos (decide_eq_true (Int.not_lt.mp hn))] at hv
      cases hv

theorem moved_of_written {s : σ}
    (hw : writeEach ((w.due r).map Packet.data) w.sink = (.ok (), s)) {budget : Budget}
    (hb : budget.remaining = w.budget.remaining - (w.due r).length) (backoff : Backoff) :
    w.Moved { w with polls := w.polls + 1, queue := w.served r, sink := s, budget, backoff }
      (w.due r) := by
  obtain ⟨p, -, hs, hall⟩ := writeEach_stored hw
  refine ⟨by rw [hs, hall rfl], ?_, rfl, rfl, ?_, ?_, rfl, rfl⟩
  · simp only [hb]
    omega
  · exact Nat.add_right_comm _ _ _
  · exact Nat.add_right_comm _ _ _

namespace Steady

omit [ByteSink σ] [LawfulSink σ] in
theorem length_due_fits (h : w.Steady r) (hcap : (r.capacity : Int) ≤ budgetMax) :
    ((w.due r).length : Int) ≤ budgetMax := by
  have := h.length_due_le
  omega

theorem poll_moved (h : w.Steady r) (hcap : (r.capacity : Int) ≤ budgetMax) (flags : List Bool)
    {answer : Poll} (hok : (w.poll flags r).1 = .ok answer) :
    w.Moved (w.poll flags r).2.1 (r.retiredTo (w.poll flags r).2.2) ∧
      Poll.moved (w.poll flags r).1 = (r.retiredTo (w.poll flags r).2.2).length ∧
      (w.poll flags r).2.1.Steady (w.poll flags r).2.2 ∧
      (w.poll flags r).2.2.capacity = r.capacity ∧
      (-(w.batchSize : Int) < w.budget.remaining →
        -(w.batchSize : Int) < (w.poll flags r).2.1.budget.remaining) := by
  obtain ⟨status, hp⟩ | ⟨hp, hpos⟩ := poll_cases flags w r
  · rw [hp, retiredTo_self]
    refine ⟨?_, rfl, ⟨h.ready, h.direction_eq, h.sound, h.fits⟩, rfl, id⟩
    constructor <;> simp
  · rw [hp] at hok ⊢
    obtain ⟨written, s, hw⟩ : ∃ written s,
        writeEach ((w.due r).map Packet.data) w.sink = (written, s) := ⟨_, _, rfl⟩
    cases written with
    | error e =>
      rw [h.burst_of_refused hw] at hok
      cases hok
    | ok done =>
      obtain ⟨backoff, hburst⟩ := h.burst_of_written hw (h.length_due_fits hcap) hpos
      rw [hburst, h.retiredTo_takeOff]
      refine ⟨moved_of_written hw rfl backoff, ?_, h.served rfl, ?_, fun _ => ?_⟩
      · by_cases hz : (w.due r).length = 0
        · rw [if_pos hz, hz, Poll.moved]
          exact fun packets hn => by cases hn
        · rw [if_neg hz, Poll.moved]
      · rw [PacketRing.capacity, PacketRing.takeOff_slots, PacketRing.capacity]
      · have hdue : (w.due r).length ≤ w.batchSize := List.length_take_le _ _
        dsimp only
        omega

theorem poll_accepts (h : w.Steady r) (hcap : (r.capacity : Int) ≤ budgetMax) (flags : List Bool)
    (ha : accepts w.sink) :
    (∃ answer, (w.poll flags r).1 = .ok answer) ∧ accepts (w.poll flags r).2.1.sink := by
  obtain ⟨status, hp⟩ | ⟨hp, hpos⟩ := poll_cases flags w r
  · rw [hp]
    exact ⟨⟨_, rfl⟩, ha⟩
  · obtain ⟨hok, ha'⟩ := writeEach_accepts ha ((w.due r).map Packet.data)
    obtain ⟨backoff, hburst⟩ :=
      h.burst_of_written (Prod.ext hok rfl) (h.length_due_fits hcap) hpos
    rw [hp, hburst]
    exact ⟨⟨_, rfl⟩, ha'⟩

theorem stream_accepts (h : w.Steady r) (hcap : (r.capacity : Int) ≤ budgetMax)
    (ha : accepts w.sink) (ops : List StreamOp) :
    ∀ answer ∈ answers ops w r, ∃ p, answer = .ok p := by
  induction ops generalizing w r with
  | nil =>
    intro answer hm
    cases hm
  | cons op ops ih =>
    cases op with
    | poll flags =>
      obtain ⟨⟨p, hok⟩, ha'⟩ := h.poll_accepts hcap flags ha
      obtain ⟨-, -, hs, hc, -⟩ := h.poll_moved hcap flags hok
      intro answer hm
      rw [answers] at hm
      cases hm with
      | head => exact ⟨p, hok⟩
      | tail _ hm => exact ih hs (hc.symm ▸ hcap) ha' answer hm
    | push data header flags =>
      exact ih (h.push data header flags) (by rwa [PacketRing.capacity_push]) ha

theorem stream_moved (h : w.Steady r) (hcap : (r.capacity : Int) ≤ budgetMax) (ops : List StreamOp)
    (hok : ∀ answer ∈ answers ops w r, ∃ p, answer = .ok p) :
    w.Moved (stream ops w r).1 (retired ops w r) ∧
      ((answers ops w r).map Poll.moved).sum = (retired ops w r).length ∧
      (stream ops w r).1.Steady (stream ops w r).2 ∧
      (-(w.batchSize : Int) < w.budget.remaining →
        -(w.batchSize : Int) < (stream ops w r).1.budget.remaining) := by
  induction ops generalizing w r with
  | nil => exact ⟨.refl w, rfl, h, id⟩
  | cons op ops ih =>
    cases op with
    | poll flags =>
      obtain ⟨p, hp⟩ := hok _ List.mem_cons_self
      obtain ⟨hm, hcount, hs, hc, hpos⟩ := h.poll_moved hcap flags hp
      obtain ⟨hm', hcount', hs', hpos'⟩ := ih hs (hc.symm ▸ hcap) fun answer hn =>
        hok answer (List.mem_cons_of_mem _ hn)
      refine ⟨hm.trans hm', ?_, hs', fun hlt => ?_⟩
      · rw [answers, retired, List.map_cons, List.sum_cons, hcount, hcount', List.length_append]
      · rw [hm.batchSize_eq] at hpos'
        exact hpos' (hpos hlt)
    | push data header flags =>
      exact ih (h.push data header flags) (by rwa [PacketRing.capacity_push]) hok

end Steady

/-- What a worker has stored are the payloads of the packets that it has handed back, in order. When
the sink fails in the middle of a burst, a part of it from its front is stored, and all of it has
been handed back. -/
theorem stream_accounts (h : w.Steady r) (hcap : (r.capacity : Int) ≤ budgetMax) {b : Int}
    (hb : 1 ≤ b) (hbatch : 1 ≤ w.batchSize) (hbudget : w.budget = .new b) (hpolls : w.polls = 0)
    (ops : List StreamOp) :
    (accepts w.sink → ∀ answer ∈ answers ops w r, ∃ p, answer = .ok p) ∧
    ((∀ answer ∈ answers ops w r, ∃ p, answer = .ok p) → ∃ w' r', stream ops w r = (w', r') ∧
      stored w'.sink = stored w.sink ++ ((retired ops w r).map Packet.data).flatten ∧
      b - w'.budget.remaining = ((answers ops w r).map Poll.moved).sum ∧
      w'.queue.stats.packets =
        w.queue.stats.packets + ((answers ops w r).map Poll.moved).sum ∧
      w'.queue.stats.bytes + (stored w.sink).length =
        w.queue.stats.bytes + (stored w'.sink).length ∧
      w'.queue.stats.acquires = w.queue.stats.acquires + w'.polls ∧
      w'.queue.stats.releases = w.queue.stats.releases + w'.polls ∧
      -(w.batchSize : Int) < w'.budget.remaining ∧
      ∀ flags e s, w'.finished = none → w'.verdict flags = none →
        writeEach ((w'.due r').map Packet.data) w'.sink = (.error (.refused e), s) →
        ∃ w'' r'' part, w'.poll flags r' =
            (.error (.refused (.sink w.queue.id e)), w'', r'') ∧
          stored w''.sink =
            stored w.sink ++ ((retired ops w r).map Packet.data).flatten ++ part ∧
          part <+: ((w'.due r').map Packet.data).flatten ∧
          r'.retiredTo r'' = w'.due r' ∧ r''.contents = r'.contents.drop (w'.due r').length ∧
          w''.queue.channel.window = none ∧
          w''.queue.stats.acquires = w'.queue.stats.acquires + 1 ∧
          w''.queue.stats.releases = w'.queue.stats.releases + 1 ∧
          w''.queue.stats.packets = w'.queue.stats.packets + (w'.due r').length ∧
          w''.queue.stats.bytes =
            w'.queue.stats.bytes + ((w'.due r').map Packet.data).flatten.length ∧
          w''.budget = w'.budget) := by
  refine ⟨fun ha => h.stream_accepts hcap ha ops, fun hok => ?_⟩
  obtain ⟨hm, hcount, hs, hpos⟩ := h.stream_moved hcap ops hok
  have hr := hm.remaining_eq
  have ha := hm.acquires_eq
  have hl := hm.releases_eq
  have hbytes := hm.bytes_eq
  have hrem : w.budget.remaining = b := by rw [hbudget]; rfl
  rw [hrem] at hr hpos
  rw [hpolls] at ha hl
  refine ⟨_, _, rfl, hm.stored_eq, by rw [hcount, hr], by rw [hcount, hm.packets_eq], ?_, ha, hl,
    hpos (by omega), fun flags e s hf hv hw => ?_⟩
  · rw [hm.stored_eq, List.length_append]
    omega
  · have hp : (stream ops w r).1.poll flags (stream ops w r).2 =
        (stream ops w r).1.burst (stream ops w r).2 := by
      rw [poll, hf]
      simp only [hv]
    obtain ⟨part, hpart, hstored, -⟩ := writeEach_stored hw
    have hburst := hs.burst_of_refused hw
    rw [Halt.map, hm.id_eq] at hburst
    refine ⟨_, _, part, hp.trans hburst, ?_, hpart, hs.retiredTo_takeOff, ?_, rfl, rfl, rfl, rfl,
      rfl, rfl⟩
    · rw [← hm.stored_eq]
      exact hstored
    · rw [hs.sound.contents_takeOff, due, List.length_take]
      by_cases hlen : (stream ops w r).1.batchSize ≤ (stream ops w r).2.contents.length
      · rw [Nat.min_eq_left hlen]
      · rw [List.drop_eq_nil_of_le (by omega), List.drop_eq_nil_of_le (by omega)]

def startedQueue : Queue where
  id := ⟨.rx, 0⟩
  state := .started
  channel := { id := ⟨.rx, 0⟩, started := true }

/-- A worker whose sink takes two bytes at a time, is interrupted now and then, and is full after
five bytes. -/
def shortSinkWorker : RxWorker ScriptedSink where
  queue := startedQueue
  sink := { chunk := some 2, interrupt := some 3, failAt := some 5 }
  budget := .new 10
  batchSize := 2

def shortSinkRing : PacketRing where
  slots := Array.replicate 3 (Slot.blank 4 0)
  head := 0
  tail := 0
  cachedTail := 0
  cachedHead := 0
  reserved := 0
  exposed := 0
  slots_pos := by simp

def shortSinkOps : List StreamOp :=
  [.push [1, 2, 3] [] 0, .poll [], .poll [false], .push [4, 5, 6] [] 0, .push [7] [] 0]

theorem steady_shortSinkWorker : shortSinkWorker.Steady shortSinkRing := by
  obtain ⟨r, hr, -, hshow⟩ :=
    PacketRing.shows_create (show 0 < 3 by decide) (by decide) 4 0
  have hring : r = shortSinkRing := by
    cases hr
    rfl
  subst hring
  exact ⟨⟨rfl, rfl, rfl⟩, rfl, ⟨_, hshow.stands⟩, ⟨4, 0, hshow.fits⟩⟩

theorem shortSinkWorker_accounts :
    (∀ answer ∈ answers shortSinkOps shortSinkWorker shortSinkRing, ∃ p, answer = .ok p) ∧
      ∃ v s u t, stream shortSinkOps shortSinkWorker shortSinkRing = (v, s) ∧
        stored v.sink =
          ((retired shortSinkOps shortSinkWorker shortSinkRing).map Packet.data).flatten ∧
        v.poll [] s = (.error (.refused (.sink ⟨.rx, 0⟩ (.other "disk full"))), u, t) ∧
        u.budget = v.budget := by
  have hok : answers shortSinkOps shortSinkWorker shortSinkRing =
      [.ok (.progress 1), .ok .idle] := by cbv
  have hall : ∀ answer ∈ answers shortSinkOps shortSinkWorker shortSinkRing,
      ∃ p, answer = .ok p := by
    rw [hok]
    simp
  obtain ⟨-, haccounts⟩ := stream_accounts steady_shortSinkWorker (by decide) (b := 10) (by decide)
    (by decide) rfl rfl shortSinkOps
  obtain ⟨v, s, hstream, hstored, -, -, -, -, -, -, hfail⟩ := haccounts hall
  refine ⟨hall, v, s, ?_⟩
  obtain ⟨rfl, rfl⟩ := Prod.ext_iff.mp hstream
  have hwrite : (writeEach (((stream shortSinkOps shortSinkWorker shortSinkRing).1.due
      (stream shortSinkOps shortSinkWorker shortSinkRing).2).map Packet.data)
      (stream shortSinkOps shortSinkWorker shortSinkRing).1.sink).1 =
        .error (.refused (.other "disk full")) := by cbv
  obtain ⟨u, t, -, hpoll, -, -, -, -, -, -, -, -, -, hbudget⟩ :=
    hfail [] (.other "disk full") _ (by cbv) (by cbv) (Prod.ext hwrite rfl)
  exact ⟨u, t, rfl, hstored, hpoll, hbudget⟩

end RxWorker

end DmaBurst
