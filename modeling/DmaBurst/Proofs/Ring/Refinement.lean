import DmaBurst.Proofs.Ring.Fifo
import DmaBurst.Proofs.Ring.Turning

namespace DmaBurst

/-- What the two ends of a ring can do: reserve, edit, inspect, publish and push on the writing end,
peek, view, retire and pop on the reading end. -/
inductive RingOp where
  | reserve (max : Nat)
  | edit (offset : Nat) (change : SlotEdit)
  | inspect (offset : Nat)
  | publish (count : Nat)
  | push (data header : Bytes) (flags : UInt16)
  | peek (max : Nat)
  | view (offset : Nat)
  | retire (count : Nat)
  | pop

inductive RingAnswer where
  | done
  | full
  | count (n : Nat)
  | slot (s : Slot)
  | packet (p : Packet)
  | popped (p : Option Packet)
  | fault (f : Fault)

namespace RingOp

def settle (r : PacketRing) : Except Fault PacketRing → RingAnswer × PacketRing
  | .ok r' => (.done, r')
  | .error e => (.fault e, r)

def answerOf {α : Type} (answer : α → RingAnswer) : Except Fault α → RingAnswer
  | .ok a => answer a
  | .error e => .fault e

def run : RingOp → PacketRing → RingAnswer × PacketRing
  | .reserve max, r => (.count (r.reserve max).1, (r.reserve max).2)
  | .edit offset change, r => settle r (r.editReserved offset change.apply)
  | .inspect offset, r => (answerOf .slot (r.reservedSlot offset), r)
  | .publish count, r => settle r (r.publish count)
  | .push data header flags, r =>
    (if (r.push data header flags).1 then .done else .full, (r.push data header flags).2)
  | .peek max, r => (.count (r.peek max).1, (r.peek max).2)
  | .view offset, r => (answerOf (.packet ·.packet) (r.exposedSlot offset), r)
  | .retire count, r => settle r (r.retire count)
  | .pop, r => (.popped r.pop.1, r.pop.2)

def published : RingOp → PacketRing → Nat
  | .publish count, r => if count ≤ r.reserved then count else 0
  | .push data header flags, r => if (r.push data header flags).1 then 1 else 0
  | _, _ => 0

end RingOp

namespace PacketRing

def runAll : List RingOp → PacketRing → List RingAnswer × PacketRing
  | [], r => ([], r)
  | op :: ops, r =>
    let (answer, r) := op.run r
    let (answers, r) := runAll ops r
    (answer :: answers, r)

def publishedIn : List RingOp → PacketRing → Nat
  | [], _ => 0
  | op :: ops, r => op.published r + publishedIn ops (op.run r).2

/-- How many slots a run has handed to the writer at most, counting all that are published and
those of the reservation at the time. -/
def handedOut : List RingOp → PacketRing → Nat
  | [], r => r.reserved
  | op :: ops, r => max r.reserved (op.published r + handedOut ops (op.run r).2)

end PacketRing

namespace Fifo

/-- The whole behaviour of the queue. Only what the bytes of newly reserved slots are is left
open. -/
inductive Step (f : Fifo) : RingOp → RingAnswer → Fifo → Prop where
  | reserve (max : Nat) (slots : List Slot)
      (hlen : slots.length = min (f.capacity - f.queue.length) max)
      (hslots : ∀ s ∈ slots, s.IsCleared ∧ s.Fits f.dataSize f.headerSize) :
      Step f (.reserve max) (.count slots.length) { f with reservation := slots }
  | edit (offset : Nat) (change : SlotEdit) (h : offset < f.reservation.length) :
      Step f (.edit offset change) .done
        { f with reservation := f.reservation.modify offset change.apply }
  | editOutside (offset : Nat) (change : SlotEdit) (h : f.reservation.length ≤ offset) :
      Step f (.edit offset change)
        (.fault (.outsideReservation offset f.reservation.length)) f
  | inspect (offset : Nat) (h : offset < f.reservation.length) :
      Step f (.inspect offset) (.slot f.reservation[offset]) f
  | inspectOutside (offset : Nat) (h : f.reservation.length ≤ offset) :
      Step f (.inspect offset) (.fault (.outsideReservation offset f.reservation.length)) f
  | publish (count : Nat) (h : count ≤ f.reservation.length) :
      Step f (.publish count) .done { f with
        queue := f.queue ++ (f.reservation.take count).map Slot.packet
        reservation := [] }
  | publishOver (count : Nat) (h : f.reservation.length < count) :
      Step f (.publish count) (.fault (.overPublish count f.reservation.length)) f
  | push (data header : Bytes) (flags : UInt16) (h : f.queue.length < f.capacity) :
      Step f (.push data header flags) .done { f with
        queue := f.queue ++ [⟨data.take f.dataSize, header.take f.headerSize, flags⟩]
        reservation := [] }
  | pushFull (data header : Bytes) (flags : UInt16) (h : f.queue.length = f.capacity) :
      Step f (.push data header flags) .full { f with reservation := [] }
  | peek (max : Nat) :
      Step f (.peek max) (.count (min f.queue.length max))
        { f with exposed := min f.queue.length max }
  | view (offset : Nat) (h : offset < f.exposed) (hq : offset < f.queue.length) :
      Step f (.view offset) (.packet f.queue[offset]) f
  | viewOutside (offset : Nat) (h : f.exposed ≤ offset) :
      Step f (.view offset) (.fault (.outsideWindow offset f.exposed)) f
  | retire (count : Nat) (h : count ≤ f.exposed) :
      Step f (.retire count) .done { f with queue := f.queue.drop count, exposed := 0 }
  | retireOver (count : Nat) (h : f.exposed < count) :
      Step f (.retire count) (.fault (.overRetire count f.exposed)) f
  | pop (p : Packet) (rest : List Packet) (h : f.queue = p :: rest) :
      Step f .pop (.popped (some p)) { f with queue := rest, exposed := 0 }
  | popEmpty (h : f.queue = []) :
      Step f .pop (.popped none) { f with exposed := 0 }

theorem Step.capacity_eq {f g : Fifo} {op : RingOp} {answer : RingAnswer}
    (h : Step f op answer g) : g.capacity = f.capacity := by
  cases h <;> rfl

inductive Run : Fifo → List RingOp → List RingAnswer → Fifo → Prop where
  | nil (f : Fifo) : Run f [] [] f
  | cons {f g e : Fifo} {op : RingOp} {ops : List RingOp} {answer : RingAnswer}
      {answers : List RingAnswer} : Step f op answer g → Run g ops answers e →
      Run f (op :: ops) (answer :: answers) e

theorem Run.capacity_eq {f g : Fifo} {ops : List RingOp} {answers : List RingAnswer}
    (h : Run f ops answers g) : g.capacity = f.capacity := by
  induction h with
  | nil f => rfl
  | cons hstep _ ih => exact ih.trans hstep.capacity_eq

end Fifo

namespace PacketRing

variable {r : PacketRing} {c : Counts} {f : Fifo} {bound : Nat}

/-- Each operation on the ring is a step of the queue that it shows. -/
theorem Shows.step (h : r.Shows c f) (op : RingOp) (ha : Addresses r.capacity bound)
    (hpre : c.head + r.reserved ≤ bound)
    (hpost : c.head + op.published r + (op.run r).2.reserved ≤ bound) :
    ∃ c' f', Fifo.Step f op (op.run r).1 f' ∧ (op.run r).2.Shows c' f' ∧
      c'.head = c.head + op.published r := by
  have hres := h.length_reservation
  cases op with
  | reserve max =>
    obtain ⟨c', slots, hc, hlen, hslots, hs⟩ := h.reserve max ha hpost
    refine ⟨c', _, ?_, hs, hc⟩
    rw [RingOp.run, ← hlen]
    exact .reserve max slots (hlen.trans (h.granted max)) hslots
  | edit offset change =>
    rw [RingOp.run, editReserved]
    by_cases hk : offset < r.reserved
    · rw [if_pos hk]
      exact ⟨c, _, .edit offset change (hres.symm ▸ hk),
        h.edit ha hpre hk fun _ hf => hf.edit change, rfl⟩
    · rw [if_neg hk, ← hres]
      exact ⟨c, f, .editOutside offset change (by omega), h, rfl⟩
  | inspect offset =>
    rw [RingOp.run, reservedSlot]
    by_cases hk : offset < r.reserved
    · rw [if_pos hk]
      have hin : offset < f.reservation.length := hres.symm ▸ hk
      have hstep := Fifo.Step.inspect (f := f) offset hin
      have hslot := h.getElem?_slotAt_head ha hpre hk
      rw [List.getElem?_eq_getElem hin, Option.some.injEq] at hslot
      exact ⟨c, f, hslot ▸ hstep, h, rfl⟩
    · rw [if_neg hk, ← hres]
      exact ⟨c, f, .inspectOutside offset (by omega), h, rfl⟩
  | publish count =>
    rw [RingOp.run, PacketRing.publish, RingOp.published]
    by_cases hk : count ≤ r.reserved
    · rw [if_pos hk, if_pos hk]
      exact ⟨_, _, .publish count (hres.symm ▸ hk), h.publish hk, rfl⟩
    · rw [if_neg hk, if_neg hk, ← hres]
      exact ⟨c, f, .publishOver count (by omega), h, rfl⟩
  | push data header flags =>
    rw [RingOp.published] at hpost ⊢
    rw [RingOp.run]
    have hfst := h.push_fst data header flags
    by_cases hk : f.queue.length = f.capacity
    · obtain ⟨hp, c', hc, -, hs⟩ := h.push_of_full hk ha (by omega) data header flags
      rw [hp]
      exact ⟨c', _, .pushFull data header flags hk, hs, hc⟩
    · have hlt : f.queue.length < f.capacity := by
        have := h.length_le
        omega
      rw [hfst, decide_eq_true hlt, if_pos rfl] at hpost
      obtain ⟨hp, c', hc, -, hs⟩ := h.push_of_free hlt ha (by omega) data header flags
      rw [hp]
      exact ⟨c', _, .push data header flags hlt, hs, hc⟩
  | peek max =>
    obtain ⟨hg, c', hc, -, hs⟩ := h.peek max
    rw [RingOp.run, hg]
    exact ⟨c', _, .peek max, hg ▸ hs, hc⟩
  | view offset =>
    rw [RingOp.run, exposedSlot]
    by_cases hk : offset < r.exposed
    · rw [if_pos hk]
      have hq : offset < f.queue.length := Nat.lt_of_lt_of_le hk h.exposed_le
      have hstep := Fifo.Step.view (f := f) offset (h.exposed_eq.symm ▸ hk) hq
      have hp := h.getElem?_slotAt_tail ha (by omega) hq
      rw [List.getElem?_eq_getElem hq, Option.some.injEq] at hp
      refine ⟨c, f, ?_, h, rfl⟩
      change Fifo.Step f _ (.packet (r.slotAt r.tail offset).packet) f
      exact hp ▸ hstep
    · rw [if_neg hk, ← h.exposed_eq]
      exact ⟨c, f, .viewOutside offset (by rw [h.exposed_eq]; omega), h, rfl⟩
  | retire count =>
    rw [RingOp.run, PacketRing.retire]
    by_cases hk : count ≤ r.exposed
    · rw [if_pos hk]
      exact ⟨_, _, .retire count (h.exposed_eq.symm ▸ hk), h.retire hk, rfl⟩
    · rw [if_neg hk, ← h.exposed_eq]
      exact ⟨c, f, .retireOver count (by rw [h.exposed_eq]; omega), h, rfl⟩
  | pop =>
    rw [RingOp.run]
    cases hq : f.queue with
    | nil =>
      obtain ⟨hp, c', hc, -, hs⟩ := h.pop_of_empty hq
      rw [hp]
      exact ⟨c', _, .popEmpty hq, hq ▸ hs, hc⟩
    | cons p rest =>
      obtain ⟨hp, c', hc, -, hs⟩ := h.pop_of_cons hq ha (by omega)
      rw [hp]
      exact ⟨c', _, .pop p rest hq, hs, hc⟩

theorem Shows.runAll_room {ops : List RingOp} (h : r.Shows c f) (ha : Addresses r.capacity bound)
    (hb : c.head + handedOut ops r ≤ bound) :
    ∃ c' f', Fifo.Run f ops (PacketRing.runAll ops r).1 f' ∧ (PacketRing.runAll ops r).2.Shows c' f' ∧
      c'.head + (PacketRing.runAll ops r).2.reserved ≤ bound := by
  induction ops generalizing r c f with
  | nil =>
    rw [handedOut] at hb
    exact ⟨c, f, .nil f, h, hb⟩
  | cons op ops ih =>
    rw [handedOut] at hb
    have hnext : (op.run r).2.reserved ≤ handedOut ops (op.run r).2 := by
      cases ops with
      | nil => exact Nat.le_refl _
      | cons _ _ => exact Nat.le_max_left _ _
    obtain ⟨c₁, f₁, hstep, hs, hc⟩ := h.step op ha (by omega) (by omega)
    have hcap : (op.run r).2.capacity = r.capacity := by
      rw [← hs.capacity_eq, ← h.capacity_eq, hstep.capacity_eq]
    obtain ⟨c₂, f₂, hrun, hs₂, hb₂⟩ := ih hs (hcap.symm ▸ ha) (by omega)
    exact ⟨c₂, f₂, .cons hstep hrun, hs₂, hb₂⟩

theorem Shows.runAll {ops : List RingOp} (h : r.Shows c f) (ha : Addresses r.capacity bound)
    (hb : c.head + handedOut ops r ≤ bound) :
    ∃ c' f', Fifo.Run f ops (PacketRing.runAll ops r).1 f' ∧ (PacketRing.runAll ops r).2.Shows c' f' ∧
      c'.head ≤ bound := by
  obtain ⟨c', f', hrun, hs, hroom⟩ := h.runAll_room ha hb
  exact ⟨c', f', hrun, hs, Nat.le_of_add_right_le hroom⟩

theorem runAll_cons (op : RingOp) (ops : List RingOp) (r : PacketRing) :
    runAll (op :: ops) r =
      ((op.run r).1 :: (runAll ops (op.run r).2).1, (runAll ops (op.run r).2).2) := rfl

theorem runAll_append (ops more : List RingOp) (r : PacketRing) :
    runAll (ops ++ more) r =
      ((runAll ops r).1 ++ (runAll more (runAll ops r).2).1,
        (runAll more (runAll ops r).2).2) := by
  induction ops generalizing r with
  | nil => rfl
  | cons op ops ih => rw [List.cons_append, runAll_cons, ih, runAll_cons, List.cons_append]

theorem publishedIn_append (ops more : List RingOp) (r : PacketRing) :
    publishedIn (ops ++ more) r = publishedIn ops r + publishedIn more (runAll ops r).2 := by
  induction ops generalizing r with
  | nil => exact (Nat.zero_add _).symm
  | cons op ops ih => rw [List.cons_append, publishedIn, publishedIn, ih, Nat.add_assoc, runAll_cons]

/-- Empty packets, each taken off before the next is published. For each of them the writer reserves
the whole ring. -/
def turns (capacity : Nat) : Nat → List RingOp
  | 0 => []
  | count + 1 => .reserve capacity :: .publish 1 :: .pop :: turns capacity count

/-- Three packets that nobody takes, and two slots more for the writer. -/
def crowd : List RingOp :=
  .push [] [] 1 :: (List.replicate 2 (.push [] [] 0) ++ [.reserve 2, .pop])

theorem runAll_turn (n dataSize : Nat) {i seen : UInt64} (h : seen = i ∨ seen = i - 1)
    (ops : List RingOp) :
    (runAll (.reserve (n + 1) :: .publish 1 :: .pop :: ops) (level n dataSize i seen)).2 =
        (runAll ops (level n dataSize (i + 1) i)).2 ∧
      publishedIn (.reserve (n + 1) :: .publish 1 :: .pop :: ops) (level n dataSize i seen) =
        1 + publishedIn ops (level n dataSize (i + 1) i) := by
  constructor
  · simp only [runAll_cons, RingOp.run, reserve_level h, publish_level, RingOp.settle, pop_level]
  · simp [publishedIn, RingOp.run, RingOp.published, reserve_level h, publish_level, RingOp.settle,
      pop_level]

theorem runAll_turns (n dataSize count : Nat) {i seen : UInt64} (h : seen = i ∨ seen = i - 1) :
    (runAll (turns (n + 1) (count + 1)) (level n dataSize i seen)).2 =
        level n dataSize (i + .ofNat (count + 1)) (i + .ofNat count) ∧
      publishedIn (turns (n + 1) (count + 1)) (level n dataSize i seen) = count + 1 := by
  -- The turns after the first start at the next index, and with an older look at the reader.
  induction count generalizing i seen with
  | zero =>
    obtain ⟨hrun, hpublished⟩ := runAll_turn n dataSize h []
    rw [show UInt64.ofNat 0 = 0 from rfl, UInt64.add_zero]
    exact ⟨hrun, hpublished⟩
  | succ count ih =>
    obtain ⟨hrun, hpublished⟩ :=
      runAll_turn n dataSize h (turns (n + 1) (count + 1))
    obtain ⟨hrun', hpublished'⟩ := ih (i := i + 1) (.inr (UInt64.add_sub_cancel i 1).symm)
    have hnext : ∀ k : Nat, i + 1 + UInt64.ofNat k = i + UInt64.ofNat (k + 1) := by
      intro k
      rw [UInt64.ofNat_add, UInt64.add_assoc, UInt64.add_comm 1]
      rfl
    rw [hnext, hnext] at hrun'
    refine ⟨hrun.trans hrun', ?_⟩
    rw [turns, hpublished, hpublished', Nat.add_comm]

theorem runAll_turns_new (n dataSize count : Nat) :
    (runAll (turns (n + 1) (count + 1)) (level n dataSize 0 0)).2 =
        level n dataSize (.ofNat (count + 1)) (.ofNat count) ∧
      publishedIn (turns (n + 1) (count + 1)) (level n dataSize 0 0) = count + 1 := by
  have hturns := runAll_turns n dataSize count (i := 0) (.inl rfl)
  rwa [UInt64.zero_add, UInt64.zero_add] at hturns

end PacketRing

namespace Fifo

variable {f g : Fifo} {ops more : List RingOp} {answers : List RingAnswer}

theorem Run.split (h : Run f (ops ++ more) answers g) :
    ∃ e first second, answers = first ++ second ∧ Run f ops first e ∧ Run e more second g := by
  induction ops generalizing f answers with
  | nil => exact ⟨f, [], answers, rfl, .nil f, h⟩
  | cons op ops ih =>
    cases h with
    | cons hstep hrest =>
      obtain ⟨e, first, second, rfl, hf, hs⟩ := ih hrest
      exact ⟨e, _ :: first, second, rfl, .cons hstep hf, hs⟩

theorem Run.turns {capacity count : Nat} (h : Run f (PacketRing.turns capacity count) answers g)
    (hf : f.queue = []) (hcap : f.capacity = capacity) (h0 : 0 < capacity) : g.queue = [] := by
  induction count generalizing f answers with
  | zero =>
    cases h
    exact hf
  | succ count ih =>
    rcases h with _ | ⟨hreserve, _ | ⟨hpublish, _ | ⟨hpop, hrest⟩⟩⟩
    cases hreserve with
    | reserve _ slots hlen hslots =>
      obtain ⟨s, slots, rfl⟩ : ∃ s rest, slots = s :: rest := by
        refine List.exists_cons_of_length_pos ?_
        rw [hlen, hf, hcap, List.length_nil, Nat.sub_zero, Nat.min_self]
        exact h0
      cases hpublish with
      | publishOver _ hlt => simp at hlt
      | publish _ _ =>
        simp only [hf, List.nil_append, List.take_succ_cons, List.take_zero, List.map_cons,
          List.map_nil] at hpop
        cases hpop with
        | popEmpty he => exact absurd he (List.cons_ne_nil _ _)
        | pop p rest he => exact ih hrest (List.cons.inj he).2.symm hcap

theorem Run.pushes {n : Nat} {p : Packet} {rest : List Packet}
    (h : Run f (List.replicate n (.push [] [] 0)) answers g) (hf : f.queue = p :: rest) :
    ∃ rest', g.queue = p :: rest' := by
  induction n generalizing f answers rest with
  | zero =>
    cases h
    exact ⟨rest, hf⟩
  | succ n ih =>
    rcases h with _ | ⟨hpush, hrest⟩
    cases hpush with
    | push _ _ _ hfree => exact ih hrest (congrArg (· ++ _) hf)
    | pushFull _ _ _ hfull => exact ih hrest hf

theorem Run.crowd (h : Run f PacketRing.crowd answers g) (hf : f.queue = [])
    (h0 : 0 < f.capacity) : answers.getLast? = some (.popped (some ⟨[], [], 1⟩)) := by
  rcases h with _ | ⟨hpush, hrest⟩
  obtain ⟨e, first, second, rfl, hpushes, hlast⟩ := hrest.split
  cases hpush with
  | pushFull _ _ _ hfull =>
    rw [hf, List.length_nil] at hfull
    omega
  | push _ _ _ hfree =>
    simp only [hf, List.nil_append, List.take_nil] at hpushes
    obtain ⟨rest, he⟩ := hpushes.pushes rfl
    rcases hlast with _ | ⟨hreserve, _ | ⟨hpop, _ | _⟩⟩
    cases hreserve with
    | reserve max slots hlen hslots =>
      cases hpop with
      | popEmpty hq => exact absurd (he.symm.trans hq) (List.cons_ne_nil _ _)
      | pop p queue hq =>
        obtain ⟨rfl, -⟩ := List.cons.inj (he.symm.trans hq)
        simp [List.getLast?_cons, List.getLast?_append]

end Fifo

namespace PacketRing

/-- A ring answers as a bounded first-in first-out queue does, for one turn of the 64-bit index, and
for ever if its capacity divides it. -/
theorem runAll_refines_fifo (capacity dataSize headerSize : Nat) (h0 : 0 < capacity)
    (h1 : capacity < 2 ^ 64) (ops : List RingOp) :
    ∃ r, create capacity dataSize headerSize = .ok r ∧
      (capacity ∣ 2 ^ 64 ∨ handedOut ops r ≤ 2 ^ 64 →
        ∃ f, Fifo.Run ⟨capacity, dataSize, headerSize, [], [], 0⟩ ops (runAll ops r).1 f ∧
          (runAll ops r).2.contents = f.queue ∧ f.queue.length ≤ capacity ∧
          (runAll ops r).2.reserved = f.reservation.length ∧
          (runAll ops r).2.exposed = f.exposed ∧ f.exposed ≤ f.queue.length) := by
  obtain ⟨r, hr, -, hs⟩ := shows_create h0 h1 dataSize headerSize
  refine ⟨r, hr, fun hfit => ?_⟩
  have hcap : capacity = r.capacity := hs.capacity_eq
  have ha : Addresses r.capacity (handedOut ops r) := hcap ▸ addresses_of_dvd_or_le hfit
  obtain ⟨c, f, hrun, hs', hb⟩ := hs.runAll ha (Nat.zero_add (handedOut ops r)).le
  have hcap' : (runAll ops r).2.capacity = r.capacity := by
    rw [← hs'.capacity_eq, hrun.capacity_eq, hcap]
  refine ⟨f, hrun, hs'.contents (hcap'.symm ▸ ha.mono hb), ?_, hs'.length_reservation.symm,
    hs'.exposed_eq.symm, hs'.exposed_eq ▸ hs'.exposed_le⟩
  exact hs'.length_le.trans_eq hrun.capacity_eq

/-- A run that abandons part of a reservation, turns around the ring and pushes into a full one. -/
def roundTrip : List RingOp :=
  [.push [1] [] 0, .reserve 5, .edit 0 (.data fun _ => [2, 3]), .edit 0 (.clampDataLen 9),
    .publish 1, .peek 9, .push [4, 5, 6] [] 7, .push [8] [] 0, .view 1, .retire 2, .reserve 5,
    .publish 3, .pop, .pop]

theorem roundTrip_refines_fifo :
    0 < 3 ∧ 3 < 2 ^ 64 ∧ ∃ r f, create 3 2 0 = .ok r ∧ handedOut roundTrip r ≤ 2 ^ 64 ∧
      Fifo.Run ⟨3, 2, 0, [], [], 0⟩ roundTrip (runAll roundTrip r).1 f ∧
      (runAll roundTrip r).2.contents = f.queue := by
  obtain ⟨r, hr, h⟩ := runAll_refines_fifo 3 2 0 (by decide) (by decide) roundTrip
  have hfit : handedOut roundTrip r ≤ 2 ^ 64 := by
    cases hr
    decide +kernel
  obtain ⟨f, hrun, hcontents, -⟩ := h (.inr hfit)
  exact ⟨by decide, by decide, r, f, hr, hfit, hrun, hcontents⟩

/-- Of six slots, the second that is reserved here has index `2 ^ 64`, which wraps, and lies at the
place of the oldest unread packet. That packet is cleared. -/
theorem six_slots_forget : ∃ r, create 6 1 0 = .ok r ∧
    publishedIn (turns 6 (2 ^ 64 - 4) ++ crowd) r < 2 ^ 64 ∧
    ¬∃ f, Fifo.Run ⟨6, 1, 0, [], [], 0⟩ (turns 6 (2 ^ 64 - 4) ++ crowd)
      (runAll (turns 6 (2 ^ 64 - 4) ++ crowd) r).1 f := by
  obtain ⟨hturned, hpublished⟩ := runAll_turns_new 5 1 (2 ^ 64 - 5)
  rw [show 2 ^ 64 - 5 + 1 = 2 ^ 64 - 4 from rfl] at hturned hpublished
  refine ⟨level 5 1 0 0, create_eq_level 5 1, ?_, ?_⟩
  · rw [publishedIn_append, hpublished, hturned]
    decide +kernel
  · rintro ⟨f, hrun⟩
    have hlast : (runAll crowd (level 5 1 (.ofNat (2 ^ 64 - 4)) (.ofNat (2 ^ 64 - 5)))).1 =
        [.done, .done, .done, .count 2, .popped (some ⟨[], [], 0⟩)] := rfl
    rw [runAll_append, hturned, hlast] at hrun
    obtain ⟨e, first, second, heq, hturns, hcrowd⟩ := hrun.split
    have hpopped := hcrowd.crowd (hturns.turns rfl rfl (by decide))
      (hturns.capacity_eq ▸ (by decide : 0 < 6))
    have hsame := congrArg List.getLast? heq
    rw [List.getLast?_append, List.getLast?_append, hpopped] at hsame
    simp at hsame

end PacketRing

end DmaBurst
