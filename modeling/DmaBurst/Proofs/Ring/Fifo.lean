import DmaBurst.Proofs.Ring.Cells
import DmaBurst.Proofs.Slot

namespace DmaBurst

/-- A bounded first-in first-out queue of packets, with the slots that are lent to its writer and
the size of the window that is lent to its reader. -/
structure Fifo where
  capacity : Nat
  dataSize : Nat
  headerSize : Nat
  queue : List Packet := []
  reservation : List Slot := []
  exposed : Nat := 0

namespace PacketRing

variable {r r' : PacketRing} {c : Counts} {f : Fifo} {bound : Nat}

/-- At these counts the ring is a picture of the queue: the published slots show its packets, and
the windows are those lent out. -/
structure Shows (r : PacketRing) (c : Counts) (f : Fifo) : Prop where
  stands : r.StandsAt c
  capacity_eq : f.capacity = r.capacity
  fits : ∀ s ∈ r.slots, s.Fits f.dataSize f.headerSize
  queue_eq : f.queue = (r.stretch c.tail (c.head - c.tail)).map Slot.packet
  reservation_eq : f.reservation = r.stretch c.head r.reserved
  exposed_eq : f.exposed = r.exposed

theorem Shows.length_queue (h : r.Shows c f) : f.queue.length = c.head - c.tail := by
  rw [h.queue_eq, List.length_map, length_stretch]

theorem Shows.length_reservation (h : r.Shows c f) : f.reservation.length = r.reserved := by
  rw [h.reservation_eq, length_stretch]

theorem Shows.exposed_le (h : r.Shows c f) : r.exposed ≤ f.queue.length := by
  have := h.stands.exposed_le
  have := h.stands.seenHead_le
  rw [h.length_queue]
  omega

theorem Shows.occupied (h : r.Shows c f) : r.occupied = f.queue.length := by
  rw [h.stands.occupied, h.length_queue]

theorem Shows.contents (h : r.Shows c f) (ha : Addresses r.capacity c.head) :
    r.contents = f.queue := by
  rw [h.stands.contents_eq ha, h.queue_eq]

theorem Shows.getElem?_queue (h : r.Shows c f) {k : Nat} (hk : k < f.queue.length) :
    f.queue[k]? = some (r.cell (c.tail + k)).packet := by
  rw [h.length_queue] at hk
  rw [h.queue_eq, List.getElem?_map, getElem?_stretch hk, Option.map_some]

theorem Shows.getElem?_slotAt_tail (h : r.Shows c f) (ha : Addresses r.capacity bound)
    (hb : c.head ≤ bound) {k : Nat} (hk : k < f.queue.length) :
    f.queue[k]? = some (r.slotAt r.tail k).packet := by
  have hlen := h.length_queue
  rw [h.getElem?_queue hk, h.stands.tail_eq, slotAt_eq_cell ha (by omega)]

theorem Shows.getElem?_slotAt_head (h : r.Shows c f) (ha : Addresses r.capacity bound)
    (hb : c.head + r.reserved ≤ bound) {k : Nat} (hk : k < r.reserved) :
    f.reservation[k]? = some (r.slotAt r.head k) := by
  rw [h.reservation_eq, getElem?_stretch hk, h.stands.head_eq, slotAt_eq_cell ha (by omega)]

theorem shows_create {capacity : Nat} (h0 : 0 < capacity) (h1 : capacity < 2 ^ 64)
    (dataSize headerSize : Nat) :
    ∃ r, create capacity dataSize headerSize = .ok r ∧ r.reserved = 0 ∧
      r.Shows ⟨0, 0, 0, 0⟩ ⟨capacity, dataSize, headerSize, [], [], 0⟩ := by
  obtain ⟨r, hr, h2, h3, hs, ht⟩ := create_eq h0 dataSize headerSize
  refine ⟨r, hr, h2, ht h1, ?_, ?_, rfl, ?_, h3.symm⟩
  · simp [PacketRing.capacity, hs]
  · intro s hm
    rw [hs] at hm
    rw [Array.eq_of_mem_replicate hm]
    exact Slot.fits_blank
  · rw [h2]
    rfl

theorem pos_of_create {capacity dataSize headerSize : Nat}
    (h : create capacity dataSize headerSize = .ok r) : 0 < capacity := by
  by_contra hn
  rw [create, dif_neg hn] at h
  cases h

theorem shows_of_create {capacity dataSize headerSize : Nat} (hcap : capacity < 2 ^ 64)
    (h : create capacity dataSize headerSize = .ok r) :
    r.reserved = 0 ∧ r.Shows ⟨0, 0, 0, 0⟩ ⟨capacity, dataSize, headerSize, [], [], 0⟩ := by
  obtain ⟨r', hr, hshows⟩ := shows_create (pos_of_create h) hcap dataSize headerSize
  cases h.symm.trans hr
  exact hshows

theorem fits_modifyAt {dataSize headerSize : Nat}
    (hr : ∀ s ∈ r.slots, s.Fits dataSize headerSize) {e : Slot → Slot}
    (he : ∀ s, s.Fits dataSize headerSize → (e s).Fits dataSize headerSize) (base : UInt64)
    (offset : Nat) : ∀ s ∈ (r.modifyAt base offset e).slots, s.Fits dataSize headerSize := by
  intro s hm
  obtain ⟨i, hi, rfl⟩ := Array.mem_iff_getElem.mp hm
  have hi' : i < r.slots.size := by simpa [modifyAt_slots] using hi
  simp only [modifyAt_slots, Array.getElem_modify]
  split
  · exact he _ (hr _ (Array.getElem_mem hi'))
  · exact hr _ (Array.getElem_mem hi')

theorem fits_clearAhead {dataSize headerSize : Nat}
    (hr : ∀ s ∈ r.slots, s.Fits dataSize headerSize) (count : Nat) :
    ∀ s ∈ (r.clearAhead count).slots, s.Fits dataSize headerSize := by
  induction count with
  | zero => exact hr
  | succ count ih =>
    rw [clearAhead_succ]
    exact fits_modifyAt ih (fun _ => Slot.Fits.clear) _ _

theorem reserve_eq (h : r.Shows c f) (max : Nat) :
    r.reserve max = r.reserveSeeing (.ofNat c.tail) max := by
  rw [PacketRing.reserve, h.stands.tail_eq]

theorem Shows.granted (h : r.Shows c f) (max : Nat) :
    (r.reserve max).1 = min (f.capacity - f.queue.length) max := by
  obtain ⟨-, -, -, -, hg, -⟩ := h.stands.reserveSeeing h.stands.seenTail_le (Nat.le_refl _) max
  have htail := Nat.le_trans h.stands.tail_le h.stands.seenHead_le
  rw [reserve_eq h, hg, h.capacity_eq, h.length_queue]
  omega

theorem Shows.reserve (h : r.Shows c f) (max : Nat) (ha : Addresses r.capacity bound)
    (hb : c.head + (r.reserve max).1 ≤ bound) :
    ∃ c' slots, c'.head = c.head ∧ slots.length = (r.reserve max).1 ∧
      (∀ s ∈ slots, s.IsCleared ∧ s.Fits f.dataSize f.headerSize) ∧
      (r.reserve max).2.Shows c' { f with reservation := slots } := by
  obtain ⟨s, hsl, hsu, ht, hg, hres, hexp, hslots⟩ :=
    h.stands.reserveSeeing h.stands.seenTail_le (Nat.le_refl _) max
  rw [← reserve_eq h] at ht hg hres hexp hslots
  have hhead := h.stands.head_le
  have htail := Nat.le_trans h.stands.tail_le h.stands.seenHead_le
  have hcell : ∀ i, c.tail ≤ i → i < c.tail + r.capacity → (r.reserve max).2.cell i =
      if c.head ≤ i ∧ i < c.head + (r.reserve max).1 then (r.cell i).clear else r.cell i := by
    intro i hi hi'
    rw [cell_congr hslots]
    exact cell_clearAhead h.stands.head_eq _ ha hb htail (by omega) hi hi'
  have hfits : ∀ s ∈ (r.reserve max).2.slots, s.Fits f.dataSize f.headerSize := by
    rw [hslots]
    exact fits_clearAhead h.fits _
  refine ⟨{ c with seenTail := s }, (r.reserve max).2.stretch c.head (r.reserve max).1, rfl,
    length_stretch _ _, ?_, ht, ?_, hfits, ?_, by rw [hres], by rw [hexp, ← h.exposed_eq]⟩
  · intro slot hm
    obtain ⟨k, hk, rfl⟩ := List.mem_map.mp hm
    have := List.mem_range.mp hk
    refine ⟨?_, hfits _ (cell_mem _ _)⟩
    rw [hcell _ (by omega) (by omega), if_pos (by omega)]
    exact Slot.isCleared_clear _
  · rw [h.capacity_eq, PacketRing.capacity, PacketRing.capacity, hslots]
    exact (clearAhead_fields _ r).2.2.2.2.2.symm
  · rw [h.queue_eq]
    refine congrArg _ (stretch_congr fun i hi hi' => ?_).symm
    rw [hcell i hi (by omega), if_neg (by omega)]

theorem Shows.edit (h : r.Shows c f) (ha : Addresses r.capacity bound)
    (hb : c.head + r.reserved ≤ bound) {k : Nat} (hk : k < r.reserved) {e : Slot → Slot}
    (he : ∀ s, s.Fits f.dataSize f.headerSize → (e s).Fits f.dataSize f.headerSize) :
    (r.modifyAt r.head k e).Shows c { f with reservation := f.reservation.modify k e } := by
  have hres := h.stands.reserved_le
  have hseen := h.stands.seenTail_le
  have hhead := h.stands.head_le
  have htail := Nat.le_trans h.stands.tail_le h.stands.seenHead_le
  have hcell : ∀ i, c.tail ≤ i → i < c.tail + r.capacity → (r.modifyAt r.head k e).cell i =
      if c.head + k = i then e (r.cell i) else r.cell i := by
    intro i hi hi'
    rw [h.stands.head_eq]
    exact cell_modifyAt_of_turn ha (by omega) e (by omega) (by omega) hi hi'
  refine ⟨h.stands.modifyAt _ _ _, h.capacity_eq.trans (modifyAt_capacity _ _ _ r).symm,
    fits_modifyAt h.fits he _ _, ?_, ?_, h.exposed_eq⟩
  · rw [h.queue_eq]
    refine congrArg _ (stretch_congr fun i hi hi' => ?_).symm
    rw [hcell i hi (by omega), if_neg (by omega)]
  · refine List.ext_getElem (by simp [h.length_reservation]) fun i hi hi' => ?_
    have hi'' : i < r.reserved := by simpa using hi'
    simp only [List.getElem_modify, h.reservation_eq, stretch, List.getElem_map,
      List.getElem_range, hcell (c.head + i) (by omega) (by omega), Nat.add_left_cancel_iff]

theorem Shows.publish (h : r.Shows c f) {count : Nat} (hc : count ≤ r.reserved) :
    Shows { r with head := r.head + .ofNat count, reserved := 0 } { c with head := c.head + count }
      { f with
        queue := f.queue ++ (f.reservation.take count).map Slot.packet
        reservation := [] } := by
  have htail := Nat.le_trans h.stands.tail_le h.stands.seenHead_le
  have hlen : c.head + count - c.tail = c.head - c.tail + count := by omega
  have hjoin : c.tail + (c.head - c.tail) = c.head := by omega
  refine ⟨(h.stands.publish hc).2, h.capacity_eq, h.fits, ?_, rfl, h.exposed_eq⟩
  rw [h.queue_eq, h.reservation_eq, take_stretch hc, hlen, ← List.map_append, stretch_add, hjoin]
  rfl

theorem Shows.of_slots (h : r.Shows c f) {c' : Counts} (hr : r'.StandsAt c')
    (hs : r'.slots = r.slots) (hhead : c'.head = c.head) (htail : c'.tail = c.tail) :
    r'.Shows c' { f with
      reservation := r.stretch c.head r'.reserved
      exposed := r'.exposed } := by
  have hcell : ∀ start len, r'.stretch start len = r.stretch start len :=
    fun _ _ => stretch_congr fun _ _ _ => cell_congr hs _
  refine ⟨hr, ?_, ?_, ?_, ?_, rfl⟩
  · rw [h.capacity_eq, PacketRing.capacity, PacketRing.capacity, hs]
  · rw [hs]
    exact h.fits
  · rw [hcell, hhead, htail]
    exact h.queue_eq
  · rw [hcell, hhead]

theorem Shows.peek (h : r.Shows c f) (max : Nat) :
    (r.peek max).1 = min f.queue.length max ∧
      ∃ c', c'.head = c.head ∧ (r.peek max).2.reserved = r.reserved ∧
        (r.peek max).2.Shows c' { f with exposed := (r.peek max).1 } := by
  have hseen : r.peek max = r.peekSeeing (.ofNat c.head) max := by
    rw [PacketRing.peek, h.stands.head_eq]
  obtain ⟨s, -, hsl, hsu, ht, hg, hexp, hres, hslots⟩ :=
    h.stands.peekSeeing h.stands.seenHead_le (Nat.le_refl _) max
  rw [← hseen] at ht hg hexp hres hslots
  have hshows := h.of_slots ht hslots rfl rfl
  rw [hres, ← h.reservation_eq, hexp] at hshows
  exact ⟨by rw [hg, h.length_queue], { c with seenHead := s }, rfl, hres, hshows⟩

theorem Shows.retire (h : r.Shows c f) {count : Nat} (hc : count ≤ r.exposed) :
    Shows { r with tail := r.tail + .ofNat count, exposed := 0 } { c with tail := c.tail + count }
      { f with queue := f.queue.drop count, exposed := 0 } := by
  have hexp := h.exposed_le
  rw [h.length_queue] at hexp
  have hlen : c.head - (c.tail + count) = c.head - c.tail - count := by omega
  refine ⟨(h.stands.retire hc).2, h.capacity_eq, h.fits, ?_, h.reservation_eq, rfl⟩
  rw [h.queue_eq, ← List.map_drop, drop_stretch (by omega), hlen]
  rfl

theorem push_eq (data header : Bytes) (flags : UInt16) (r : PacketRing) :
    r.push data header flags =
      if (r.reserve 1).1 = 0 then (false, (r.reserve 1).2)
      else (true, { ((r.reserve 1).2.modifyAt (r.reserve 1).2.head 0 (Slot.load data header flags)) with
        head := (r.reserve 1).2.head + .ofNat 1, reserved := 0 }) := by
  rw [push]
  split
  · next r' hr => simp [hr]
  · next n r' hr => simp [hr]

theorem pop_eq (r : PacketRing) :
    r.pop =
      if (r.peek 1).1 = 0 then (none, (r.peek 1).2)
      else (some ((r.peek 1).2.slotAt (r.peek 1).2.tail 0).packet,
        { (r.peek 1).2 with tail := (r.peek 1).2.tail + .ofNat 1, exposed := 0 }) := by
  rw [pop]
  split
  · next r' hr => simp [hr]
  · next n r' hr => simp [hr]

theorem Shows.length_le (h : r.Shows c f) : f.queue.length ≤ f.capacity := by
  have := h.stands.head_le
  rw [h.length_queue, h.capacity_eq]
  omega

theorem Shows.push_fst (h : r.Shows c f) (data header : Bytes) (flags : UInt16) :
    (r.push data header flags).1 = decide (f.queue.length < f.capacity) := by
  have hg := h.granted 1
  rw [push_eq]
  by_cases hk : f.queue.length < f.capacity
  · rw [if_neg (by omega), decide_eq_true hk]
  · rw [if_pos (by omega), decide_eq_false hk]

theorem Shows.push_of_full (h : r.Shows c f) (hf : f.queue.length = f.capacity)
    (ha : Addresses r.capacity bound) (hb : c.head ≤ bound) (data header : Bytes)
    (flags : UInt16) :
    (r.push data header flags).1 = false ∧
      ∃ c', c'.head = c.head ∧ (r.push data header flags).2.reserved = 0 ∧
        (r.push data header flags).2.Shows c' { f with reservation := [] } := by
  have hzero : (r.reserve 1).1 = 0 := by
    have := h.granted 1
    omega
  obtain ⟨c', slots, hc, hlen, -, hs⟩ := h.reserve 1 ha (by omega)
  have hnil : slots = [] := List.length_eq_zero_iff.mp (hlen.trans hzero)
  subst hnil
  rw [push_eq, if_pos hzero]
  exact ⟨rfl, c', hc, hs.length_reservation.symm, hs⟩

theorem Shows.push_of_free (h : r.Shows c f) (hf : f.queue.length < f.capacity)
    (ha : Addresses r.capacity bound) (hb : c.head + 1 ≤ bound) (data header : Bytes)
    (flags : UInt16) :
    (r.push data header flags).1 = true ∧
      ∃ c', c'.head = c.head + 1 ∧ (r.push data header flags).2.reserved = 0 ∧
        (r.push data header flags).2.Shows c' { f with
          queue := f.queue ++ [⟨data.take f.dataSize, header.take f.headerSize, flags⟩]
          reservation := [] } := by
  have hone : (r.reserve 1).1 = 1 := by
    have := h.granted 1
    omega
  obtain ⟨c', slots, hc, hlen, hslots, hs⟩ := h.reserve 1 ha (by omega)
  have hcap : (r.reserve 1).2.capacity = r.capacity := hs.capacity_eq.symm.trans h.capacity_eq
  have hres : (r.reserve 1).2.reserved = 1 := hs.length_reservation.symm.trans (hlen.trans hone)
  obtain ⟨slot, rfl⟩ := List.length_eq_one_iff.mp (hlen.trans hone)
  have hslot := (hslots slot List.mem_cons_self).2
  have he := hs.edit (k := 0) (hcap.symm ▸ ha) (by omega) (by omega)
    (fun s hf => Slot.Fits.load hf data header flags)
  have hfilled : 1 ≤ ((r.reserve 1).2.modifyAt (r.reserve 1).2.head 0
      (Slot.load data header flags)).reserved := by
    simp [hres]
  have hp := he.publish hfilled
  rw [push_eq, if_neg (by omega)]
  refine ⟨rfl, { c' with head := c'.head + 1 }, by simp [hc], rfl, ?_⟩
  simpa [Slot.packet_load, hslot.data_length, hslot.header_length] using hp

theorem Shows.pop_of_empty (h : r.Shows c f) (hf : f.queue = []) :
    r.pop.1 = none ∧ ∃ c', c'.head = c.head ∧ r.pop.2.reserved = r.reserved ∧
      r.pop.2.Shows c' { f with exposed := 0 } := by
  obtain ⟨hg, c', hc, hres, hs⟩ := h.peek 1
  have hzero : (r.peek 1).1 = 0 := by simp [hg, hf]
  rw [pop_eq, if_pos hzero]
  exact ⟨rfl, c', hc, hres, hzero ▸ hs⟩

theorem Shows.pop_of_cons (h : r.Shows c f) {p : Packet} {rest : List Packet}
    (hf : f.queue = p :: rest) (ha : Addresses r.capacity bound) (hb : c.head ≤ bound) :
    r.pop.1 = some p ∧ ∃ c', c'.head = c.head ∧ r.pop.2.reserved = r.reserved ∧
      r.pop.2.Shows c' { f with queue := rest, exposed := 0 } := by
  obtain ⟨hg, c', hc, hres, hs⟩ := h.peek 1
  have hone : (r.peek 1).1 = 1 := by simp [hg, hf]
  have hexp : (r.peek 1).2.exposed = 1 := hs.exposed_eq.symm.trans hone
  have hcap : (r.peek 1).2.capacity = r.capacity := hs.capacity_eq.symm.trans h.capacity_eq
  have hp := hs.retire hexp.ge
  have hfirst := hs.getElem?_slotAt_tail (hcap.symm ▸ ha) (hc.trans_le hb) (k := 0) (by simp [hf])
  rw [pop_eq, if_neg (by omega)]
  simp only [hf, List.getElem?_cons_zero] at hfirst
  exact ⟨hfirst.symm, { c' with tail := c'.tail + 1 }, hc, hres, by simpa [hf] using hp⟩

theorem Shows.popAtMost {n : Nat} (h : r.Shows c f) (hn : f.queue.length < n)
    (ha : Addresses r.capacity bound) (hb : c.head ≤ bound) :
    (r.popAtMost n).1 = f.queue ∧
      ∃ c', c'.head = c.head ∧ (r.popAtMost n).2.reserved = r.reserved ∧
        (r.popAtMost n).2.Shows c' { f with queue := [], exposed := 0 } := by
  induction n generalizing r c f with
  | zero => omega
  | succ n ih =>
    rw [PacketRing.popAtMost]
    cases hf : f.queue with
    | nil =>
      obtain ⟨hp, c', hc, hres, hs⟩ := h.pop_of_empty hf
      have hpop : r.pop = (none, r.pop.2) := Prod.ext hp rfl
      rw [hpop]
      exact ⟨rfl, c', hc, hres, by simpa [hf] using hs⟩
    | cons p rest =>
      obtain ⟨hp, c', hc, hres, hs⟩ := h.pop_of_cons hf ha hb
      have hpop : r.pop = (some p, r.pop.2) := Prod.ext hp rfl
      have hcap : r.pop.2.capacity = r.capacity := hs.capacity_eq.symm.trans h.capacity_eq
      rw [hf, List.length_cons] at hn
      obtain ⟨hps, c'', hc', hres', hs'⟩ :=
        ih hs (Nat.lt_of_succ_lt_succ hn) (hcap.symm ▸ ha) (hc.trans_le hb)
      rw [hpop]
      exact ⟨congrArg (p :: ·) hps, c'', hc'.trans hc, hres'.trans hres, hs'⟩

theorem Shows.drain (h : r.Shows c f) (ha : Addresses r.capacity bound) (hb : c.head ≤ bound) :
    r.drain.1 = f.queue ∧ ∃ c', c'.head = c.head ∧ r.drain.2.reserved = r.reserved ∧
      r.drain.2.Shows c' { f with queue := [], exposed := 0 } :=
  h.popAtMost (by rw [h.occupied]; exact Nat.lt_succ_self _) ha hb

end PacketRing

end DmaBurst
