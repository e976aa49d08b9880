import DmaBurst.Proofs.Ring.Fifo

namespace DmaBurst.PacketRing

variable {r : PacketRing} {c : Counts} {max : Nat}

theorem slotAt_add (r : PacketRing) (base : UInt64) (n k : Nat) :
    r.slotAt (base + .ofNat n) k = r.slotAt base (n + k) := by
  simp only [slotAt, position, UInt64.ofNat_add, UInt64.add_assoc]

theorem length_contents (r : PacketRing) : r.contents.length = r.occupied := by
  simp [contents]

theorem peek_fields (max : Nat) (r : PacketRing) :
    (r.peek max).2.slots = r.slots ∧ (r.peek max).2.head = r.head ∧
      (r.peek max).2.tail = r.tail := by
  simp only [peek, peekSeeing, refreshHead]
  split <;> exact ⟨rfl, rfl, rfl⟩

theorem StandsAt.peek_fst (h : r.StandsAt c) (max : Nat) :
    (r.peek max).1 = min r.contents.length max := by
  obtain ⟨s, -, -, -, -, hg, -⟩ := h.peekSeeing h.seenHead_le (Nat.le_refl _) max
  rw [length_contents, h.occupied, ← hg, peek, h.head_eq]

def takeOff (max : Nat) (r : PacketRing) : PacketRing :=
  { (r.peek max).2 with
    tail := (r.peek max).2.tail + .ofNat (r.peek max).2.exposed
    exposed := 0 }

theorem takeOff_slots (max : Nat) (r : PacketRing) : (r.takeOff max).slots = r.slots :=
  (peek_fields max r).1

theorem takeOff_tail (max : Nat) (r : PacketRing) :
    (r.takeOff max).tail = r.tail + .ofNat (r.peek max).1 :=
  congrArg (· + UInt64.ofNat (r.peek max).1) (peek_fields max r).2.2

theorem Shows.takeOff {f : Fifo} (h : r.Shows c f) (max : Nat) :
    ∃ c', c'.head = c.head ∧
      (r.takeOff max).Shows c' { f with queue := f.queue.drop max, exposed := 0 } := by
  obtain ⟨hpeek, c', hhead, -, hs⟩ := h.peek max
  have hexp : (r.peek max).2.exposed = min f.queue.length max := hs.exposed_eq.symm.trans hpeek
  have hretire := hs.retire (Nat.le_refl _)
  have hdrop : f.queue.drop (r.peek max).2.exposed = f.queue.drop max := by
    rw [hexp, Nat.min_comm, ← List.drop_eq_drop_min]
  rw [hdrop] at hretire
  exact ⟨{ c' with tail := c'.tail + (r.peek max).2.exposed }, hhead, hretire⟩

theorem Sound.takeOff (h : r.Sound) (max : Nat) : (r.takeOff max).Sound := by
  obtain ⟨c, h⟩ := h
  obtain ⟨s, -, -, -, ht, -⟩ := h.peekSeeing h.seenHead_le (Nat.le_refl _) max
  rw [← h.head_eq] at ht
  exact ⟨_, (ht.retire (Nat.le_refl _)).2⟩

theorem Sound.push (h : r.Sound) (data header : Bytes) (flags : UInt16) :
    (r.push data header flags).2.Sound := by
  obtain ⟨c, h⟩ := h
  obtain ⟨s, -, -, ht, -, hres, -⟩ := h.reserveSeeing h.seenTail_le (Nat.le_refl _) 1
  rw [← h.tail_eq] at ht hres
  rw [push_eq]
  split
  · exact ⟨_, ht⟩
  · next hn =>
    have hone : 1 ≤ (r.reserve 1).2.reserved := by
      have : (r.reserve 1).2.reserved = (r.reserve 1).1 := hres
      omega
    have hload := ht.modifyAt (r.reserve 1).2.head 0 (Slot.load data header flags)
    have hpublish := hload.publish hone
    exact ⟨_, hpublish.2⟩

theorem capacity_reserve (max : Nat) (r : PacketRing) :
    (r.reserve max).2.capacity = r.capacity := by
  have hrefresh : (r.refreshTail max r.tail).capacity = r.capacity :=
    congrArg Array.size (refreshTail_fields r max r.tail).1
  exact (clearAhead_fields (r.reserve max).1 (r.refreshTail max r.tail)).2.2.2.2.2.trans hrefresh

theorem capacity_push (data header : Bytes) (flags : UInt16) (r : PacketRing) :
    (r.push data header flags).2.capacity = r.capacity := by
  rw [push_eq]
  split
  · exact r.capacity_reserve 1
  · simp only [capacity, modifyAt_slots, Array.size_modify]
    exact r.capacity_reserve 1

theorem Sound.contents_takeOff (h : r.Sound) (max : Nat) :
    (r.takeOff max).contents = r.contents.drop max := by
  obtain ⟨c, h⟩ := h
  obtain ⟨s, -, hsl, hsu, ht, hg, hexp, -⟩ := h.peekSeeing h.seenHead_le (Nat.le_refl _) max
  rw [← h.head_eq] at ht hg hexp
  have hocc := h.occupied
  have hocc' : (r.takeOff max).occupied = c.head - (c.tail + (r.peek max).2.exposed) :=
    ((ht.retire (Nat.le_refl _)).2).occupied
  have hpeek : (r.peek max).2.exposed = min (c.head - c.tail) max := hexp.trans hg
  refine List.ext_getElem ?_ fun k hk hk' => ?_
  · rw [length_contents, List.length_drop, length_contents]
    omega
  · simp only [List.getElem_drop, contents, List.getElem_map, List.getElem_range]
    rw [List.length_drop, length_contents] at hk'
    have hslots : (r.takeOff max).slotAt (r.takeOff max).tail k =
        r.slotAt (r.takeOff max).tail k := by
      simp only [slotAt, position, takeOff_slots]
    have hmax : (r.peek max).1 = max := by
      have := h.peek_fst max
      rw [length_contents] at this
      omega
    rw [hslots, takeOff_tail, hmax, slotAt_add]

theorem peek_of_none (hz : (r.peek max).1 = 0) (hm : max ≠ 0) :
    r.readySeeing r.head = 0 ∧ r.peek max = (0, { r with cachedHead := r.head, exposed := 0 }) := by
  have hrefresh : r.refreshHead max r.head = { r with cachedHead := r.head } := by
    rw [refreshHead, if_pos]
    by_contra hn
    rw [peek, peekSeeing, refreshHead, if_neg hn] at hz
    exact hn (by omega)
  rw [peek, peekSeeing, hrefresh] at hz ⊢
  have hready : min (r.readySeeing r.head) max = 0 := hz
  change _ ∧ (min (r.readySeeing r.head) max, { r with
    cachedHead := r.head, exposed := min (r.readySeeing r.head) max }) = _
  rw [hready]
  exact ⟨by omega, rfl⟩

theorem reserve_of_none (hz : (r.reserve max).1 = 0) (hm : max ≠ 0) :
    r.freeSeeing r.tail = 0 ∧
      r.reserve max = (0, { r with cachedTail := r.tail, reserved := 0 }) := by
  have hrefresh : r.refreshTail max r.tail = { r with cachedTail := r.tail } := by
    rw [refreshTail, if_pos]
    by_contra hn
    rw [reserve, reserveSeeing, refreshTail, if_neg hn] at hz
    exact hn (by omega)
  rw [reserve, reserveSeeing, hrefresh] at hz ⊢
  have hfree : min (r.freeSeeing r.tail) max = 0 := hz
  change _ ∧ (min (r.freeSeeing r.tail) max, { (clearAhead (min (r.freeSeeing r.tail) max)
    { r with cachedTail := r.tail }) with reserved := min (r.freeSeeing r.tail) max }) = _
  rw [hfree]
  exact ⟨by omega, rfl⟩

theorem exposed_reserve (max : Nat) (r : PacketRing) : (r.reserve max).2.exposed = r.exposed := by
  have hrefresh : (r.refreshTail max r.tail).exposed = r.exposed :=
    (refreshTail_fields r max r.tail).2.2.2.2.2
  exact (clearAhead_fields (r.reserve max).1 (r.refreshTail max r.tail)).2.2.2.2.1.trans hrefresh

theorem exposed_push (data header : Bytes) (flags : UInt16) (r : PacketRing) :
    (r.push data header flags).2.exposed = r.exposed := by
  rw [push_eq]
  split
  · exact r.exposed_reserve 1
  · simp only [modifyAt_exposed, exposed_reserve]

theorem reserved_peek (max : Nat) (r : PacketRing) : (r.peek max).2.reserved = r.reserved := by
  change (r.refreshHead max r.head).reserved = r.reserved
  rw [refreshHead]
  split <;> rfl

theorem reserved_pop (r : PacketRing) : r.pop.2.reserved = r.reserved := by
  rw [pop_eq]
  split
  · exact r.reserved_peek 1
  · exact r.reserved_peek 1

theorem reserved_popAtMost (n : Nat) (r : PacketRing) :
    (r.popAtMost n).2.reserved = r.reserved := by
  induction n generalizing r with
  | zero => rfl
  | succ n ih =>
    have hpop := r.reserved_pop
    obtain ⟨answer, r', hp⟩ : ∃ answer r', r.pop = (answer, r') := ⟨_, _, rfl⟩
    rw [hp] at hpop
    rw [popAtMost, hp]
    cases answer with
    | none => exact hpop
    | some p => exact (ih r').trans hpop

def Sized (dataSize headerSize : Nat) (r : PacketRing) : Prop :=
  ∀ s ∈ r.slots, s.Fits dataSize headerSize

namespace Sized

variable {dataSize headerSize : Nat}

theorem slotAt (h : r.Sized dataSize headerSize) (base : UInt64) (offset : Nat) :
    (r.slotAt base offset).Fits dataSize headerSize :=
  h _ (Array.getElem_mem _)

theorem of_create {capacity : Nat} (h : create capacity dataSize headerSize = .ok r) :
    r.Sized dataSize headerSize := by
  rw [create] at h
  split at h
  · cases h
    intro s hm
    rw [Array.eq_of_mem_replicate hm]
    exact Slot.fits_blank
  · cases h

theorem of_slots {r' : PacketRing} (h : r.Sized dataSize headerSize) (hs : r'.slots = r.slots) :
    r'.Sized dataSize headerSize := by
  rwa [Sized, hs]

theorem modifyAt (h : r.Sized dataSize headerSize) (base : UInt64) (offset : Nat)
    {f : Slot → Slot} (hf : ∀ s, s.Fits dataSize headerSize → (f s).Fits dataSize headerSize) :
    (r.modifyAt base offset f).Sized dataSize headerSize :=
  fits_modifyAt h hf base offset

theorem reserve (h : r.Sized dataSize headerSize) (max : Nat) :
    (r.reserve max).2.Sized dataSize headerSize :=
  fits_clearAhead (h.of_slots (refreshTail_fields r max r.tail).1) _

theorem push (h : r.Sized dataSize headerSize) (data header : Bytes) (flags : UInt16) :
    (r.push data header flags).2.Sized dataSize headerSize := by
  rw [push_eq]
  split
  · exact h.reserve 1
  · have hload := (h.reserve 1).modifyAt (r.reserve 1).2.head 0
      fun s hf => hf.load data header flags
    exact hload.of_slots rfl

end Sized

def Fits (r : PacketRing) : Prop :=
  ∃ dataSize headerSize, ∀ s ∈ r.slots, s.Fits dataSize headerSize

theorem fits_create {capacity dataSize headerSize : Nat}
    (h : create capacity dataSize headerSize = .ok r) : r.Fits :=
  ⟨dataSize, headerSize, Sized.of_create h⟩

theorem Fits.of_slots {r' : PacketRing} (h : r.Fits) (hs : r'.slots = r.slots) : r'.Fits := by
  obtain ⟨d, n, h⟩ := h
  exact ⟨d, n, hs ▸ h⟩

theorem Fits.takeOff (h : r.Fits) (max : Nat) : (r.takeOff max).Fits :=
  h.of_slots (r.takeOff_slots max)

theorem Fits.modifyAt (h : r.Fits) (base : UInt64) (offset : Nat) {f : Slot → Slot}
    (hf : ∀ d n s, s.Fits d n → (f s).Fits d n) : (r.modifyAt base offset f).Fits := by
  obtain ⟨d, n, h⟩ := h
  exact ⟨d, n, fits_modifyAt h (hf d n) base offset⟩

theorem Fits.reserve (h : r.Fits) (max : Nat) : (r.reserve max).2.Fits := by
  obtain ⟨d, n, h⟩ := h
  exact ⟨d, n, Sized.reserve h max⟩

theorem Fits.push (h : r.Fits) (data header : Bytes) (flags : UInt16) :
    (r.push data header flags).2.Fits := by
  obtain ⟨d, n, h⟩ := h
  exact ⟨d, n, Sized.push h data header flags⟩

end DmaBurst.PacketRing
