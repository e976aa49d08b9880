import Mathlib.Data.Nat.ModEq
import DmaBurst.PacketRing.Basic

namespace DmaBurst.PacketRing

theorem toNat_sub_ofNat {a b : Nat} (hb : b ≤ a) (ha : a < b + 2 ^ 64) :
    (UInt64.ofNat a - UInt64.ofNat b).toNat = a - b := by
  rw [← UInt64.ofNat_sub hb, UInt64.toNat_ofNat', Nat.mod_eq_of_lt (by omega)]

/-- Where the two sides of a ring stand, counted without wrapping: slots published, slots retired,
and the copy that each side keeps of the count of the other. -/
structure Counts where
  head : Nat
  tail : Nat
  seenTail : Nat
  seenHead : Nat

/-- The ring stands at these counts, and both windows lie within what the copies promise. It says
nothing about the slots, and holds however often the indices have wrapped. -/
structure StandsAt (r : PacketRing) (c : Counts) : Prop where
  capacity_lt : r.capacity < 2 ^ 64
  head_eq : r.head = .ofNat c.head
  tail_eq : r.tail = .ofNat c.tail
  cachedTail_eq : r.cachedTail = .ofNat c.seenTail
  cachedHead_eq : r.cachedHead = .ofNat c.seenHead
  seenTail_le : c.seenTail ≤ c.tail
  tail_le : c.tail ≤ c.seenHead
  seenHead_le : c.seenHead ≤ c.head
  reserved_le : c.head + r.reserved ≤ c.seenTail + r.capacity
  exposed_le : c.tail + r.exposed ≤ c.seenHead

def Sound (r : PacketRing) : Prop :=
  ∃ c, r.StandsAt c

variable {r : PacketRing} {c : Counts}

theorem StandsAt.occupied (h : r.StandsAt c) : r.occupied = c.head - c.tail := by
  have := h.capacity_lt
  have := h.seenTail_le
  have := h.tail_le
  have := h.seenHead_le
  have := h.reserved_le
  rw [PacketRing.occupied, readySeeing, h.head_eq, h.tail_eq, toNat_sub_ofNat (by omega) (by omega)]

theorem StandsAt.head_le (h : r.StandsAt c) : c.head ≤ c.tail + r.capacity := by
  have := h.seenTail_le
  have := h.reserved_le
  omega

theorem StandsAt.freeSeeing (h : r.StandsAt c) {seen : Nat} (hl : c.seenTail ≤ seen)
    (hu : seen ≤ c.tail) : r.freeSeeing (.ofNat seen) = seen + r.capacity - c.head := by
  have := h.capacity_lt
  have := h.tail_le
  have := h.seenHead_le
  have := h.reserved_le
  rw [PacketRing.freeSeeing, h.head_eq, toNat_sub_ofNat (by omega) (by omega)]
  omega

theorem StandsAt.readySeeing (h : r.StandsAt c) {seen : Nat} (hl : c.seenHead ≤ seen)
    (hu : seen ≤ c.head) : r.readySeeing (.ofNat seen) = seen - c.tail := by
  have := h.capacity_lt
  have := h.tail_le
  have := h.head_le
  rw [PacketRing.readySeeing, h.tail_eq, toNat_sub_ofNat (by omega) (by omega)]

theorem create_eq {capacity : Nat} (h : 0 < capacity) (dataSize headerSize : Nat) :
    ∃ r, create capacity dataSize headerSize = .ok r ∧ r.reserved = 0 ∧ r.exposed = 0 ∧
      r.slots = Array.replicate capacity (Slot.blank dataSize headerSize) ∧
      (capacity < 2 ^ 64 → r.StandsAt ⟨0, 0, 0, 0⟩) := by
  rw [create, dif_pos h]
  refine ⟨_, rfl, rfl, rfl, rfl, fun hc => ?_⟩
  exact ⟨by simpa [PacketRing.capacity] using hc, rfl, rfl, rfl, rfl, by simp, by simp, by simp,
    by simp, by simp⟩

section Fields

variable (base : UInt64) (offset count : Nat) (f : Slot → Slot) (r : PacketRing)

@[simp] theorem modifyAt_head : (r.modifyAt base offset f).head = r.head := rfl
@[simp] theorem modifyAt_tail : (r.modifyAt base offset f).tail = r.tail := rfl
@[simp] theorem modifyAt_cachedTail : (r.modifyAt base offset f).cachedTail = r.cachedTail := rfl
@[simp] theorem modifyAt_cachedHead : (r.modifyAt base offset f).cachedHead = r.cachedHead := rfl
@[simp] theorem modifyAt_reserved : (r.modifyAt base offset f).reserved = r.reserved := rfl
@[simp] theorem modifyAt_exposed : (r.modifyAt base offset f).exposed = r.exposed := rfl

@[simp] theorem modifyAt_capacity : (r.modifyAt base offset f).capacity = r.capacity :=
  Array.size_modify

theorem clearAhead_succ :
    r.clearAhead (count + 1) = (r.clearAhead count).modifyAt (r.clearAhead count).head count
      Slot.clear := by
  rw [clearAhead, Nat.fold_succ, clearAhead]

theorem clearAhead_fields :
    (r.clearAhead count).head = r.head ∧ (r.clearAhead count).tail = r.tail ∧
      (r.clearAhead count).cachedTail = r.cachedTail ∧
      (r.clearAhead count).cachedHead = r.cachedHead ∧
      (r.clearAhead count).exposed = r.exposed ∧ (r.clearAhead count).capacity = r.capacity := by
  induction count with
  | zero => exact ⟨rfl, rfl, rfl, rfl, rfl, rfl⟩
  | succ count ih =>
    rw [clearAhead_succ]
    simpa using ih

theorem refreshTail_fields (max : Nat) (seen : UInt64) :
    (r.refreshTail max seen).slots = r.slots ∧ (r.refreshTail max seen).head = r.head ∧
      (r.refreshTail max seen).tail = r.tail ∧
      ((r.refreshTail max seen).cachedTail = r.cachedTail ∨
        (r.refreshTail max seen).cachedTail = seen) ∧
      (r.refreshTail max seen).cachedHead = r.cachedHead ∧
      (r.refreshTail max seen).exposed = r.exposed := by
  rw [refreshTail]
  split
  · exact ⟨rfl, rfl, rfl, .inr rfl, rfl, rfl⟩
  · exact ⟨rfl, rfl, rfl, .inl rfl, rfl, rfl⟩

end Fields

/-- The writer looks again only when its copy does not promise enough, so it is granted what it
would be granted on a fresh look. -/
theorem StandsAt.refreshTail (h : r.StandsAt c) {seen : Nat} (hl : c.seenTail ≤ seen)
    (hu : seen ≤ c.tail) (max : Nat) :
    ∃ s, s = (if r.freeSeeing r.cachedTail < max then seen else c.seenTail) ∧
      c.seenTail ≤ s ∧ s ≤ seen ∧
      (r.refreshTail max (.ofNat seen)).StandsAt { c with seenTail := s } ∧
      min (s + r.capacity - c.head) max = min (seen + r.capacity - c.head) max ∧
      (r.refreshTail max (.ofNat seen)).slots = r.slots := by
  have hfree := h.freeSeeing (Nat.le_refl c.seenTail) h.seenTail_le
  rw [← h.cachedTail_eq] at hfree
  by_cases hm : r.freeSeeing r.cachedTail < max
  · have hr : c.head + r.reserved ≤ seen + r.capacity := by
      have := h.reserved_le
      omega
    refine ⟨seen, (if_pos hm).symm, hl, Nat.le_refl _, ?_, rfl, ?_⟩
    · rw [PacketRing.refreshTail, if_pos hm]
      exact { h with
        cachedTail_eq := rfl
        seenTail_le := hu
        reserved_le := hr }
    · rw [PacketRing.refreshTail, if_pos hm]
  · have hsame : r.refreshTail max (.ofNat seen) = r := if_neg hm
    rw [hsame]
    exact ⟨c.seenTail, (if_neg hm).symm, Nat.le_refl _, hl, h, by omega, rfl⟩

theorem StandsAt.refreshHead (h : r.StandsAt c) {seen : Nat} (hl : c.seenHead ≤ seen)
    (hu : seen ≤ c.head) (max : Nat) :
    ∃ s, s = (if r.readySeeing r.cachedHead < max then seen else c.seenHead) ∧
      c.seenHead ≤ s ∧ s ≤ seen ∧
      (r.refreshHead max (.ofNat seen)).StandsAt { c with seenHead := s } ∧
      min (s - c.tail) max = min (seen - c.tail) max ∧
      (r.refreshHead max (.ofNat seen)).slots = r.slots := by
  have hready := h.readySeeing (Nat.le_refl c.seenHead) h.seenHead_le
  rw [← h.cachedHead_eq] at hready
  by_cases hm : r.readySeeing r.cachedHead < max
  · have he : c.tail + r.exposed ≤ seen := by
      have := h.exposed_le
      omega
    refine ⟨seen, (if_pos hm).symm, hl, Nat.le_refl _, ?_, rfl, ?_⟩
    · rw [PacketRing.refreshHead, if_pos hm]
      exact { h with
        cachedHead_eq := rfl
        tail_le := Nat.le_trans h.tail_le hl
        seenHead_le := hu
        exposed_le := he }
    · rw [PacketRing.refreshHead, if_pos hm]
  · have hsame : r.refreshHead max (.ofNat seen) = r := if_neg hm
    rw [hsame]
    exact ⟨c.seenHead, (if_neg hm).symm, Nat.le_refl _, hl, h, by omega, rfl⟩

theorem modifyAt_slots (base : UInt64) (offset : Nat) (f : Slot → Slot) (r : PacketRing) :
    (r.modifyAt base offset f).slots =
      r.slots.modify ((base + UInt64.ofNat offset).toNat % r.slots.size) f := rfl

theorem clearAhead_slots_congr {r r' : PacketRing} (hs : r'.slots = r.slots)
    (hh : r'.head = r.head) (count : Nat) :
    (r'.clearAhead count).slots = (r.clearAhead count).slots := by
  induction count with
  | zero => exact hs
  | succ count ih =>
    rw [clearAhead_succ, clearAhead_succ, modifyAt_slots, modifyAt_slots, ih,
      (clearAhead_fields count r').1, (clearAhead_fields count r).1, hh]

theorem StandsAt.reserveSeeing (h : r.StandsAt c) {seen : Nat} (hl : c.seenTail ≤ seen)
    (hu : seen ≤ c.tail) (max : Nat) :
    ∃ s, c.seenTail ≤ s ∧ s ≤ seen ∧
      (r.reserveSeeing (.ofNat seen) max).2.StandsAt { c with seenTail := s } ∧
      (r.reserveSeeing (.ofNat seen) max).1 = min (seen + r.capacity - c.head) max ∧
      (r.reserveSeeing (.ofNat seen) max).2.reserved = (r.reserveSeeing (.ofNat seen) max).1 ∧
      (r.reserveSeeing (.ofNat seen) max).2.exposed = r.exposed ∧
      (r.reserveSeeing (.ofNat seen) max).2.slots =
        (r.clearAhead (r.reserveSeeing (.ofNat seen) max).1).slots := by
  obtain ⟨s, -, hsl, hsu, ht, hm, hslots⟩ := h.refreshTail hl hu max
  have hfree := ht.freeSeeing (Nat.le_refl _) ht.seenTail_le
  have hcap : (r.refreshTail max (.ofNat seen)).capacity = r.capacity := by
    rw [capacity, capacity, hslots]
  rw [← ht.cachedTail_eq, hcap] at hfree
  have hgrant : (r.reserveSeeing (.ofNat seen) max).1 = min (seen + r.capacity - c.head) max := by
    rw [PacketRing.reserveSeeing, ← hm, ← hfree]
  obtain ⟨fh, ft, fct, fch, fe, fc⟩ := clearAhead_fields
    (r.reserveSeeing (.ofNat seen) max).1 (r.refreshTail max (.ofNat seen))
  have hhead : (r.refreshTail max (.ofNat seen)).head = r.head := ht.head_eq.trans h.head_eq.symm
  have hroom : c.head + (r.reserveSeeing (.ofNat seen) max).1 ≤ s + r.capacity := by
    have := h.reserved_le
    omega
  refine ⟨s, hsl, hsu, ?_, hgrant, rfl, ?_, clearAhead_slots_congr hslots hhead _⟩
  · exact ⟨fc.symm ▸ ht.capacity_lt, fh.trans ht.head_eq, ft.trans ht.tail_eq,
      fct.trans ht.cachedTail_eq, fch.trans ht.cachedHead_eq, ht.seenTail_le, ht.tail_le,
      ht.seenHead_le, (fc.trans hcap).symm ▸ hroom, fe.symm ▸ ht.exposed_le⟩
  · refine fe.trans ?_
    rw [PacketRing.refreshTail]
    split <;> rfl

theorem StandsAt.peekSeeing (h : r.StandsAt c) {seen : Nat} (hl : c.seenHead ≤ seen)
    (hu : seen ≤ c.head) (max : Nat) :
    ∃ s, s = (if r.readySeeing r.cachedHead < max then seen else c.seenHead) ∧
      c.seenHead ≤ s ∧ s ≤ seen ∧
      (r.peekSeeing (.ofNat seen) max).2.StandsAt { c with seenHead := s } ∧
      (r.peekSeeing (.ofNat seen) max).1 = min (seen - c.tail) max ∧
      (r.peekSeeing (.ofNat seen) max).2.exposed = (r.peekSeeing (.ofNat seen) max).1 ∧
      (r.peekSeeing (.ofNat seen) max).2.reserved = r.reserved ∧
      (r.peekSeeing (.ofNat seen) max).2.slots = r.slots := by
  obtain ⟨s, hs, hsl, hsu, ht, hm, hslots⟩ := h.refreshHead hl hu max
  have hready := ht.readySeeing (Nat.le_refl _) ht.seenHead_le
  rw [← ht.cachedHead_eq] at hready
  have hgrant : (r.peekSeeing (.ofNat seen) max).1 = min (seen - c.tail) max := by
    rw [PacketRing.peekSeeing, ← hm, ← hready]
  have hroom : c.tail + (r.peekSeeing (.ofNat seen) max).1 ≤ s := by
    have := ht.tail_le
    simp only at this
    omega
  refine ⟨s, hs, hsl, hsu, { ht with exposed_le := hroom }, hgrant, rfl, ?_, hslots⟩
  change (r.refreshHead max (.ofNat seen)).reserved = r.reserved
  rw [PacketRing.refreshHead]
  split <;> rfl

theorem StandsAt.publish (h : r.StandsAt c) {count : Nat} (hc : count ≤ r.reserved) :
    r.publish count = .ok { r with head := r.head + .ofNat count, reserved := 0 } ∧
      StandsAt { r with head := r.head + .ofNat count, reserved := 0 }
        { c with head := c.head + count } := by
  have hr : c.head + count + 0 ≤ c.seenTail + r.capacity := by
    have := h.reserved_le
    omega
  refine ⟨if_pos hc, { h with
    head_eq := ?_
    seenHead_le := Nat.le_trans h.seenHead_le (Nat.le_add_right _ _)
    reserved_le := hr }⟩
  rw [UInt64.ofNat_add, ← h.head_eq]

theorem StandsAt.retire (h : r.StandsAt c) {count : Nat} (hc : count ≤ r.exposed) :
    r.retire count = .ok { r with tail := r.tail + .ofNat count, exposed := 0 } ∧
      StandsAt { r with tail := r.tail + .ofNat count, exposed := 0 }
        { c with tail := c.tail + count } := by
  have he : c.tail + count + 0 ≤ c.seenHead := by
    have := h.exposed_le
    omega
  refine ⟨if_pos hc, { h with
    tail_eq := ?_
    seenTail_le := Nat.le_trans h.seenTail_le (Nat.le_add_right _ _)
    tail_le := he
    exposed_le := he }⟩
  rw [UInt64.ofNat_add, ← h.tail_eq]

theorem StandsAt.modifyAt (h : r.StandsAt c) (base : UInt64) (offset : Nat) (f : Slot → Slot) :
    (r.modifyAt base offset f).StandsAt c :=
  { h with
    capacity_lt := (modifyAt_capacity base offset f r).symm ▸ h.capacity_lt
    reserved_le := (modifyAt_capacity base offset f r).symm ▸ h.reserved_le }

end DmaBurst.PacketRing
