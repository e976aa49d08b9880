import DmaBurst.Proofs.Ring.Index

namespace DmaBurst.PacketRing

variable {r r' : PacketRing} {c : Counts}

/-- The slot of index `i`, counted without wrapping. -/
def cell (r : PacketRing) (i : Nat) : Slot :=
  have := Nat.mod_lt i r.slots_pos
  r.slots[i % r.slots.size]

/-- Cut to 64 bits, every index below `bound` still leads to its own slot. -/
def Addresses (capacity bound : Nat) : Prop :=
  ∀ i < bound, i % 2 ^ 64 % capacity = i % capacity

theorem addresses_of_dvd_or_le {capacity bound : Nat} (h : capacity ∣ 2 ^ 64 ∨ bound ≤ 2 ^ 64) :
    Addresses capacity bound := by
  intro i hi
  cases h with
  | inl hd => exact Nat.mod_mod_of_dvd i hd
  | inr hb => rw [Nat.mod_eq_of_lt (Nat.lt_of_lt_of_le hi hb)]

theorem Addresses.mono {capacity bound bound' : Nat} (h : Addresses capacity bound)
    (hb : bound' ≤ bound) : Addresses capacity bound' :=
  fun i hi => h i (Nat.lt_of_lt_of_le hi hb)

theorem position_eq {bound base offset : Nat} (ha : Addresses r.capacity bound)
    (hb : base + offset < bound) :
    r.position (.ofNat base) offset = (base + offset) % r.capacity := by
  rw [position, ← UInt64.ofNat_add, UInt64.toNat_ofNat']
  exact ha _ hb

theorem slotAt_eq_cell {bound base offset : Nat} (ha : Addresses r.capacity bound)
    (hb : base + offset < bound) : r.slotAt (.ofNat base) offset = r.cell (base + offset) := by
  simp only [slotAt, cell, position_eq ha hb, capacity]

theorem cell_congr (h : r'.slots = r.slots) (i : Nat) : r'.cell i = r.cell i := by
  simp only [cell, h]

theorem cell_mem (r : PacketRing) (i : Nat) : r.cell i ∈ r.slots :=
  Array.getElem_mem _

/-- Less than one turn apart, different indices have different slots. -/
theorem mod_ne_mod {capacity start i j : Nat} (hi : start ≤ i) (hi' : i < start + capacity)
    (hj : start ≤ j) (hj' : j < start + capacity) (hne : i ≠ j) :
    i % capacity ≠ j % capacity := by
  intro h
  exact hne (Nat.ModEq.eq_of_abs_lt h (abs_lt.mpr ⟨by omega, by omega⟩))

theorem cell_modifyAt {bound base offset : Nat} (ha : Addresses r.capacity bound)
    (hb : base + offset < bound) (f : Slot → Slot) (i : Nat) :
    (r.modifyAt (.ofNat base) offset f).cell i =
      if (base + offset) % r.capacity = i % r.capacity then f (r.cell i) else r.cell i := by
  have hp := position_eq ha hb
  rw [position] at hp
  simp only [cell, modifyAt_slots, Array.getElem_modify, Array.size_modify, hp]
  rfl

theorem cell_modifyAt_of_turn {bound base offset start i : Nat} (ha : Addresses r.capacity bound)
    (hb : base + offset < bound) (f : Slot → Slot) (hl : start ≤ base + offset)
    (hu : base + offset < start + r.capacity) (hi : start ≤ i) (hi' : i < start + r.capacity) :
    (r.modifyAt (.ofNat base) offset f).cell i =
      if base + offset = i then f (r.cell i) else r.cell i := by
  rw [cell_modifyAt ha hb]
  by_cases h : base + offset = i
  · rw [h, if_pos rfl, if_pos rfl]
  · rw [if_neg (mod_ne_mod hl hu hi hi' h), if_neg h]

theorem cell_clearAhead {bound base start : Nat} (hh : r.head = .ofNat base) (count : Nat)
    (ha : Addresses r.capacity bound) (hb : base + count ≤ bound) (hl : start ≤ base)
    (hu : base + count ≤ start + r.capacity) {i : Nat} (hi : start ≤ i)
    (hi' : i < start + r.capacity) :
    (r.clearAhead count).cell i =
      if base ≤ i ∧ i < base + count then (r.cell i).clear else r.cell i := by
  induction count with
  | zero =>
    rw [if_neg (by omega)]
    rfl
  | succ count ih =>
    obtain ⟨fh, -, -, -, -, fc⟩ := clearAhead_fields count r
    rw [clearAhead_succ, fh, hh, cell_modifyAt_of_turn (fc.symm ▸ ha) (by omega) _
      (Nat.le_trans hl (Nat.le_add_right _ _)) (by omega) hi (by omega),
      ih (by omega) (by omega)]
    by_cases he : base + count = i
    · rw [if_pos he, if_neg (by omega), if_pos (by omega)]
    · rw [if_neg he]
      congr 1
      simp only [eq_iff_iff]
      omega

def stretch (r : PacketRing) (start len : Nat) : List Slot :=
  (List.range len).map fun k => r.cell (start + k)

@[simp] theorem length_stretch (start len : Nat) : (r.stretch start len).length = len := by
  simp [stretch]

theorem getElem?_stretch {start len k : Nat} (h : k < len) :
    (r.stretch start len)[k]? = some (r.cell (start + k)) := by
  simp [stretch, h]

theorem stretch_add (start m n : Nat) :
    r.stretch start (m + n) = r.stretch start m ++ r.stretch (start + m) n := by
  simp [stretch, List.range_add, List.map_map, Function.comp_def, Nat.add_assoc]

theorem take_stretch {start m n : Nat} (h : m ≤ n) :
    (r.stretch start n).take m = r.stretch start m := by
  obtain ⟨k, rfl⟩ := Nat.exists_eq_add_of_le h
  rw [stretch_add]
  exact List.take_left' (length_stretch start m)

theorem drop_stretch {start m n : Nat} (h : m ≤ n) :
    (r.stretch start n).drop m = r.stretch (start + m) (n - m) := by
  obtain ⟨k, rfl⟩ := Nat.exists_eq_add_of_le h
  rw [stretch_add, Nat.add_sub_cancel_left]
  exact List.drop_left' (length_stretch start m)

theorem stretch_congr {start len : Nat}
    (h : ∀ i, start ≤ i → i < start + len → r'.cell i = r.cell i) :
    r'.stretch start len = r.stretch start len := by
  apply List.map_congr_left
  intro k hk
  exact h _ (Nat.le_add_right _ _) (Nat.add_lt_add_left (List.mem_range.mp hk) _)

theorem StandsAt.contents_eq (h : r.StandsAt c) (ha : Addresses r.capacity c.head) :
    r.contents = (r.stretch c.tail (c.head - c.tail)).map Slot.packet := by
  rw [contents, stretch, List.map_map, h.occupied]
  apply List.map_congr_left
  intro k hk
  have := List.mem_range.mp hk
  simp only [Function.comp_apply, h.tail_eq, slotAt_eq_cell ha (show c.tail + k < c.head by omega)]

end DmaBurst.PacketRing
