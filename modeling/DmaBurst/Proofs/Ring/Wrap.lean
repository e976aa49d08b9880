import Mathlib.Data.List.Nodup
import DmaBurst.Proofs.Ring.Refinement
import DmaBurst.Proofs.Ring.Idle

namespace DmaBurst

namespace PacketRing

variable {r : PacketRing} {c : Counts} {f : Fifo} {bound : Nat}

def publishedPlaces (r : PacketRing) : List Nat :=
  (List.range r.occupied).map (r.position r.tail)

def lentPlaces (r : PacketRing) : List Nat :=
  (List.range r.reserved).map (r.position r.head)

/-- No place is used twice, by either side. -/
def Apart (r : PacketRing) : Prop :=
  (r.publishedPlaces ++ r.lentPlaces).Nodup

instance : Decidable r.Apart :=
  inferInstanceAs (Decidable (List.Nodup _))

theorem StandsAt.places_eq (h : r.StandsAt c) (ha : Addresses r.capacity bound)
    (hb : c.head + r.reserved ≤ bound) :
    r.publishedPlaces ++ r.lentPlaces =
      (List.range (c.head - c.tail + r.reserved)).map fun k => (c.tail + k) % r.capacity := by
  have htail := Nat.le_trans h.tail_le h.seenHead_le
  rw [List.range_add, List.map_append, List.map_map]
  congr 1
  · rw [publishedPlaces, h.occupied]
    refine List.map_congr_left fun k hk => ?_
    have := List.mem_range.mp hk
    rw [h.tail_eq, position_eq ha (by omega)]
  · refine List.map_congr_left fun k hk => ?_
    have := List.mem_range.mp hk
    rw [h.head_eq, position_eq ha (by omega), Function.comp_apply]
    congr 1
    omega

theorem StandsAt.apart (h : r.StandsAt c) (ha : Addresses r.capacity bound)
    (hb : c.head + r.reserved ≤ bound) : r.Apart := by
  have hres := h.reserved_le
  have hseen := h.seenTail_le
  have htail := Nat.le_trans h.tail_le h.seenHead_le
  rw [Apart, h.places_eq ha hb]
  refine List.Nodup.map_on (fun i hi j hj hij => ?_) List.nodup_range
  have := List.mem_range.mp hi
  have := List.mem_range.mp hj
  by_contra hne
  have hi' : c.tail + i < c.tail + r.capacity := by omega
  have hj' : c.tail + j < c.tail + r.capacity := by omega
  exact mod_ne_mod (Nat.le_add_right _ _) hi' (Nat.le_add_right _ _) hj' (by omega) hij

section Runs

def turnover : Nat → List RingOp
  | 0 => []
  | n + 1 => .push [] [] 0 :: .pop :: turnover n

theorem Shows.turnover {n : Nat} (h : r.Shows c f) (hf : f.queue = []) (hpos : 0 < f.capacity)
    (ha : Addresses r.capacity bound) (hb : c.head + n ≤ bound) :
    ∃ c' f', (PacketRing.runAll (PacketRing.turnover n) r).2.Shows c' f' ∧ f'.queue = [] ∧
      c'.head = c.head + n ∧ f'.capacity = f.capacity := by
  induction n generalizing r c f with
  | zero => exact ⟨c, f, h, hf, rfl, rfl⟩
  | succ n ih =>
    have hfree : f.queue.length < f.capacity := by simpa [hf] using hpos
    obtain ⟨-, c₁, hc₁, -, h₁⟩ := h.push_of_free hfree ha (by omega) [] [] 0
    simp only [hf, List.nil_append] at h₁
    have hcap₁ : (r.push [] [] 0).2.capacity = r.capacity := capacity_push _ _ _ _
    obtain ⟨-, c₂, hc₂, -, h₂⟩ := h₁.pop_of_cons rfl (hcap₁.symm ▸ ha) (by omega)
    have hcap₂ : (r.push [] [] 0).2.pop.2.capacity = r.capacity := by
      rw [← h₂.capacity_eq, ← h.capacity_eq]
    obtain ⟨c', f', h', hq, hc', hcap'⟩ := ih h₂ rfl hpos (hcap₂.symm ▸ ha) (by omega)
    exact ⟨c', f', h', hq, by omega, hcap'⟩

end Runs

section Overrun

theorem StandsAt.push (h : r.StandsAt c) (hf : c.head < c.tail + r.capacity)
    (data header : Bytes) (flags : UInt16) :
    (r.push data header flags).1 = true ∧ (r.push data header flags).2.reserved = 0 ∧
      ∃ c', c'.head = c.head + 1 ∧ c'.tail = c.tail ∧
        (r.push data header flags).2.StandsAt c' := by
  obtain ⟨s, -, -, ht, hg, hres, -⟩ := h.reserveSeeing h.seenTail_le (Nat.le_refl _) 1
  rw [← h.tail_eq] at ht hg hres
  have hone : (r.reserve 1).1 = 1 := by
    rw [reserve, hg]
    omega
  have hfilled : 1 ≤ ((r.reserve 1).2.modifyAt (r.reserve 1).2.head 0
      (Slot.load data header flags)).reserved := (hres.trans hone).ge
  have hload := ht.modifyAt (r.reserve 1).2.head 0 (Slot.load data header flags)
  rw [push_eq, if_neg (by omega)]
  refine ⟨rfl, rfl, { c with head := c.head + 1, seenTail := s }, rfl, rfl, ?_⟩
  exact (hload.publish hfilled).2

theorem flags_slotAt_push {data header : Bytes} {flags : UInt16} {base : UInt64} {offset : Nat}
    (hp : (r.push data header flags).1 = true)
    (hb : r.position base offset = r.position r.head 0) :
    ((r.push data header flags).2.slotAt base offset).flags = flags := by
  have hne : (r.reserve 1).1 ≠ 0 := by
    intro hz
    rw [push_eq, if_pos hz] at hp
    exact Bool.false_ne_true hp
  have hsize : (r.reserve 1).2.slots.size = r.slots.size := r.capacity_reserve 1
  have hhead := (r.reserve_fields 1).1
  rw [position, position] at hb
  simp only [push_eq, if_neg hne, slotAt, position, modifyAt_slots, Array.size_modify,
    Array.getElem_modify, hsize, hhead, hb]
  rfl

theorem StandsAt.pushes {n : Nat} (h : r.StandsAt c) (hf : c.head + n ≤ c.tail + r.capacity) :
    ∃ c', c'.head = c.head + n ∧ c'.tail = c.tail ∧
      (PacketRing.runAll (List.replicate n (.push [] [] 0)) r).2.StandsAt c' ∧
      (PacketRing.runAll (List.replicate n (.push [] [] 0)) r).2.capacity = r.capacity := by
  induction n generalizing r c with
  | zero => exact ⟨c, rfl, rfl, h, rfl⟩
  | succ n ih =>
    obtain ⟨-, -, c₁, hc₁, ht₁, h₁⟩ := h.push (by omega) [] [] 0
    have hcap₁ : (r.push [] [] 0).2.capacity = r.capacity := capacity_push _ _ _ _
    obtain ⟨c', hc', ht', h', hcap'⟩ := ih h₁ (by omega)
    exact ⟨c', by omega, by omega, h', hcap'.trans hcap₁⟩

/-- The place of the last index before the wrap is that of a later one, less than a turn away. -/
theorem place_of_wrap {capacity : Nat} (h0 : 0 < capacity) (hd : ¬capacity ∣ 2 ^ 64) :
    0 < 2 ^ 64 % capacity ∧ 2 ^ 64 % capacity < capacity ∧
      (2 ^ 64 - 1 + 0) % 2 ^ 64 % capacity =
        (2 ^ 64 - 1 + 2 ^ 64 % capacity) % 2 ^ 64 % capacity := by
  have hpos : 0 < 2 ^ 64 % capacity := Nat.pos_of_ne_zero fun hz => hd (Nat.dvd_of_mod_eq_zero hz)
  have hlt := Nat.mod_lt (2 ^ 64) h0
  have hle := Nat.mod_le (2 ^ 64) capacity
  have hmod : (2 ^ 64 - 1 + 2 ^ 64 % capacity) % 2 ^ 64 = 2 ^ 64 % capacity - 1 := by omega
  have hsplit : 2 ^ 64 - 1 = 2 ^ 64 % capacity - 1 + capacity * (2 ^ 64 / capacity) := by
    have := Nat.div_add_mod (2 ^ 64) capacity
    omega
  refine ⟨hpos, hlt, ?_⟩
  calc (2 ^ 64 - 1 + 0) % 2 ^ 64 % capacity
      = (2 ^ 64 - 1) % capacity := by
        rw [Nat.mod_eq_of_lt (by decide : 2 ^ 64 - 1 + 0 < 2 ^ 64), Nat.add_zero]
    _ = (2 ^ 64 % capacity - 1 + capacity * (2 ^ 64 / capacity)) % capacity := by rw [← hsplit]
    _ = (2 ^ 64 % capacity - 1) % capacity := Nat.add_mul_mod_self_left _ _ _
    _ = (2 ^ 64 - 1 + 2 ^ 64 % capacity) % 2 ^ 64 % capacity := by rw [hmod]

theorem position_ofNat (r : PacketRing) (base offset : Nat) :
    r.position (.ofNat base) offset = (base + offset) % 2 ^ 64 % r.capacity := by
  rw [position, ← UInt64.ofNat_add, UInt64.toNat_ofNat']
  rfl

/-- One packet flagged `1` and then, flagged `0`, as many as it takes to come round to its place, if
it is at the last index before the wrap and the capacity does not divide `2 ^ 64`. -/
def lap (capacity : Nat) : List RingOp :=
  .push [] [] 1 :: List.replicate (2 ^ 64 % capacity) (.push [] [] 0)

/-- The youngest packet of the lap lies at the place of the oldest, and has overwritten it. -/
theorem StandsAt.lap (h : r.StandsAt c) (hhead : c.head = 2 ^ 64 - 1) (htail : c.tail = 2 ^ 64 - 1)
    (h0 : 0 < r.capacity) (hd : ¬r.capacity ∣ 2 ^ 64) :
    ∃ s, (PacketRing.runAll (PacketRing.lap r.capacity) r).2 = s ∧ s.Sound ∧
      s.occupied = 2 ^ 64 % r.capacity + 1 ∧
      s.position s.tail 0 = s.position s.tail (2 ^ 64 % r.capacity) ∧
      (s.slotAt s.tail 0).flags = 0 := by
  obtain ⟨hpos, hlt, hplace⟩ := place_of_wrap h0 hd
  obtain ⟨m, hm⟩ : ∃ m, 2 ^ 64 % r.capacity = m + 1 := Nat.exists_eq_add_one.mpr hpos
  rw [hm] at hlt hplace
  obtain ⟨-, -, c₁, hc₁, ht₁, h₁⟩ := h.push (by omega) [] [] 1
  have hk₁ : (r.push [] [] 1).2.capacity = r.capacity := capacity_push _ _ _ _
  obtain ⟨c₂, hc₂, ht₂, h₂, hk₂⟩ := h₁.pushes (n := m) (by omega)
  generalize hr₂ : (PacketRing.runAll (List.replicate m (.push [] [] 0)) (r.push [] [] 1).2).2 = r₂
    at h₂ hk₂
  rw [hk₁] at hk₂
  obtain ⟨hp, -, c₃, hc₃, ht₃, h₃⟩ := h₂.push (by omega) [] [] 0
  have hk₃ : (r₂.push [] [] 0).2.capacity = r.capacity := (capacity_push _ _ _ _).trans hk₂
  have hs : (PacketRing.runAll (PacketRing.lap r.capacity) r).2 = (r₂.push [] [] 0).2 := by
    rw [PacketRing.lap, hm, List.replicate_succ', runAll_cons, runAll_append]
    exact congrArg (fun r => (r.push [] [] 0).2) hr₂
  have hocc : c₃.head - c₃.tail = m + 1 + 1 := by omega
  have htail' : c₃.tail = 2 ^ 64 - 1 := by omega
  have hhead' : c₂.head = 2 ^ 64 - 1 + (m + 1) := by omega
  rw [hm]
  refine ⟨_, hs, ⟨c₃, h₃⟩, h₃.occupied.trans hocc, ?_, flags_slotAt_push hp ?_⟩
  · rw [h₃.tail_eq, htail', position_ofNat, position_ofNat, hk₃]
    exact hplace
  · rw [h₃.tail_eq, h₂.head_eq, htail', hhead', position_ofNat, position_ofNat, hk₂]
    exact hplace

/-- The run that takes the indices to the edge of the wrap and then round the ring. -/
def overrun (capacity : Nat) : List RingOp :=
  turnover (2 ^ 64 - 1) ++ lap capacity

theorem Shows.overrun (h : r.Shows ⟨0, 0, 0, 0⟩ f) (hf : f.queue = []) (h0 : 0 < r.capacity)
    (hd : ¬r.capacity ∣ 2 ^ 64) :
    ∃ s, (PacketRing.runAll (PacketRing.overrun r.capacity) r).2 = s ∧ s.Sound ∧
      s.occupied = 2 ^ 64 % r.capacity + 1 ∧
      s.position s.tail 0 = s.position s.tail (2 ^ 64 % r.capacity) ∧
      (s.slotAt s.tail 0).flags = 0 := by
  obtain ⟨c', f', h', hq, hc, hcap⟩ := h.turnover (n := 2 ^ 64 - 1) hf
    (h.capacity_eq.symm ▸ h0) (addresses_of_dvd_or_le (.inr (Nat.le_refl (2 ^ 64))))
    (by decide)
  have hhead : c'.head = 2 ^ 64 - 1 := hc.trans (Nat.zero_add _)
  have htail : c'.tail = 2 ^ 64 - 1 := by
    have hlen := h'.length_queue
    have := h'.stands.tail_le
    have := h'.stands.seenHead_le
    rw [hq, List.length_nil] at hlen
    omega
  have hk : (PacketRing.runAll (PacketRing.turnover (2 ^ 64 - 1)) r).2.capacity = r.capacity :=
    h'.capacity_eq.symm.trans (hcap.trans h.capacity_eq)
  obtain ⟨s, hs, h⟩ := h'.stands.lap hhead htail (hk.symm ▸ h0) (hk.symm ▸ hd)
  rw [hk] at hs h
  exact ⟨s, (congrArg Prod.snd (runAll_append _ _ r)).trans hs, h⟩

theorem Shows.not_apart_overrun (h : r.Shows ⟨0, 0, 0, 0⟩ f) (hf : f.queue = [])
    (h0 : 0 < r.capacity) (hd : ¬r.capacity ∣ 2 ^ 64) :
    ¬(PacketRing.runAll (PacketRing.overrun r.capacity) r).2.Apart := by
  obtain ⟨s, hs, -, hocc, hmeet, -⟩ := h.overrun hf h0 hd
  obtain ⟨hpos, -⟩ := place_of_wrap h0 hd
  rw [hs]
  intro hn
  have hlast : 2 ^ 64 % r.capacity < s.publishedPlaces.length := by
    simp [publishedPlaces, hocc]
  apply List.nodup_iff_getElem?_ne_getElem?.mp (List.Nodup.of_append_left hn) 0 _ hpos hlast
  simp [publishedPlaces, hocc, hmeet]

theorem Shows.pop_overrun (h : r.Shows ⟨0, 0, 0, 0⟩ f) (hf : f.queue = [])
    (h0 : 0 < r.capacity) (hd : ¬r.capacity ∣ 2 ^ 64) :
    ∃ p, (PacketRing.runAll (PacketRing.overrun r.capacity) r).2.pop.1 = some p ∧
      p.flags = 0 := by
  obtain ⟨s, hs, ⟨c, hc⟩, hocc, -, hflags⟩ := h.overrun hf h0 hd
  have hone : (s.peek 1).1 = 1 := by
    rw [hc.peek_fst, length_contents, hocc]
    omega
  obtain ⟨hslots, -, htail⟩ := s.peek_fields 1
  rw [hs, pop_eq, if_neg (by omega)]
  refine ⟨_, rfl, ?_⟩
  simpa only [slotAt, position, hslots, htail, Slot.packet] using hflags

end Overrun

end PacketRing

namespace Fifo

variable {f g : Fifo} {ops more : List RingOp} {answers answers' : List RingAnswer}

theorem Run.turnover {n : Nat} (h : Run f (PacketRing.turnover n) answers g)
    (hf : f.queue = []) (h0 : 0 < f.capacity) : g.queue = [] := by
  induction n generalizing f answers with
  | zero =>
    cases h
    exact hf
  | succ n ih =>
    rcases h with _ | ⟨hpush, _ | ⟨hpop, hrest⟩⟩
    cases hpush with
    | pushFull _ _ _ hfull =>
      rw [hf, List.length_nil] at hfull
      omega
    | push _ _ _ hfree =>
      simp only [hf, List.nil_append] at hpop
      cases hpop with
      | popEmpty he => exact absurd he (List.cons_ne_nil _ _)
      | pop p rest he => exact ih hrest (List.cons.inj he).2.symm h0

theorem Run.lap {capacity : Nat} (h : Run f (PacketRing.lap capacity) answers g)
    (hf : f.queue = []) (h0 : 0 < f.capacity) : ∃ rest, g.queue = ⟨[], [], 1⟩ :: rest := by
  rcases h with _ | ⟨hpush, hrest⟩
  cases hpush with
  | push _ _ _ hfree =>
    simp only [hf, List.nil_append, List.take_nil] at hrest
    exact hrest.pushes rfl
  | pushFull _ _ _ hfull =>
    rw [hf, List.length_nil] at hfull
    omega

theorem Run.pop_overrun {capacity : Nat} {answer : RingAnswer}
    (h : Run f (PacketRing.overrun capacity ++ [.pop]) (answers ++ [answer]) g)
    (hf : f.queue = []) (h0 : 0 < f.capacity) : answer = .popped (some ⟨[], [], 1⟩) := by
  obtain ⟨e, first, second, heq, hrun, hpop⟩ := h.split
  obtain ⟨d, _, _, -, hturn, hlap⟩ := hrun.split
  obtain ⟨rest, hrest⟩ := hlap.lap (hturn.turnover hf h0) (hturn.capacity_eq ▸ h0)
  rcases hpop with _ | ⟨hstep, _ | _⟩
  have hanswer := (List.append_inj' heq rfl).2
  cases hstep with
  | pop p queue hq =>
    rw [hrest] at hq
    rw [(List.cons.inj hanswer).1, (List.cons.inj hq).1]
  | popEmpty hq => exact absurd (hrest.symm.trans hq) (List.cons_ne_nil _ _)

end Fifo

namespace PacketRing

/-- A ring stays a first-in first-out queue, however often its indices wrap, exactly when its
capacity divides `2 ^ 64`. -/
theorem survives_wrap_iff (capacity dataSize headerSize : Nat) (h0 : 0 < capacity)
    (h1 : capacity < 2 ^ 64) :
    ∃ r, create capacity dataSize headerSize = .ok r ∧
      ((∀ ops, (runAll ops r).2.Apart) ↔ capacity ∣ 2 ^ 64) ∧
      ((∀ ops, ∃ f, Fifo.Run ⟨capacity, dataSize, headerSize, [], [], 0⟩ ops (runAll ops r).1 f) ↔
        capacity ∣ 2 ^ 64) ∧
      ∀ ops, capacity ∣ 2 ^ 64 ∨ handedOut ops r ≤ 2 ^ 64 →
        (runAll ops r).2.Apart ∧
          ∃ f, Fifo.Run ⟨capacity, dataSize, headerSize, [], [], 0⟩ ops (runAll ops r).1 f ∧
            (runAll ops r).2.contents = f.queue := by
  obtain ⟨r, hr, -, hs⟩ := shows_create h0 h1 dataSize headerSize
  have hcap : capacity = r.capacity := hs.capacity_eq
  have hkept : ∀ ops, capacity ∣ 2 ^ 64 ∨ handedOut ops r ≤ 2 ^ 64 →
      (runAll ops r).2.Apart ∧
        ∃ f, Fifo.Run ⟨capacity, dataSize, headerSize, [], [], 0⟩ ops (runAll ops r).1 f ∧
          (runAll ops r).2.contents = f.queue := by
    intro ops hfit
    have ha : Addresses r.capacity (handedOut ops r) := hcap ▸ addresses_of_dvd_or_le hfit
    obtain ⟨c, f, hrun, hs', hb⟩ := hs.runAll_room ha (Nat.zero_add (handedOut ops r)).le
    have hcap' : (runAll ops r).2.capacity = r.capacity := by
      rw [← hs'.capacity_eq, hrun.capacity_eq, hcap]
    exact ⟨hs'.stands.apart (hcap'.symm ▸ ha) hb, f, hrun,
      hs'.contents (hcap'.symm ▸ ha.mono (Nat.le_of_add_right_le hb))⟩
  refine ⟨r, hr, ⟨fun h => ?_, fun hd ops => (hkept ops (.inl hd)).1⟩,
    ⟨fun h => ?_, fun hd ops => ?_⟩, hkept⟩
  · by_contra hd
    exact hs.not_apart_overrun rfl (hcap ▸ h0) (hcap ▸ hd) (h _)
  · by_contra hd
    obtain ⟨f, hrun⟩ := h (overrun capacity ++ [.pop])
    obtain ⟨p, hp, hflags⟩ := hs.pop_overrun rfl (hcap ▸ h0) (hcap ▸ hd)
    rw [runAll_append] at hrun
    have hanswer := hrun.pop_overrun rfl h0
    rw [← hcap] at hp
    rw [hp] at hanswer
    cases hanswer
    exact absurd hflags (by decide)
  · obtain ⟨f, hrun, -⟩ := (hkept ops (.inl hd)).2
    exact ⟨f, hrun⟩

theorem three_slots_lose : 0 < 3 ∧ 3 < 2 ^ 64 ∧ ∃ r, create 3 1 0 = .ok r ∧
    ¬(∀ ops, (runAll ops r).2.Apart) ∧
      ¬∀ ops, ∃ f, Fifo.Run ⟨3, 1, 0, [], [], 0⟩ ops (runAll ops r).1 f := by
  have hd : ¬3 ∣ 2 ^ 64 := by decide
  obtain ⟨r, hr, hapart, hfifo, -⟩ := survives_wrap_iff 3 1 0 (by decide) (by decide)
  exact ⟨by decide, by decide, r, hr, mt hapart.mp hd, mt hfifo.mp hd⟩

/-- Three slots and one packet in each index up to the last: the next two packets lie at one place,
and the reader finds the second in place of the first. -/
theorem three_slots_collide : ∃ r, create 3 1 0 = .ok r ∧
    ¬(runAll (overrun 3) r).2.Apart ∧
      ∃ p, (runAll (overrun 3) r).2.pop.1 = some p ∧ p.flags = 0 := by
  obtain ⟨r, hr, -, hs⟩ := shows_create (by decide : 0 < 3) (by decide) 1 0
  have hcap : 3 = r.capacity := hs.capacity_eq
  have hd : ¬r.capacity ∣ 2 ^ 64 := hcap ▸ (by decide : ¬3 ∣ 2 ^ 64)
  have h0 : 0 < r.capacity := hcap ▸ (by decide : 0 < 3)
  refine ⟨r, hr, ?_, ?_⟩
  · rw [hcap]
    exact hs.not_apart_overrun rfl h0 hd
  · rw [hcap]
    exact hs.pop_overrun rfl h0 hd

end PacketRing

end DmaBurst
