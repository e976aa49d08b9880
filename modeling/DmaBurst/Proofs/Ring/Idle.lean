import DmaBurst.Proofs.Ring.Window

namespace DmaBurst.PacketRing

variable {r r' r'' : PacketRing} {c : Counts}

structure Idle (r : PacketRing) : Prop where
  sound : r.Sound
  fits : r.Fits
  reserved_eq : r.reserved = 0
  exposed_eq : r.exposed = 0

theorem idle_create {capacity dataSize headerSize : Nat} (hcap : capacity < 2 ^ 64)
    (h : create capacity dataSize headerSize = .ok r) : r.Idle := by
  obtain ⟨hres, hshow⟩ := shows_of_create hcap h
  exact ⟨⟨_, hshow.stands⟩, ⟨dataSize, headerSize, hshow.fits⟩, hres, hshow.exposed_eq.symm⟩

theorem Sound.pop (h : r.Sound) : r.pop.2.Sound := by
  obtain ⟨c, h⟩ := h
  obtain ⟨s, -, -, -, ht, -, hexp, -⟩ := h.peekSeeing h.seenHead_le (Nat.le_refl _) 1
  rw [← h.head_eq] at ht hexp
  rw [pop_eq]
  split
  · exact ⟨_, ht⟩
  · next hn =>
    have hone : 1 ≤ (r.peek 1).2.exposed := by
      have : (r.peek 1).2.exposed = (r.peek 1).1 := hexp
      omega
    exact ⟨_, (ht.retire hone).2⟩

theorem pop_slots (r : PacketRing) : r.pop.2.slots = r.slots := by
  rw [pop_eq]
  split
  · exact (r.peek_fields 1).1
  · exact (r.peek_fields 1).1

theorem slots_popAtMost (n : Nat) (r : PacketRing) : (r.popAtMost n).2.slots = r.slots := by
  induction n generalizing r with
  | zero => rfl
  | succ n ih =>
    have hpop := r.pop_slots
    obtain ⟨answer, r', hp⟩ : ∃ answer r', r.pop = (answer, r') := ⟨_, _, rfl⟩
    rw [hp] at hpop
    rw [popAtMost, hp]
    cases answer with
    | none => exact hpop
    | some p => exact (ih r').trans hpop

namespace Idle

theorem push (h : r.Idle) (data header : Bytes) (flags : UInt16) :
    (r.push data header flags).2.Idle := by
  refine ⟨h.sound.push data header flags, h.fits.push data header flags, ?_,
    (exposed_push data header flags r).trans h.exposed_eq⟩
  rw [push_eq]
  split
  · next hz => exact hz
  · rfl

theorem pop (h : r.Idle) : r.pop.2.Idle := by
  refine ⟨h.sound.pop, h.fits.of_slots r.pop_slots, r.reserved_pop.trans h.reserved_eq, ?_⟩
  rw [pop_eq]
  split
  · next hz => exact hz
  · rfl

theorem popAtMost (h : r.Idle) (n : Nat) : (r.popAtMost n).2.Idle := by
  induction n generalizing r with
  | zero => exact h
  | succ n ih =>
    have hpop := h.pop
    obtain ⟨answer, r', hp⟩ : ∃ answer r', r.pop = (answer, r') := ⟨_, _, rfl⟩
    rw [hp] at hpop
    rw [PacketRing.popAtMost, hp]
    cases answer with
    | none => exact hpop
    | some p => exact ih hpop

theorem drain (h : r.Idle) : r.drain.2.Idle :=
  h.popAtMost _

theorem takeOff (h : r.Idle) (max : Nat) : (r.takeOff max).Idle :=
  ⟨h.sound.takeOff max, h.fits.takeOff max, (r.reserved_peek max).trans h.reserved_eq, rfl⟩

end Idle

/-- The slots of a ring are addressed by a 64-bit index that wraps. From the tail that the writer
has seen to the end of its room the index does not wrap, or wrapping is not to be noticed. -/
def Straight (r : PacketRing) : Prop :=
  r.capacity ∣ 2 ^ 64 ∨
    r.cachedTail.toNat ≤ r.tail.toNat ∧ r.tail.toNat + r.capacity ≤ 2 ^ 64

instance (r : PacketRing) : Decidable r.Straight :=
  inferInstanceAs (Decidable (_ ∨ _))

theorem Straight.of_tail (h : r.Straight) (hcap : r'.capacity = r.capacity)
    (htail : r'.tail = r.tail) (hseen : r'.cachedTail = r.cachedTail ∨ r'.cachedTail = r.tail) :
    r'.Straight := by
  rw [Straight, hcap, htail]
  refine h.imp_right fun ⟨hle, hroom⟩ => ⟨?_, hroom⟩
  rcases hseen with hs | hs <;> rw [hs]
  exact hle

def Counts.after (turns : Nat) (c : Counts) : Counts where
  head := c.head - 2 ^ 64 * turns
  tail := c.tail - 2 ^ 64 * turns
  seenTail := c.seenTail - 2 ^ 64 * turns
  seenHead := c.seenHead - 2 ^ 64 * turns

theorem StandsAt.after (h : r.StandsAt c) {turns : Nat} (hturns : 2 ^ 64 * turns ≤ c.seenTail) :
    r.StandsAt (c.after turns) := by
  have hres := h.reserved_le
  have hseen := h.seenTail_le
  have htail := h.tail_le
  have hhead := h.seenHead_le
  have hexp := h.exposed_le
  have hwrap : ∀ n, 2 ^ 64 * turns ≤ n → UInt64.ofNat n = UInt64.ofNat (n - 2 ^ 64 * turns) := by
    intro n hn
    rw [← UInt64.toNat_inj, UInt64.toNat_ofNat', UInt64.toNat_ofNat', Nat.sub_mul_mod hn]
  refine ⟨h.capacity_lt, h.head_eq.trans (hwrap _ (by omega)),
    h.tail_eq.trans (hwrap _ (by omega)), h.cachedTail_eq.trans (hwrap _ hturns),
    h.cachedHead_eq.trans (hwrap _ (by omega)), ?_, ?_, ?_, ?_, ?_⟩ <;>
  · dsimp only [Counts.after]
    omega

/-- As long as the tail has not wrapped since the writer looked at it, the counts of the ring can be
taken from the turn that it is on. -/
theorem StandsAt.exists_tail_eq (h : r.StandsAt c) (hle : r.cachedTail.toNat ≤ r.tail.toNat) :
    ∃ c', r.StandsAt c' ∧ c'.tail = r.tail.toNat := by
  have hcap := h.capacity_lt
  have hres := h.reserved_le
  have hseen := h.seenTail_le
  have htail := h.tail_le
  have hhead := h.seenHead_le
  rw [h.cachedTail_eq, h.tail_eq, UInt64.toNat_ofNat', UInt64.toNat_ofNat'] at hle
  refine ⟨c.after (c.tail / 2 ^ 64), h.after (by omega), ?_⟩
  rw [h.tail_eq, UInt64.toNat_ofNat', Counts.after]
  dsimp only
  omega

theorem Idle.shows (h : r.Idle) (hs : r.Straight) :
    ∃ c f, r.Shows c f ∧ f.reservation = [] ∧ Addresses r.capacity (c.tail + r.capacity) := by
  obtain ⟨c, hc, ha⟩ : ∃ c, r.StandsAt c ∧ Addresses r.capacity (c.tail + r.capacity) := by
    obtain ⟨c, hc⟩ := h.sound
    rcases hs with hd | ⟨hle, hroom⟩
    · exact ⟨c, hc, addresses_of_dvd_or_le (.inl hd)⟩
    · obtain ⟨c', hc', ht⟩ := hc.exists_tail_eq hle
      exact ⟨c', hc', addresses_of_dvd_or_le (.inr (ht.symm ▸ hroom))⟩
  obtain ⟨d, n, hf⟩ := h.fits
  refine ⟨c, ⟨r.capacity, d, n, (r.stretch c.tail (c.head - c.tail)).map Slot.packet,
    r.stretch c.head r.reserved, r.exposed⟩, ⟨hc, rfl, hf, rfl, rfl, rfl⟩, ?_, ha⟩
  rw [h.reserved_eq]
  rfl

theorem Shows.contents_append {f f' : Fifo} {c' : Counts} (h : r.Shows c f)
    (ha : Addresses r.capacity (c.tail + r.capacity)) (h' : r'.Shows c' f')
    (hcap : f'.capacity = f.capacity) {sent : List Packet} (hq : f'.queue = f.queue ++ sent)
    (hc : c'.head = c.head + sent.length) :
    r'.contents = r.contents ++ sent ∧ r'.head = r.head + .ofNat sent.length := by
  have hlen := h.length_queue
  have hfull := h.length_le
  have hfull' := h'.length_le
  have htail := Nat.le_trans h.stands.tail_le h.stands.seenHead_le
  have hsame := h.capacity_eq
  rw [hq, List.length_append, hcap, hsame] at hfull'
  have ha' : Addresses r'.capacity (c.tail + r.capacity) := by
    rwa [← h'.capacity_eq, hcap, hsame]
  refine ⟨?_, ?_⟩
  · rw [h.contents (ha.mono (by omega)), h'.contents (ha'.mono (by omega)), hq]
  · rw [h'.stands.head_eq, h.stands.head_eq, hc, UInt64.ofNat_add]

theorem reserve_fields (max : Nat) (r : PacketRing) :
    (r.reserve max).2.head = r.head ∧ (r.reserve max).2.tail = r.tail ∧
      ((r.reserve max).2.cachedTail = r.cachedTail ∨ (r.reserve max).2.cachedTail = r.tail) := by
  obtain ⟨hh, ht, hs, -⟩ := clearAhead_fields (r.reserve max).1 (r.refreshTail max r.tail)
  obtain ⟨-, rhead, rtail, rlook, -⟩ := refreshTail_fields r max r.tail
  exact ⟨hh.trans rhead, ht.trans rtail, rlook.imp hs.trans hs.trans⟩

structure Rewrites (r r' : PacketRing) : Prop where
  eq : r' = { r with slots := r'.slots, slots_pos := r'.slots_pos }
  capacity_eq : r'.capacity = r.capacity
  fits : r.Fits → r'.Fits

namespace Rewrites

theorem refl (r : PacketRing) : r.Rewrites r :=
  ⟨rfl, rfl, id⟩

theorem trans (h : r.Rewrites r') (h' : r'.Rewrites r'') : r.Rewrites r'' := by
  refine ⟨h'.eq.trans ?_, h'.capacity_eq.trans h.capacity_eq, h'.fits ∘ h.fits⟩
  exact congrArg (fun r : PacketRing =>
    { r with slots := r''.slots, slots_pos := r''.slots_pos }) h.eq

theorem replaceReserved (offset : Nat) {slot : Slot}
    (h : ∀ d n, (∀ s ∈ r.slots, s.Fits d n) → slot.Fits d n) :
    r.Rewrites (r.replaceReserved offset slot) := by
  refine ⟨rfl, modifyAt_capacity _ _ _ r, fun ⟨d, n, hf⟩ => ⟨d, n, ?_⟩⟩
  exact fits_modifyAt hf (fun _ _ => h d n hf) _ _

theorem reserved_eq (h : r.Rewrites r') : r'.reserved = r.reserved := by
  rw [h.eq]

theorem standsAt (h : r.Rewrites r') (hs : r.StandsAt c) : r'.StandsAt c where
  capacity_lt := h.capacity_eq.symm ▸ hs.capacity_lt
  head_eq := (congrArg PacketRing.head h.eq).trans hs.head_eq
  tail_eq := (congrArg PacketRing.tail h.eq).trans hs.tail_eq
  cachedTail_eq := (congrArg PacketRing.cachedTail h.eq).trans hs.cachedTail_eq
  cachedHead_eq := (congrArg PacketRing.cachedHead h.eq).trans hs.cachedHead_eq
  seenTail_le := hs.seenTail_le
  tail_le := hs.tail_le
  seenHead_le := hs.seenHead_le
  reserved_le := h.reserved_eq.symm ▸ h.capacity_eq.symm ▸ hs.reserved_le
  exposed_le := (congrArg PacketRing.exposed h.eq).symm ▸ hs.exposed_le

end Rewrites

theorem Idle.publish (h : r.Idle) {max count : Nat} (hw : (r.reserve max).2.Rewrites r')
    (hc : count ≤ r'.reserved) :
    Idle { r' with head := r'.head + .ofNat count, reserved := 0 } := by
  obtain ⟨c, hs⟩ := h.sound
  obtain ⟨s, -, -, ht, -⟩ := hs.reserveSeeing hs.seenTail_le (Nat.le_refl _) max
  rw [← hs.tail_eq] at ht
  have hexp : r'.exposed = 0 :=
    ((congrArg PacketRing.exposed hw.eq).trans (r.exposed_reserve max)).trans h.exposed_eq
  exact ⟨⟨_, ((hw.standsAt ht).publish hc).2⟩, hw.fits (h.fits.reserve max), rfl, hexp⟩

/-- What the driver does to a ring over bursts that it ends: it takes packets off the front of a
receive ring, and puts packets at the end of a transmit ring. -/
def Carries (direction : Direction) (r r' : PacketRing) : Prop :=
  match direction with
  | .rx => r'.head = r.head ∧ ∃ retired : List Packet, r.contents = retired ++ r'.contents ∧
      r'.tail = r.tail + .ofNat retired.length
  | .tx => r'.tail = r.tail ∧ (r.Straight → r'.Straight ∧ ∃ sent : List Packet,
      r'.contents = r.contents ++ sent ∧ r'.head = r.head + .ofNat sent.length)

namespace Carries

variable {direction : Direction}

theorem refl (direction : Direction) (r : PacketRing) : Carries direction r r := by
  cases direction with
  | rx => exact ⟨rfl, [], rfl, (UInt64.add_zero _).symm⟩
  | tx => exact ⟨rfl, fun hs => ⟨hs, [], (List.append_nil _).symm, (UInt64.add_zero _).symm⟩⟩

theorem trans (h : Carries direction r r') (h' : Carries direction r' r'') :
    Carries direction r r'' := by
  have hadd : ∀ (i j k : UInt64) (ps ps' : List Packet), j = i + .ofNat ps.length →
      k = j + .ofNat ps'.length → k = i + .ofNat (ps ++ ps').length := by
    intro i j k ps ps' hj hk
    rw [hk, hj, List.length_append, UInt64.ofNat_add, UInt64.add_assoc]
  cases direction with
  | rx =>
    obtain ⟨hhead, retired, hc, ht⟩ := h
    obtain ⟨hhead', retired', hc', ht'⟩ := h'
    refine ⟨hhead'.trans hhead, retired ++ retired', ?_, hadd _ _ _ _ _ ht ht'⟩
    rw [hc, hc', List.append_assoc]
  | tx =>
    obtain ⟨htail, hsent⟩ := h
    obtain ⟨htail', hsent'⟩ := h'
    refine ⟨htail'.trans htail, fun hs => ?_⟩
    obtain ⟨hs', sent, hc, hh⟩ := hsent hs
    obtain ⟨hs'', sent', hc', hh'⟩ := hsent' hs'
    refine ⟨hs'', sent ++ sent', ?_, hadd _ _ _ _ _ hh hh'⟩
    rw [hc', hc, List.append_assoc]

end Carries

theorem Idle.carries_push (h : r.Idle) (data header : Bytes) (flags : UInt16) :
    Carries .tx r (r.push data header flags).2 := by
  obtain ⟨-, ht, hseen⟩ := r.reserve_fields 1
  have htail : (r.push data header flags).2.tail = r.tail := by
    rw [push_eq]
    split
    · exact ht
    · simp only [modifyAt_tail, ht]
  have hseen' : (r.push data header flags).2.cachedTail = (r.reserve 1).2.cachedTail := by
    rw [push_eq]
    split
    · rfl
    · simp only [modifyAt_cachedTail]
  rw [← hseen'] at hseen
  refine ⟨htail, fun hs => ⟨hs.of_tail (r.capacity_push data header flags) htail hseen, ?_⟩⟩
  obtain ⟨c, f, hshow, -, ha⟩ := h.shows hs
  have hlen := hshow.length_queue
  have hcap := hshow.capacity_eq
  have hhead := Nat.le_trans hshow.stands.tail_le hshow.stands.seenHead_le
  obtain hfull | hfree := hshow.length_le.eq_or_lt
  · obtain ⟨-, c', hc, -, hshow'⟩ :=
      hshow.push_of_full hfull (ha.mono (by omega)) (Nat.le_refl c.head) data header flags
    exact ⟨[], hshow.contents_append ha hshow' rfl (List.append_nil _).symm hc⟩
  · obtain ⟨-, c', hc, -, hshow'⟩ := hshow.push_of_free hfree ha (by omega) data header flags
    exact ⟨[_], hshow.contents_append ha hshow' rfl rfl hc⟩

theorem Sound.carries_takeOff (h : r.Sound) (max : Nat) : Carries .rx r (r.takeOff max) := by
  obtain ⟨c, hc⟩ := id h
  refine ⟨(r.peek_fields max).2.1, r.contents.take max, ?_, ?_⟩
  · rw [h.contents_takeOff, List.take_append_drop]
  · rw [takeOff_tail, hc.peek_fst, List.length_take, Nat.min_comm]

end DmaBurst.PacketRing
