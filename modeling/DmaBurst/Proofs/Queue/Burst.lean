import DmaBurst.Proofs.Ring.Window
import DmaBurst.Queue.Burst

namespace DmaBurst

/-- The window that a burst of up to `max` works in: packets to be read, or slots to be filled. -/
def Channel.openWindow (max : Nat) (c : Channel) (r : PacketRing) : Nat × PacketRing :=
  match c.id.direction with
  | .rx => r.peek max
  | .tx => r.reserve max

def Channel.closeWindow (count : Nat) (c : Channel) (r : PacketRing) : PacketRing :=
  match c.id.direction with
  | .rx => { r with tail := r.tail + .ofNat r.exposed, exposed := 0 }
  | .tx => { r with head := r.head + .ofNat count, reserved := 0 }

def PacketRing.windowOf (direction : Direction) (r : PacketRing) : Nat :=
  match direction with
  | .rx => r.exposed
  | .tx => r.reserved

namespace PacketRing

theorem windowOf_closeWindow (c : Channel) (count : Nat) (r : PacketRing) :
    (c.closeWindow count r).windowOf c.id.direction = 0 := by
  cases hd : c.id.direction <;> rw [Channel.closeWindow, hd] <;> rfl

theorem windowOf_openWindow (c : Channel) (max : Nat) (r : PacketRing) :
    (c.openWindow max r).2.windowOf c.id.direction = (c.openWindow max r).1 := by
  cases hd : c.id.direction <;> rw [Channel.openWindow, hd] <;> rfl

end PacketRing

theorem Channel.openWindow_again {c : Channel} {r : PacketRing} {max : Nat}
    (hz : (c.openWindow max r).1 = 0) :
    (c.openWindow max (c.closeWindow 0 (c.openWindow max r).2)).1 = 0 := by
  cases hd : c.id.direction with
  | rx =>
    have hopen : ∀ s, c.openWindow max s = s.peek max := fun s => by rw [openWindow, hd]
    rw [hopen] at hz
    by_cases hm : max = 0
    · rw [hopen, hm]
      exact Nat.min_zero _
    · obtain ⟨hready, hpeek⟩ := PacketRing.peek_of_none hz hm
      rw [hopen, hopen, hpeek, closeWindow, hd]
      dsimp only
      rw [show r.tail + .ofNat 0 = r.tail from UInt64.add_zero _, PacketRing.peek,
        PacketRing.peekSeeing, PacketRing.refreshHead, ite_self]
      change min (r.readySeeing r.head) max = 0
      rw [hready, Nat.zero_min]
  | tx =>
    have hopen : ∀ s, c.openWindow max s = s.reserve max := fun s => by rw [openWindow, hd]
    rw [hopen] at hz
    by_cases hm : max = 0
    · rw [hopen, hm]
      exact Nat.min_zero _
    · obtain ⟨hfree, hreserve⟩ := PacketRing.reserve_of_none hz hm
      rw [hopen, hopen, hreserve, closeWindow, hd]
      dsimp only
      rw [show r.head + .ofNat 0 = r.head from UInt64.add_zero _, PacketRing.reserve,
        PacketRing.reserveSeeing, PacketRing.refreshTail, ite_self]
      change min (r.freeSeeing r.tail) max = 0
      rw [hfree, Nat.zero_min]

namespace Queue

variable {q : Queue} {r : PacketRing} {len count : Nat}

structure Ready (q : Queue) : Prop where
  started : q.state = .started
  bound : q.channel.bound = true
  window_eq : q.channel.window = none

structure Lends (q : Queue) (len : Nat) (r : PacketRing) : Prop where
  bound : q.channel.bound = true
  window_eq : q.channel.window = some len
  windowOf_eq : r.windowOf q.channel.id.direction = len

def lent (max len : Nat) (q : Queue) : Queue :=
  { q with
    channel := { q.channel with window := some len }
    stats := q.stats.countAcquire max len }

def ended (count bytes : Nat) (q : Queue) : Queue :=
  { q with
    channel := { q.channel with window := none }
    stats := q.stats.countRelease count bytes }

theorem acquire_ready (h : q.Ready) (max : Nat) (r : PacketRing) :
    q.acquire max r = (.ok (q.channel.openWindow max r).1,
      q.lent max (q.channel.openWindow max r).1, (q.channel.openWindow max r).2) := by
  cases hd : q.channel.id.direction <;>
    simp [acquire, h.started, Channel.get, h.window_eq, h.bound, hd, Channel.openWindow, lent]

theorem acquire_refused (h : q.state ≠ .started) (max : Nat) (r : PacketRing) :
    q.acquire max r = (.error (.refused (.protocolViolation q.id
      (.acquire q.channel.id.direction) q.state)), q, r) :=
  if_neg h

theorem bytesOf_eq {count : Nat} {length : Nat → Nat}
    (h : ∀ k < count, q.lengthAt k r = .ok (length k)) :
    q.bytesOf count r = .ok ((List.range count).map length).sum := by
  induction count with
  | zero => rfl
  | succ count ih =>
    have hsum := ih fun k hk => h k (Nat.lt_succ_of_lt hk)
    rw [bytesOf] at hsum ⊢
    rw [List.range_succ, List.foldlM_append, hsum]
    simp only [List.foldlM_cons, List.foldlM_nil, h count (Nat.lt_succ_self count), Except.map_ok,
      List.map_append, List.sum_append, List.map_cons, List.map_nil, List.sum_cons, List.sum_nil]
    rfl

def entry (offset : Nat) (q : Queue) (r : PacketRing) : Slot :=
  match q.channel.id.direction with
  | .rx => r.slotAt r.tail offset
  | .tx => r.slotAt r.head offset

/-- What the holder of a burst sees of one entry: a packet as received, or a slot as filled so
far. -/
def visible (len offset : Nat) (q : Queue) (r : PacketRing) : Except Fault Packet :=
  match q.channel.id.direction with
  | .rx => q.packet len offset r
  | .tx => Slot.packet <$> q.slot len offset r

theorem Lends.visible (h : q.Lends len r) {offset : Nat} (ho : offset < len) :
    q.visible len offset r = .ok (q.entry offset r).packet := by
  have hw := h.windowOf_eq
  cases hd : q.channel.id.direction <;> rw [hd, PacketRing.windowOf] at hw <;>
    simp [Queue.visible, entry, hd, packet, slot, Channel.packet, Channel.slot, h.bound, ho,
      PacketRing.exposedSlot, PacketRing.reservedSlot, hw]

theorem Lends.lengthAt {dataSize headerSize : Nat} (h : q.Lends len r)
    (hr : ∀ s ∈ r.slots, s.Fits dataSize headerSize) {offset : Nat} (ho : offset < len) :
    q.lengthAt offset r = .ok (q.entry offset r).packet.data.length := by
  have hw := h.windowOf_eq
  cases hd : q.channel.id.direction with
  | rx =>
    rw [hd, PacketRing.windowOf] at hw
    simp [Queue.lengthAt, entry, hd, Channel.packet, h.bound, ho, PacketRing.exposedSlot, hw]
  | tx =>
    rw [hd, PacketRing.windowOf] at hw
    have hf := hr (r.slotAt r.head offset) (Array.getElem_mem _)
    have hle : (r.slotAt r.head offset).dataLen ≤ (r.slotAt r.head offset).data.length :=
      hf.data_length ▸ hf.dataLen_le
    simp [Queue.lengthAt, entry, hd, Channel.slot, h.bound, ho, PacketRing.reservedSlot, hw,
      Slot.packet, Slot.payload, Nat.min_eq_left hle]

theorem Lends.channel_put (h : q.Lends len r) (hc : count ≤ len) :
    q.channel.put count r =
      (.ok (), { q.channel with window := none }, q.channel.closeWindow count r) := by
  have hw := h.windowOf_eq
  cases hd : q.channel.id.direction <;> rw [hd, PacketRing.windowOf] at hw
  · simp [Channel.put, h.window_eq, Channel.settle, hd, h.bound, PacketRing.retire, hw,
      Channel.closeWindow]
  · simp [Channel.put, h.window_eq, Channel.settle, hd, h.bound, PacketRing.publish, hw, hc,
      Nat.not_lt.mpr hc, Channel.closeWindow]

theorem Lends.exists_lengthAt (h : q.Lends len r) {offset : Nat} (ho : offset < len) :
    ∃ n, q.lengthAt offset r = .ok n := by
  have hw := h.windowOf_eq
  cases hd : q.channel.id.direction <;> rw [hd, PacketRing.windowOf] at hw
  · simp [Queue.lengthAt, hd, Channel.packet, h.bound, PacketRing.exposedSlot, hw, ho]
  · simp [Queue.lengthAt, hd, Channel.slot, h.bound, PacketRing.reservedSlot, hw, ho]

theorem Lends.put_channel (h : q.Lends len r) (hc : count ≤ len) :
    ∃ bytes, q.put count r =
      (.ok (), q.ended count bytes, q.channel.closeWindow count r) := by
  have hlength : ∀ k < count, q.lengthAt k r = .ok ((q.lengthAt k r).toOption.getD 0) := by
    intro k hk
    obtain ⟨n, hn⟩ := h.exists_lengthAt (Nat.lt_of_lt_of_le hk hc)
    rw [hn]
    rfl
  rw [Queue.put, bytesOf_eq hlength, h.channel_put hc]
  exact ⟨_, rfl⟩

def byteCount (count : Nat) (q : Queue) (r : PacketRing) : Nat :=
  ((List.range count).map fun k => (q.entry k r).packet.data.length).sum

theorem Lends.put {dataSize headerSize : Nat} (h : q.Lends len r)
    (hr : ∀ s ∈ r.slots, s.Fits dataSize headerSize) {count : Nat} (hc : count ≤ len) :
    q.put count r =
      (.ok (), q.ended count (q.byteCount count r), q.channel.closeWindow count r) := by
  have hbytes : q.bytesOf count r = .ok (q.byteCount count r) :=
    bytesOf_eq fun k hk => h.lengthAt hr (Nat.lt_of_lt_of_le hk hc)
  rw [Queue.put, hbytes, h.channel_put hc]
  rfl

theorem ready_of_acquire {max : Nat} {q' : Queue} {r' : PacketRing}
    (h : q.acquire max r = (.ok len, q', r')) : q.Ready := by
  rw [acquire] at h
  split at h
  · next hs =>
    rw [Channel.get] at h
    by_cases hw : q.channel.window.isSome
    · rw [if_pos hw] at h
      cases h
    · cases hb : q.channel.bound
      · simp [hw, hb] at h
      · exact ⟨hs, hb, by simpa using hw⟩
  · cases h

structure Starved (max : Nat) (q : Queue) (r : PacketRing) : Prop where
  ready : q.Ready
  openWindow_eq : (q.channel.openWindow max r).1 = 0

theorem Starved.again {max : Nat} (h : q.Starved max r) :
    ∃ s r', q.acquire max r = (.ok 0, q.lent max 0, s) ∧
      (q.lent max 0).release 0 s = (.ok (), (q.lent max 0).ended 0 0, r') ∧
      ((q.lent max 0).ended 0 0).Starved max r' := by
  have hacquire := acquire_ready h.ready max r
  rw [h.openWindow_eq] at hacquire
  have hlends : (q.lent max 0).Lends 0 (q.channel.openWindow max r).2 :=
    ⟨h.ready.bound, rfl, (PacketRing.windowOf_openWindow q.channel max r).trans h.openWindow_eq⟩
  have hput : (q.lent max 0).put 0 (q.channel.openWindow max r).2 = (.ok (),
      (q.lent max 0).ended 0 0, q.channel.closeWindow 0 (q.channel.openWindow max r).2) := by
    rw [put, hlends.channel_put (Nat.le_refl 0)]
    rfl
  exact ⟨_, _, hacquire, hput, ⟨h.ready.started, h.ready.bound, rfl⟩,
    Channel.openWindow_again h.openWindow_eq⟩

end Queue

end DmaBurst
