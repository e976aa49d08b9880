import DmaBurst.Proofs.Ring.Fifo
import DmaBurst.Proofs.Ring.Turning

namespace DmaBurst

namespace PacketRing

/-- The first part of a reservation: the writer makes up its mind how many slots it takes. It has
yet to clear them. -/
def claim (seen : UInt64) (max : Nat) (r : PacketRing) : PacketRing :=
  let r := r.refreshTail max seen
  { r with reserved := min (r.freeSeeing r.cachedTail) max }

theorem clearAhead_reserved (count n : Nat) (r : PacketRing) :
    { r with reserved := n }.clearAhead count = { r.clearAhead count with reserved := n } := by
  induction count with
  | zero => rfl
  | succ count ih =>
    rw [clearAhead_succ, clearAhead_succ, ih]
    rfl

theorem reserved_clearAhead (count : Nat) (r : PacketRing) :
    (r.clearAhead count).reserved = r.reserved := by
  induction count with
  | zero => rfl
  | succ count ih =>
    rw [clearAhead_succ]
    exact ih

theorem reserveSeeing_eq (seen : UInt64) (max : Nat) (r : PacketRing) :
    r.reserveSeeing seen max =
      ((r.claim seen max).reserved, (r.claim seen max).clearAhead (r.claim seen max).reserved) := by
  rw [reserveSeeing, claim]
  exact Prod.ext rfl (clearAhead_reserved _ _ _).symm

end PacketRing

/-- The two ends of a ring on threads of their own. Of each shared index all values are kept, oldest
first, and the place of the one that the other side has looked at last. -/
structure Duplex where
  ring : PacketRing
  tails : List UInt64
  heads : List UInt64
  tailSight : Nat := 0
  headSight : Nat := 0
  cleared : Nat := 0
  published : List Packet := []
  taken : List Packet := []

/-- One step of either side. A look may meet with any value of the other side's index that is no
older than the one it met with last. -/
inductive DuplexOp where
  | claim (max sight : Nat)
  | clear
  | edit (offset : Nat) (change : SlotEdit)
  | publish (count : Nat)
  | peek (max sight : Nat)
  | retire (count : Nat)

namespace Duplex

def ofRing (r : PacketRing) : Duplex :=
  { ring := r, tails := [r.tail], heads := [r.head] }

/-- The writer has cleared its reservation, and may do something else. -/
def Idle (d : Duplex) : Prop :=
  d.ring.reserved ≤ d.cleared

instance (d : Duplex) : Decidable d.Idle :=
  inferInstanceAs (Decidable (_ ≤ _))

def tailAt? (sight : Nat) (d : Duplex) : Option UInt64 :=
  if d.tailSight ≤ sight then d.tails[sight]? else none

def headAt? (sight : Nat) (d : Duplex) : Option UInt64 :=
  if d.headSight ≤ sight then d.heads[sight]? else none

def front (base : UInt64) (count : Nat) (r : PacketRing) : List Packet :=
  (List.range count).map fun k => (r.slotAt base k).packet

/-- What cannot be done, or faults, changes nothing. -/
def step : DuplexOp → Duplex → Duplex
  | .claim max sight, d =>
    match d.tailAt? sight with
    | some seen =>
      if d.Idle then
        { d with
          ring := d.ring.claim seen max
          tailSight := if d.ring.freeSeeing d.ring.cachedTail < max then sight else d.tailSight
          cleared := 0 }
      else d
    | none => d
  | .clear, d =>
    if d.Idle then d
    else
      { d with
        ring := d.ring.modifyAt d.ring.head d.cleared Slot.clear
        cleared := d.cleared + 1 }
  | .edit offset change, d =>
    match d.ring.editReserved offset change.apply with
    | .ok r => if d.Idle then { d with ring := r } else d
    | .error _ => d
  | .publish count, d =>
    match d.ring.publish count with
    | .ok r =>
      if d.Idle then
        { d with
          ring := r
          heads := d.heads ++ [r.head]
          cleared := 0
          published := d.published ++ front d.ring.head count d.ring }
      else d
    | .error _ => d
  | .peek max sight, d =>
    match d.headAt? sight with
    | some seen =>
      { d with
        ring := (d.ring.peekSeeing seen max).2
        headSight := if d.ring.readySeeing d.ring.cachedHead < max then sight else d.headSight }
    | none => d
  | .retire count, d =>
    match d.ring.retire count with
    | .ok r =>
      { d with
        ring := r
        tails := d.tails ++ [r.tail]
        taken := d.taken ++ front d.ring.tail count d.ring }
    | .error _ => d

def run : List DuplexOp → Duplex → Duplex
  | [], d => d
  | op :: ops, d => run ops (step op d)

/-- How many slots a run has handed to the writer at most, counting all that are published and
those of the reservation at the time. -/
def handedOut : List DuplexOp → Duplex → Nat
  | [], d => d.published.length + d.ring.reserved
  | op :: ops, d => max (d.published.length + d.ring.reserved) (handedOut ops (step op d))

def unretired (d : Duplex) : Nat :=
  d.published.length - d.taken.length

end Duplex

/-- The values of an index that only grows: exact counts cut to 64 bits, `seen` at the place that
has been looked at last and `last` at the end. -/
structure Grows (values : List UInt64) (sight seen last : Nat) (counts : List Nat) : Prop where
  values_eq : values = counts.map UInt64.ofNat
  sorted : counts.Pairwise (· ≤ ·)
  seen_eq : counts[sight]? = some seen
  last_eq : counts.getLast? = some last

namespace Grows

variable {values : List UInt64} {sight seen last : Nat} {counts : List Nat}

theorem single (n : Nat) : Grows [.ofNat n] 0 n n [n] :=
  ⟨rfl, List.pairwise_singleton _ _, rfl, rfl⟩

theorem le_last (h : Grows values sight seen last counts) {n : Nat} (hn : n ∈ counts) :
    n ≤ last := by
  obtain ⟨front, rfl⟩ := List.getLast?_eq_some_iff.mp h.last_eq
  rcases List.mem_append.mp hn with hn | hn
  · exact (List.pairwise_append.mp h.sorted).2.2 n hn last (List.mem_singleton_self last)
  · exact (List.mem_singleton.mp hn).le

theorem store (h : Grows values sight seen last counts) {next : Nat} (hl : last ≤ next) :
    Grows (values ++ [.ofNat next]) sight seen next (counts ++ [next]) := by
  obtain ⟨hlt, -⟩ := List.getElem?_eq_some_iff.mp h.seen_eq
  refine ⟨by rw [h.values_eq, List.map_append]; rfl, ?_, ?_, List.getLast?_concat⟩
  · refine List.pairwise_append.mpr ⟨h.sorted, List.pairwise_singleton _ _, fun n hn m hm => ?_⟩
    rw [List.mem_singleton.mp hm]
    exact (h.le_last hn).trans hl
  · rw [List.getElem?_append_left hlt]
    exact h.seen_eq

theorem look (h : Grows values sight seen last counts) {place : Nat} (hp : sight ≤ place)
    {value : UInt64} (hv : values[place]? = some value) :
    ∃ n, value = .ofNat n ∧ seen ≤ n ∧ n ≤ last ∧ Grows values place n last counts := by
  rw [h.values_eq, List.getElem?_map] at hv
  obtain ⟨n, hn, rfl⟩ := Option.map_eq_some_iff.mp hv
  refine ⟨n, rfl, ?_, h.le_last (List.mem_of_getElem? hn), h.values_eq, h.sorted, hn, h.last_eq⟩
  obtain ⟨hs, rfl⟩ := List.getElem?_eq_some_iff.mp h.seen_eq
  obtain ⟨hn', rfl⟩ := List.getElem?_eq_some_iff.mp hn
  rcases Nat.eq_or_lt_of_le hp with rfl | hlt
  · exact Nat.le_refl _
  · exact List.pairwise_iff_getElem.mp h.sorted _ _ hs hn' hlt

end Grows

namespace PacketRing

variable {r : PacketRing} {c : Counts} {seen : Nat}

theorem StandsAt.claim (h : r.StandsAt c) (hl : c.seenTail ≤ seen) (hu : seen ≤ c.tail)
    (max : Nat) :
    (r.claim (.ofNat seen) max).StandsAt { c with
        seenTail := if r.freeSeeing r.cachedTail < max then seen else c.seenTail } ∧
      (r.claim (.ofNat seen) max).slots = r.slots := by
  obtain ⟨s, rfl, -, -, ht, -, hslots⟩ := h.refreshTail hl hu max
  have hfree := ht.freeSeeing (Nat.le_refl _) ht.seenTail_le
  rw [← ht.cachedTail_eq] at hfree
  have hhead := ht.head_le
  have hseen := ht.reserved_le
  refine ⟨{ ht with reserved_le := ?_ }, hslots⟩
  rw [PacketRing.claim]
  change _ + min _ max ≤ _ + (r.refreshTail max (.ofNat seen)).capacity
  omega

end PacketRing

namespace Duplex

open PacketRing

structure Counted (capacity : Nat) (d : Duplex) (c : Counts) : Prop where
  stands : d.ring.StandsAt c
  capacity_eq : d.ring.capacity = capacity
  tails : ∃ counts, Grows d.tails d.tailSight c.seenTail c.tail counts
  heads : ∃ counts, Grows d.heads d.headSight c.seenHead c.head counts
  published_length : d.published.length = c.head
  taken_length : d.taken.length = c.tail

structure Recorded (d : Duplex) (c : Counts) (f : Fifo) : Prop where
  shows_ring : d.ring.Shows c f
  published_eq : d.published = d.taken ++ f.queue

/-- A step that counts well always, and records well as long as neighbouring indices have
neighbouring places. -/
def Follows (capacity : Nat) (d : Duplex) (c : Counts) (d' : Duplex) : Prop :=
  ∃ c', d'.Counted capacity c' ∧ ∀ bound f, d.Recorded c f → Addresses capacity bound →
    d.published.length + d.ring.reserved ≤ bound → ∃ f', d'.Recorded c' f'

variable {capacity : Nat} {r : PacketRing} {d : Duplex} {c : Counts}

theorem Counted.refl (h : d.Counted capacity c) : Follows capacity d c d :=
  ⟨c, h, fun _ f hr _ _ => ⟨f, hr⟩⟩

theorem Counted.claim (h : d.Counted capacity c) (max sight : Nat) :
    Follows capacity d c (d.step (.claim max sight)) := by
  rw [step]
  split
  · next seen hseen =>
    split
    · rw [tailAt?] at hseen
      split at hseen
      · next hs =>
        obtain ⟨counts, hgrows⟩ := h.tails
        obtain ⟨n, rfl, hl, hu, hlook⟩ := hgrows.look hs hseen
        obtain ⟨hstands, hslots⟩ := h.stands.claim hl hu max
        refine ⟨_, ⟨hstands, ?_, ⟨counts, ?_⟩, h.heads, h.published_length, h.taken_length⟩,
          fun _ f hr _ _ => ⟨_, hr.shows_ring.of_slots hstands hslots rfl rfl, hr.published_eq⟩⟩
        · rw [← h.capacity_eq, PacketRing.capacity, PacketRing.capacity, hslots]
        · dsimp only
          split
          · exact hlook
          · exact hgrows
      · cases hseen
    · exact h.refl
  · exact h.refl

theorem Counted.write (h : d.Counted capacity c) {k : Nat} (hk : k < d.ring.reserved)
    {e : Slot → Slot}
    (he : ∀ {dataSize headerSize : Nat} s, s.Fits dataSize headerSize →
      (e s).Fits dataSize headerSize) (cleared : Nat) :
    Follows capacity d c { d with ring := d.ring.modifyAt d.ring.head k e, cleared } := by
  refine ⟨c, ⟨h.stands.modifyAt _ _ _, (modifyAt_capacity _ _ _ _).trans h.capacity_eq, h.tails,
    h.heads, h.published_length, h.taken_length⟩, fun bound f hr ha hb => ?_⟩
  rw [h.published_length] at hb
  exact ⟨_, hr.shows_ring.edit (h.capacity_eq.symm ▸ ha) hb hk fun s => he s, hr.published_eq⟩

theorem front_eq {base bound count : Nat} {r : PacketRing} (ha : Addresses r.capacity bound)
    (hb : base + count ≤ bound) :
    front (.ofNat base) count r = (r.stretch base count).map Slot.packet := by
  rw [front, stretch, List.map_map]
  apply List.map_congr_left
  intro k hk
  have hlt := List.mem_range.mp hk
  rw [slotAt_eq_cell ha (by omega)]
  rfl

theorem Counted.publish (h : d.Counted capacity c) (count : Nat) :
    Follows capacity d c (d.step (.publish count)) := by
  rw [step, PacketRing.publish]
  by_cases hc : count ≤ d.ring.reserved
  · rw [if_pos hc]
    dsimp only
    split
    · obtain ⟨-, hstands⟩ := h.stands.publish hc
      obtain ⟨counts, hgrows⟩ := h.heads
      have hstore := hgrows.store (Nat.le_add_right c.head count)
      rw [← hstands.head_eq] at hstore
      refine ⟨_, ⟨hstands, h.capacity_eq, h.tails, ⟨_, hstore⟩, ?_, h.taken_length⟩,
        fun bound f hr ha hb => ⟨_, hr.shows_ring.publish hc, ?_⟩⟩
      · simp [front, h.published_length]
      · rw [h.published_length] at hb
        have hfront : front d.ring.head count d.ring =
            (f.reservation.take count).map Slot.packet := by
          rw [hr.shows_ring.reservation_eq, take_stretch hc, h.stands.head_eq]
          exact front_eq (h.capacity_eq.symm ▸ ha) (by omega)
        rw [hfront, hr.published_eq, List.append_assoc]
    · exact h.refl
  · rw [if_neg hc]
    exact h.refl

theorem Counted.peek (h : d.Counted capacity c) (max sight : Nat) :
    Follows capacity d c (d.step (.peek max sight)) := by
  rw [step]
  split
  · next seen hseen =>
    rw [headAt?] at hseen
    split at hseen
    · next hs =>
      obtain ⟨counts, hgrows⟩ := h.heads
      obtain ⟨n, rfl, hl, hu, hlook⟩ := hgrows.look hs hseen
      obtain ⟨s, rfl, -, -, hstands, -, -, -, hslots⟩ := h.stands.peekSeeing hl hu max
      refine ⟨_, ⟨hstands, ?_, h.tails, ⟨counts, ?_⟩, h.published_length, h.taken_length⟩,
        fun _ f hr _ _ => ⟨_, hr.shows_ring.of_slots hstands hslots rfl rfl, hr.published_eq⟩⟩
      · rw [← h.capacity_eq, PacketRing.capacity, PacketRing.capacity, hslots]
      · dsimp only
        split
        · exact hlook
        · exact hgrows
    · cases hseen
  · exact h.refl

theorem Counted.retire (h : d.Counted capacity c) (count : Nat) :
    Follows capacity d c (d.step (.retire count)) := by
  rw [step, PacketRing.retire]
  by_cases hc : count ≤ d.ring.exposed
  · rw [if_pos hc]
    obtain ⟨-, hstands⟩ := h.stands.retire hc
    obtain ⟨counts, hgrows⟩ := h.tails
    have hstore := hgrows.store (Nat.le_add_right c.tail count)
    rw [← hstands.tail_eq] at hstore
    refine ⟨_, ⟨hstands, h.capacity_eq, ⟨_, hstore⟩, h.heads, h.published_length, ?_⟩,
      fun bound f hr ha hb => ⟨_, hr.shows_ring.retire hc, ?_⟩⟩
    · simp [front, h.taken_length]
    · rw [h.published_length] at hb
      have hexp := h.stands.exposed_le
      have hseen := h.stands.seenHead_le
      have hfront : front d.ring.tail count d.ring = f.queue.take count := by
        rw [hr.shows_ring.queue_eq, ← List.map_take, take_stretch (by omega), h.stands.tail_eq]
        exact front_eq (h.capacity_eq.symm ▸ ha) (by omega)
      rw [hfront, hr.published_eq, List.append_assoc, List.take_append_drop]
  · rw [if_neg hc]
    exact h.refl

theorem Counted.step (h : d.Counted capacity c) (op : DuplexOp) :
    Follows capacity d c (d.step op) := by
  cases op with
  | claim max sight => exact h.claim max sight
  | clear =>
    rw [Duplex.step]
    split
    · exact h.refl
    · next hi => exact h.write (Nat.not_le.mp hi) (fun _ hf => hf.clear) _
  | edit offset change =>
    rw [Duplex.step, editReserved]
    by_cases hk : offset < d.ring.reserved
    · rw [if_pos hk]
      dsimp only
      split
      · exact h.write hk (fun _ hf => hf.edit change) d.cleared
      · exact h.refl
    · rw [if_neg hk]
      exact h.refl
  | publish count => exact h.publish count
  | peek max sight => exact h.peek max sight
  | retire count => exact h.retire count

theorem Counted.run (h : d.Counted capacity c) (ops : List DuplexOp) :
    ∃ c', (run ops d).Counted capacity c' ∧ ∀ bound f, d.Recorded c f →
      Addresses capacity bound → handedOut ops d ≤ bound →
        ∃ f', (Duplex.run ops d).Recorded c' f' := by
  induction ops generalizing d c with
  | nil => exact ⟨c, h, fun _ f hr _ _ => ⟨f, hr⟩⟩
  | cons op ops ih =>
    obtain ⟨c₁, h₁, hrecord⟩ := h.step op
    obtain ⟨c₂, h₂, hrest⟩ := ih h₁
    refine ⟨c₂, h₂, fun bound f hr ha hb => ?_⟩
    rw [handedOut] at hb
    obtain ⟨f₁, hr₁⟩ := hrecord bound f hr ha (Nat.le_trans (Nat.le_max_left _ _) hb)
    exact hrest bound f₁ hr₁ ha (Nat.le_trans (Nat.le_max_right _ _) hb)

theorem le_handedOut (ops : List DuplexOp) (d : Duplex) :
    (run ops d).published.length + (run ops d).ring.reserved ≤ handedOut ops d := by
  induction ops generalizing d with
  | nil => exact Nat.le_refl _
  | cons op ops ih => exact (ih (d.step op)).trans (Nat.le_max_right _ _)

theorem counted_ofRing (hr : r.StandsAt ⟨0, 0, 0, 0⟩) :
    (ofRing r).Counted r.capacity ⟨0, 0, 0, 0⟩ := by
  have htail : Grows [r.tail] 0 0 0 [0] := hr.tail_eq ▸ .single 0
  have hhead : Grows [r.head] 0 0 0 [0] := hr.head_eq ▸ .single 0
  exact ⟨hr, rfl, ⟨_, htail⟩, ⟨_, hhead⟩, rfl, rfl⟩

theorem Counted.unretired_eq (h : d.Counted capacity c) : d.unretired = c.head - c.tail := by
  rw [unretired, h.published_length, h.taken_length]

theorem Counted.free_of_tailAt? (h : d.Counted capacity c) {sight : Nat} {seen : UInt64}
    (hs : d.tailAt? sight = some seen) :
    (d.ring.head - seen).toNat ≤ capacity ∧
      ∀ max, (d.ring.reserveSeeing seen max).1 ≤ capacity - d.unretired := by
  rw [tailAt?] at hs
  split at hs
  · next hsight =>
    obtain ⟨counts, hgrows⟩ := h.tails
    obtain ⟨n, rfl, hl, hu, -⟩ := hgrows.look hsight hs
    have hcap := h.capacity_eq
    have := h.stands.capacity_lt
    have := h.stands.reserved_le
    have := h.stands.tail_le
    have := h.stands.seenHead_le
    refine ⟨?_, fun max => ?_⟩
    · rw [h.stands.head_eq, toNat_sub_ofNat (by omega) (by omega)]
      omega
    · obtain ⟨-, -, -, -, hg, -⟩ := h.stands.reserveSeeing hl hu max
      rw [hg, h.unretired_eq]
      omega
  · cases hs

theorem Counted.ready_of_headAt? (h : d.Counted capacity c) {sight : Nat} {seen : UInt64}
    (hs : d.headAt? sight = some seen) (max : Nat) :
    (d.ring.peekSeeing seen max).1 ≤ d.unretired := by
  rw [headAt?] at hs
  split at hs
  · next hsight =>
    obtain ⟨counts, hgrows⟩ := h.heads
    obtain ⟨n, rfl, hl, hu, -⟩ := hgrows.look hsight hs
    obtain ⟨-, -, -, -, -, hg, -⟩ := h.stands.peekSeeing hl hu max
    rw [hg, h.unretired_eq]
    omega
  · cases hs

theorem Counted.windows_le (h : d.Counted capacity c) :
    d.unretired + d.ring.reserved ≤ capacity ∧ d.ring.exposed ≤ d.unretired := by
  have hcap := h.capacity_eq
  have := h.stands.seenTail_le
  have := h.stands.reserved_le
  have := h.stands.exposed_le
  have := h.stands.seenHead_le
  rw [h.unretired_eq]
  omega

theorem Counted.position_ne (h : d.Counted capacity c) {bound : Nat} (ha : Addresses capacity bound)
    (hb : d.published.length + d.ring.reserved ≤ bound) {j k : Nat} (hj : j < d.ring.reserved)
    (hk : k < d.unretired) : d.ring.position d.ring.head j ≠ d.ring.position d.ring.tail k := by
  have hcap := h.capacity_eq
  have := h.stands.seenTail_le
  have := h.stands.reserved_le
  rw [h.published_length] at hb
  rw [h.unretired_eq] at hk
  rw [h.stands.head_eq, h.stands.tail_eq, position_eq (hcap.symm ▸ ha) (by omega),
    position_eq (hcap.symm ▸ ha) (by omega)]
  have hl : c.tail ≤ c.head + j := by omega
  have hu : c.head + j < c.tail + d.ring.capacity := by omega
  exact mod_ne_mod hl hu (by omega) (by omega) (by omega)

theorem run_append (ops ops' : List DuplexOp) (d : Duplex) :
    run (ops ++ ops') d = run ops' (run ops d) := by
  induction ops generalizing d with
  | nil => rfl
  | cons op ops ih => exact ih (d.step op)

theorem run_clear (h0 : d.cleared = 0) {k : Nat} (hk : k ≤ d.ring.reserved) :
    run (List.replicate k .clear) d = { d with ring := d.ring.clearAhead k, cleared := k } := by
  induction k with
  | zero =>
    change d = { d with cleared := 0 }
    rw [← h0]
  | succ k ih =>
    have hbusy : ¬ Idle { d with ring := d.ring.clearAhead k, cleared := k } := by
      change ¬ (d.ring.clearAhead k).reserved ≤ k
      rw [reserved_clearAhead]
      omega
    rw [List.replicate_succ', run_append, ih (Nat.le_of_succ_le hk), run, run, step, if_neg hbusy,
      clearAhead_succ]

/-- A writer that the reader does not come between reserves as `reserveSeeing` says. -/
theorem run_reserve (hi : d.Idle) {sight : Nat} {seen : UInt64} (hs : d.tailAt? sight = some seen)
    {max count : Nat} {r' : PacketRing} (hr : d.ring.reserveSeeing seen max = (count, r')) :
    run (.claim max sight :: List.replicate count .clear) d =
      { d with
        ring := r'
        tailSight := if d.ring.freeSeeing d.ring.cachedTail < max then sight else d.tailSight
        cleared := count } := by
  rw [reserveSeeing_eq] at hr
  obtain ⟨rfl, rfl⟩ := Prod.mk.inj hr
  rw [run, step, hs]
  dsimp only
  rw [if_pos hi]
  exact run_clear rfl (Nat.le_refl _)

section Turning

variable {n dataSize k : Nat}

/-- Packet `k`, once it is the turn of that one. Both sides have seen each other last before. -/
def turn (n k : Nat) : List DuplexOp :=
  .claim (n + 1) k :: List.replicate (n + 1) .clear ++ [.publish 1, .peek 1 (k + 1), .retire 1]

def turns (n : Nat) : Nat → List DuplexOp
  | 0 => []
  | k + 1 => turns n k ++ turn n k

structure Level (n dataSize k : Nat) (d : Duplex) : Prop where
  ring_eq : ∃ seen, (seen = .ofNat k ∨ seen = .ofNat k - 1) ∧
    d.ring = level n dataSize (.ofNat k) seen
  tailAt?_eq : d.tailAt? k = some (.ofNat k)
  tails_length : d.tails.length = k + 1
  heads_length : d.heads.length = k + 1
  headSight_le : d.headSight ≤ k
  published_length : d.published.length = k
  taken_length : d.taken.length = k

theorem level_ofRing (n dataSize : Nat) : (ofRing (level n dataSize 0 0)).Level n dataSize 0 :=
  ⟨⟨0, .inl rfl, rfl⟩, rfl, rfl, rfl, Nat.le_refl 0, rfl, rfl⟩

theorem step_publish {r' : PacketRing} {count : Nat} (h : d.ring.publish count = .ok r')
    (hi : d.Idle) :
    d.step (.publish count) =
      { d with
        ring := r'
        heads := d.heads ++ [r'.head]
        cleared := 0
        published := d.published ++ front d.ring.head count d.ring } := by
  rw [step, h]
  exact if_pos hi

theorem step_peek (seen : UInt64) {sight : Nat} (hs : d.headAt? sight = some seen) (max : Nat) :
    d.step (.peek max sight) =
      { d with
        ring := (d.ring.peekSeeing seen max).2
        headSight := if d.ring.readySeeing d.ring.cachedHead < max then sight else d.headSight } := by
  rw [step, hs]

theorem step_retire (r' : PacketRing) {count : Nat} (h : d.ring.retire count = .ok r') :
    d.step (.retire count) =
      { d with
        ring := r'
        tails := d.tails ++ [r'.tail]
        taken := d.taken ++ front d.ring.tail count d.ring } := by
  rw [step, h]

theorem Level.turn (h : d.Level n dataSize k) : (run (turn n k) d).Level n dataSize (k + 1) := by
  obtain ⟨seen, hseen, hring⟩ := h.ring_eq
  have hreserve : d.ring.reserveSeeing (.ofNat k) (n + 1) =
      (n + 1, { level n dataSize (.ofNat k) (.ofNat k) with reserved := n + 1 }) := by
    rw [hring]
    exact reserve_level hseen
  have hidle : d.Idle := by
    rw [Idle, hring]
    exact Nat.zero_le _
  rw [Duplex.turn, run_append, run_reserve hidle h.tailAt?_eq hreserve]
  generalize hsight :
    (if d.ring.freeSeeing d.ring.cachedTail < n + 1 then k else d.tailSight) = sight
  have hsight_le : sight ≤ k := by
    have := h.tailAt?_eq
    rw [tailAt?] at this
    split at this <;> grind
  rw [run, step_publish publish_level (Nat.le_refl _), run, step_peek (.ofNat k + 1), run,
    step_retire (level n dataSize (.ofNat k + 1) (.ofNat k)), run]
  · exact
      { ring_eq := ⟨.ofNat k, .inr (ofNat_eq_succ_sub k), by rw [ofNat_succ]⟩
        tailAt?_eq := by
          rw [tailAt?, if_pos (Nat.le_succ_of_le hsight_le),
            List.getElem?_append_right h.tails_length.le, h.tails_length, Nat.sub_self,
            ofNat_succ]
          rfl
        tails_length := by rw [List.length_append, h.tails_length]; rfl
        heads_length := by rw [List.length_append, h.heads_length]; rfl
        headSight_le := by
          dsimp only
          have := h.headSight_le
          split <;> omega
        published_length := by rw [List.length_append, h.published_length]; rfl
        taken_length := by rw [List.length_append, h.taken_length]; rfl }
  · exact retire_level
  · rw [headAt?, if_pos (Nat.le_succ_of_le h.headSight_le),
      List.getElem?_append_right h.heads_length.le, h.heads_length, Nat.sub_self]
    rfl

theorem level_turns (n dataSize k : Nat) :
    (run (turns n k) (ofRing (level n dataSize 0 0))).Level n dataSize k := by
  induction k with
  | zero => exact level_ofRing n dataSize
  | succ k ih =>
    rw [turns, run_append]
    exact ih.turn

end Turning

/-- Both sides may act on news as old as they come: neither is granted more than there is. As long
as indices do not wrap out of place, nothing that is written to waits to be read. -/
theorem stale_looks_safe (capacity dataSize headerSize : Nat) (h0 : 0 < capacity)
    (h1 : capacity < 2 ^ 64) (ops : List DuplexOp) :
    ∃ r d, create capacity dataSize headerSize = .ok r ∧ run ops (ofRing r) = d ∧
      (d.ring.head - d.ring.cachedTail).toNat ≤ capacity ∧
      (∀ sight seen, d.tailAt? sight = some seen → (d.ring.head - seen).toNat ≤ capacity ∧
        ∀ max, (d.ring.reserveSeeing seen max).1 ≤ capacity - d.unretired) ∧
      (∀ sight seen, d.headAt? sight = some seen →
        ∀ max, (d.ring.peekSeeing seen max).1 ≤ d.unretired) ∧
      d.unretired + d.ring.reserved ≤ capacity ∧ d.ring.exposed ≤ d.unretired ∧
      (capacity ∣ 2 ^ 64 ∨ handedOut ops (ofRing r) ≤ 2 ^ 64 →
        (∀ j < d.ring.reserved, ∀ k < d.unretired,
          d.ring.position d.ring.head j ≠ d.ring.position d.ring.tail k) ∧
        d.published = d.taken ++ d.ring.contents ∧
        ∀ k slot, d.ring.exposedSlot k = .ok slot →
          d.published[d.taken.length + k]? = some slot.packet) := by
  obtain ⟨r, hr, -, hs⟩ := shows_create h0 h1 dataSize headerSize
  obtain rfl : capacity = r.capacity := hs.capacity_eq
  obtain ⟨c, h, hrecord⟩ := (counted_ofRing hs.stands).run ops
  obtain ⟨hreserved, hexposed⟩ := h.windows_le
  refine ⟨r, _, hr, rfl, ?_, fun _ _ => h.free_of_tailAt?, fun _ _ => h.ready_of_headAt?, hreserved,
    hexposed, fun hfit => ?_⟩
  · obtain ⟨counts, hgrows⟩ := h.tails
    have hseen : (run ops (ofRing r)).tailAt? (run ops (ofRing r)).tailSight =
        some (run ops (ofRing r)).ring.cachedTail := by
      rw [tailAt?, if_pos (Nat.le_refl _), hgrows.values_eq, List.getElem?_map, hgrows.seen_eq,
        h.stands.cachedTail_eq]
      rfl
    exact (h.free_of_tailAt? hseen).1
  · have ha := addresses_of_dvd_or_le hfit
    have hb := le_handedOut ops (ofRing r)
    obtain ⟨f, hshows, hpublished⟩ := hrecord _ _ ⟨hs, rfl⟩ ha (Nat.le_refl _)
    have hcap := h.capacity_eq
    have hhead : c.head ≤ handedOut ops (ofRing r) := by
      have := h.published_length
      omega
    refine ⟨fun j hj k hk => h.position_ne ha hb hj hk, ?_, fun k slot hslot => ?_⟩
    · rw [hshows.contents (hcap.symm ▸ ha.mono hhead)]
      exact hpublished
    · rw [exposedSlot] at hslot
      split at hslot
      · next hk =>
        cases hslot
        rw [hpublished, List.getElem?_append_right (Nat.le_add_right _ _), Nat.add_sub_cancel_left]
        exact hshows.getElem?_slotAt_tail (hcap.symm ▸ ha) hhead
          (Nat.lt_of_lt_of_le hk hshows.exposed_le)
      · cases hslot

def roundabout : List DuplexOp :=
  [.claim 2 0, .clear, .clear, .edit 0 (.write [1]), .edit 1 (.write [2]), .publish 2, .peek 9 1,
    .retire 1, .claim 5 0, .peek 1 1, .clear, .edit 0 (.write [3]), .retire 1, .publish 1, .peek 5 1,
    .claim 5 1, .clear, .edit 0 (.write [4]), .publish 1, .peek 5 2, .claim 2 2, .clear]

theorem roundabout_safe :
    0 < 3 ∧ 3 < 2 ^ 64 ∧ ∃ r d, create 3 1 0 = .ok r ∧ run roundabout (ofRing r) = d ∧
      handedOut roundabout (ofRing r) ≤ 2 ^ 64 ∧
      d.published.map Packet.data = [[1], [2], [3], [4]] ∧ d.taken.map Packet.data = [[1], [2]] ∧
      (∀ j < d.ring.reserved, ∀ k < d.unretired,
        d.ring.position d.ring.head j ≠ d.ring.position d.ring.tail k) ∧
      d.published = d.taken ++ d.ring.contents := by
  obtain ⟨r, d, hr, hd, -, -, -, -, -, hsafe⟩ :=
    stale_looks_safe 3 1 0 (by decide) (by decide) roundabout
  have hfit : handedOut roundabout (ofRing r) ≤ 2 ^ 64 := by
    cases hr
    decide +kernel
  have hrecord : d.published.map Packet.data = [[1], [2], [3], [4]] ∧
      d.taken.map Packet.data = [[1], [2]] := by
    subst hd
    cases hr
    decide +kernel
  obtain ⟨hapart, hpublished, -⟩ := hsafe (.inr hfit)
  exact ⟨by decide, by decide, r, d, hr, hd, hfit, hrecord.1, hrecord.2, hapart, hpublished⟩

/-- With three slots published, and five free when the writer looked last, two more are taken. -/
def overtake (k : Nat) : List DuplexOp :=
  (.claim 3 k :: List.replicate 3 .clear) ++
    (.publish 3 :: .claim 2 k :: List.replicate 2 .clear)

theorem Level.overtake (h : d.Level 5 dataSize k) :
    (run (overtake k) d).ring.head = .ofNat k + 3 ∧ (run (overtake k) d).ring.tail = .ofNat k ∧
      (run (overtake k) d).ring.slots.size = 6 ∧ (run (overtake k) d).ring.reserved = 2 ∧
      (run (overtake k) d).unretired = 3 ∧ (run (overtake k) d).published.length = k + 3 := by
  obtain ⟨seen, hseen, hring⟩ := h.ring_eq
  have hplace : d.tailSight ≤ k ∧ d.tails[k]? = some (.ofNat k) := by
    have := h.tailAt?_eq
    rwa [tailAt?, Option.ite_none_right_eq_some] at this
  have hidle : d.Idle := by
    rw [Idle, hring]
    exact Nat.zero_le _
  have hfirst : d.ring.reserveSeeing (.ofNat k) 3 =
      (3, { level 5 dataSize (.ofNat k) seen with reserved := 3 }) := by
    rw [hring]
    exact reserve_within hseen (by decide) _
  have hthree : publish 3 { level 5 dataSize (.ofNat k) seen with reserved := 3 } =
      .ok { level 5 dataSize (.ofNat k) seen with head := .ofNat k + 3 } := rfl
  have hsecond : reserveSeeing (.ofNat k) 2
      { level 5 dataSize (.ofNat k) seen with head := .ofNat k + 3 } =
      (2, { level 5 dataSize (.ofNat k) seen with head := .ofNat k + 3, reserved := 2 }) :=
    reserve_ahead dataSize hseen (by decide) _
  obtain ⟨d₁, hd₁, hring₁, htails, hsight, hpublished, htaken⟩ : ∃ d₁,
      d₁ = (run (.claim 3 k :: List.replicate 3 .clear) d).step (.publish 3) ∧
      d₁.ring = { level 5 dataSize (.ofNat k) seen with head := .ofNat k + 3 } ∧
      d₁.tails = d.tails ∧ d₁.tailSight ≤ k ∧ d₁.published.length = k + 3 ∧
      d₁.taken.length = k := by
    refine ⟨_, rfl, ?_⟩
    rw [run_reserve hidle h.tailAt?_eq hfirst, step_publish hthree (Nat.le_refl _)]
    refine ⟨rfl, rfl, ?_, ?_, h.taken_length⟩
    · dsimp only
      split
      · exact Nat.le_refl k
      · exact hplace.1
    · rw [List.length_append, h.published_length]
      rfl
  have hidle₁ : d₁.Idle := by
    rw [Idle, hring₁]
    exact Nat.zero_le _
  have hlook : d₁.tailAt? k = some (.ofNat k) := by
    rw [tailAt?, if_pos hsight, htails, hplace.2]
  rw [Duplex.overtake, run_append, run, ← hd₁, run_reserve hidle₁ hlook (hring₁ ▸ hsecond)]
  refine ⟨rfl, rfl, rfl, rfl, ?_, hpublished⟩
  rw [unretired, hpublished, htaken, Nat.add_sub_cancel_left]

/-- When the count of published slots has come to `2 ^ 64 - 4`, the second slot that is taken so has
index `2 ^ 64`, which wraps, and lies at the place of the oldest unread packet. -/
theorem reservation_meets_unread : ∃ r d, create 6 1 0 = .ok r ∧
    run (turns 5 (2 ^ 64 - 4) ++ overtake (2 ^ 64 - 4)) (ofRing r) = d ∧
    d.published.length < 2 ^ 64 ∧ ∃ j < d.ring.reserved, ∃ k < d.unretired,
      d.ring.position d.ring.head j = d.ring.position d.ring.tail k := by
  obtain ⟨hhead, htail, hsize, hreserved, hunretired, hpublished⟩ :=
    (level_turns 5 1 (2 ^ 64 - 4)).overtake
  rw [← run_append] at hhead htail hsize hreserved hunretired hpublished
  refine ⟨_, _, create_eq_level 5 1, rfl, ?_, 1, ?_, 0, ?_, ?_⟩
  · rw [hpublished]
    decide
  · rw [hreserved]
    decide
  · rw [hunretired]
    decide
  · rw [PacketRing.position, PacketRing.position, hhead, htail, hsize]
    decide

end Duplex

end DmaBurst
