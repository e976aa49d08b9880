import DmaBurst.Proofs.Contract.Accounts
import DmaBurst.Proofs.Filling
import DmaBurst.Proofs.Ring.Refinement

namespace DmaBurst

def PacketRing.popSliced (r : PacketRing) : Except Fault (Option Packet) × PacketRing :=
  match r.peek 1 with
  | (0, r) => (.ok none, r)
  | (_ + 1, r) =>
    match (r.slotAt r.tail 0).sliced with
    | .ok p => (.ok (some p), { r with tail := r.tail + 1, exposed := 0 })
    | .error f => (.error f, r)

/-- As `run` has it, but who looks at the bytes of a slot takes them as slices of its areas, which is
a fault where the slot shows more than it has. -/
def RingOp.runSliced : RingOp → PacketRing → RingAnswer × PacketRing
  | .inspect offset, r =>
    (answerOf .slot (r.reservedSlot offset >>= fun s => (fun _ => s) <$> s.sliced), r)
  | .view offset, r => (answerOf .packet (r.exposedSlot offset >>= Slot.sliced), r)
  | .pop, r => (answerOf .popped r.popSliced.1, r.popSliced.2)
  | op, r => op.run r

def Channel.packetSliced (offset : Nat) (c : Channel) (r : PacketRing) : Except Fault Packet :=
  if c.bound then r.exposedSlot offset >>= Slot.sliced else .error (.channelClosed c.id)

namespace Queue

def lengthAtSliced (offset : Nat) (q : Queue) (r : PacketRing) : Except Fault Nat :=
  match q.channel.id.direction with
  | .rx => (·.data.length) <$> q.channel.packetSliced offset r
  | .tx => (·.dataLen) <$> q.channel.slot offset r

def bytesOfSliced (count : Nat) (q : Queue) (r : PacketRing) : Except Fault Nat :=
  (List.range count).foldlM (fun sum offset => (sum + ·) <$> q.lengthAtSliced offset r) 0

end Queue

namespace PacketRing

variable {dataSize headerSize : Nat} {r : PacketRing}

def runAllSliced : List RingOp → PacketRing → List RingAnswer × PacketRing
  | [], r => ([], r)
  | op :: ops, r =>
    let (answer, r) := op.runSliced r
    let (answers, r) := runAllSliced ops r
    (answer :: answers, r)

namespace Sized

theorem run (h : r.Sized dataSize headerSize) (op : RingOp) :
    (op.run r).2.Sized dataSize headerSize := by
  have hsettle : ∀ answer : Except Fault PacketRing,
      (∀ r', answer = .ok r' → r'.Sized dataSize headerSize) →
      (RingOp.settle r answer).2.Sized dataSize headerSize := by
    intro answer ha
    cases answer with
    | ok r' => exact ha r' rfl
    | error _ => exact h
  cases op with
  | reserve max => exact h.reserve max
  | edit offset change =>
    refine hsettle _ fun r' hr => ?_
    rw [editReserved] at hr
    split at hr <;> cases hr
    exact h.modifyAt r.head offset fun s hf => hf.edit change
  | publish count =>
    refine hsettle _ fun r' hr => ?_
    rw [PacketRing.publish] at hr
    split at hr <;> cases hr
    exact h
  | push data header flags => exact h.push data header flags
  | peek max => exact h.of_slots (r.peek_fields max).1
  | retire count =>
    refine hsettle _ fun r' hr => ?_
    rw [PacketRing.retire] at hr
    split at hr <;> cases hr
    exact h
  | pop => exact h.of_slots r.pop_slots
  | inspect | view => exact h

theorem runAll (h : r.Sized dataSize headerSize) (ops : List RingOp) :
    (runAll ops r).2.Sized dataSize headerSize := by
  induction ops generalizing r with
  | nil => exact h
  | cons op ops ih => exact ih (h.run op)

theorem exposedSlot_sliced (h : r.Sized dataSize headerSize) (offset : Nat) :
    r.exposedSlot offset >>= Slot.sliced = Slot.packet <$> r.exposedSlot offset := by
  rw [exposedSlot]
  split
  · exact (h.slotAt r.tail offset).sliced
  · rfl

theorem popSliced_eq (h : r.Sized dataSize headerSize) :
    r.popSliced = (.ok r.pop.1, r.pop.2) := by
  have hpeek : (r.peek 1).2.Sized dataSize headerSize := h.of_slots (r.peek_fields 1).1
  rw [popSliced, PacketRing.pop]
  obtain ⟨granted, r', hp⟩ : ∃ granted r', r.peek 1 = (granted, r') := ⟨_, _, rfl⟩
  rw [hp] at hpeek ⊢
  cases granted with
  | zero => rfl
  | succ n =>
    dsimp only
    rw [(hpeek.slotAt r'.tail 0).sliced]

theorem runSliced_eq (h : r.Sized dataSize headerSize) (op : RingOp) :
    op.runSliced r = op.run r := by
  cases op with
  | inspect offset =>
    have hslot : (r.reservedSlot offset >>= fun s => (fun _ => s) <$> s.sliced) =
        r.reservedSlot offset := by
      rw [reservedSlot]
      split
      · exact congrArg ((fun _ => r.slotAt r.head offset) <$> ·) (h.slotAt r.head offset).sliced
      · rfl
    rw [RingOp.runSliced, hslot]
    rfl
  | view offset =>
    rw [RingOp.runSliced, h.exposedSlot_sliced, RingOp.run]
    cases r.exposedSlot offset <;> rfl
  | pop =>
    rw [RingOp.runSliced, h.popSliced_eq]
    rfl
  | reserve | edit | publish | push | peek | retire => rfl

theorem runAllSliced_eq (h : r.Sized dataSize headerSize) (ops : List RingOp) :
    runAllSliced ops r = PacketRing.runAll ops r := by
  induction ops generalizing r with
  | nil => rfl
  | cons op ops ih =>
    rw [runAllSliced, PacketRing.runAll, h.runSliced_eq]
    dsimp only
    rw [ih (h.run op)]

end Sized

structure ChangedAt (place : Nat) (f : Slot → Slot) (r r' : PacketRing) : Prop where
  eq : r' = { r with slots := r'.slots, slots_pos := r'.slots_pos }
  at_place : r'.slots[place]? = r.slots[place]?.map f
  elsewhere : ∀ i, i ≠ place → r'.slots[i]? = r.slots[i]?

theorem getElem?_modifyAt (base : UInt64) (offset : Nat) (f : Slot → Slot) (r : PacketRing)
    (i : Nat) : (r.modifyAt base offset f).slots[i]? =
      if r.position base offset = i then r.slots[i]?.map f else r.slots[i]? :=
  Array.getElem?_modify

theorem changedAt_modifyAt (base : UInt64) (offset : Nat) (f : Slot → Slot) (r : PacketRing) :
    ChangedAt (r.position base offset) f r (r.modifyAt base offset f) where
  eq := rfl
  at_place := by rw [getElem?_modifyAt, if_pos rfl]
  elsewhere i hi := by rw [getElem?_modifyAt, if_neg (Ne.symm hi)]

/-- The slots at the first `granted` places from the head on have lost their lengths and flags, and
are the window; beside that, the tail may have been looked at. -/
structure Grants (seen : UInt64) (granted : Nat) (r r' : PacketRing) : Prop where
  eq : r' = { r with
    slots := r'.slots, slots_pos := r'.slots_pos, cachedTail := r'.cachedTail, reserved := granted }
  cachedTail_eq : r'.cachedTail = r.cachedTail ∨ r'.cachedTail = seen
  cleared : ∀ k < granted, r'.slots[r.position r.head k]? =
    r.slots[r.position r.head k]?.map fun s => { s with dataLen := 0, headerLen := 0, flags := 0 }
  elsewhere : ∀ i, (∀ k < granted, i ≠ r.position r.head k) → r'.slots[i]? = r.slots[i]?

/-- A slot that comes up twice is cleared once: clearing it again changes nothing. -/
theorem getElem?_clearAhead (count : Nat) (r : PacketRing) (i : Nat) :
    (r.clearAhead count).slots[i]? =
      if ∃ k < count, r.position r.head k = i then r.slots[i]?.map Slot.clear
      else r.slots[i]? := by
  induction count with
  | zero => simp [clearAhead]
  | succ count ih =>
    obtain ⟨hhead, -, -, -, -, hcap⟩ := clearAhead_fields count r
    have hposition : (r.clearAhead count).position (r.clearAhead count).head count =
        r.position r.head count := by
      rw [position, position, hhead]
      exact congrArg _ hcap
    rw [clearAhead_succ, getElem?_modifyAt, hposition, ih]
    simp only [Nat.exists_lt_succ_right]
    by_cases hlast : r.position r.head count = i
    · simp only [hlast, if_true, or_true]
      split
      · rw [Option.map_map]
        rfl
      · rfl
    · simp only [hlast, if_false, or_false]

theorem grants_reserveSeeing (seen : UInt64) (max : Nat) (r : PacketRing) :
    r.Grants seen (r.reserveSeeing seen max).1 (r.reserveSeeing seen max).2 := by
  obtain ⟨granted, hg⟩ : ∃ granted, (r.reserveSeeing seen max).1 = granted := ⟨_, rfl⟩
  have hstep : (r.reserveSeeing seen max).2 =
      { (r.refreshTail max seen).clearAhead granted with reserved := granted } := by
    rw [← hg]
    rfl
  obtain ⟨rslots, rhead, rtail, rlook, rseen, rexp⟩ := refreshTail_fields r max seen
  obtain ⟨hhead, htail, hlook, hseen, hexp, -⟩ := clearAhead_fields granted (r.refreshTail max seen)
  have hslots : ∀ i, (r.reserveSeeing seen max).2.slots[i]? =
      if ∃ k < granted, r.position r.head k = i then r.slots[i]?.map Slot.clear
      else r.slots[i]? := by
    intro i
    rw [hstep, ← getElem?_clearAhead, clearAhead_slots_congr rslots rhead]
  rw [hg]
  refine ⟨?_, ?_, fun k hk => ?_, fun i hi => ?_⟩
  · rw [hstep]
    simp only [hhead, htail, hseen, hexp, rhead, rtail, rseen, rexp]
  · rw [hstep]
    exact rlook.imp hlook.trans hlook.trans
  · rw [hslots, if_pos ⟨k, hk, rfl⟩]
    rfl
  · refine (hslots i).trans (if_neg ?_)
    rintro ⟨k, hk, he⟩
    exact hi k hk he.symm

/-- A change of a reserved slot changes no other, and a reservation, wherever it sees the reader,
forgets what the slots that it grants have shown. -/
structure Confined (r : PacketRing) : Prop where
  edit : ∀ offset change, offset < r.reserved →
    ∃ r', (RingOp.edit offset change).run r = (.done, r') ∧
      r.ChangedAt (r.position r.head offset) change.apply r'
  editOutside : ∀ offset change, r.reserved ≤ offset →
    (RingOp.edit offset change).run r = (.fault (.outsideReservation offset r.reserved), r)
  reserve : ∀ seen max, r.Grants seen (r.reserveSeeing seen max).1 (r.reserveSeeing seen max).2

theorem confined (r : PacketRing) : r.Confined where
  edit offset change h := by
    refine ⟨_, ?_, changedAt_modifyAt r.head offset change.apply r⟩
    rw [RingOp.run, editReserved, if_pos h]
    rfl
  editOutside offset change h := by
    rw [RingOp.run, editReserved, if_neg (Nat.not_lt.mpr h)]
    rfl
  reserve seen max := grants_reserveSeeing seen max r

end PacketRing

theorem Channel.packetSliced_eq {dataSize headerSize : Nat} {r : PacketRing}
    (h : r.Sized dataSize headerSize) (offset : Nat) (c : Channel) :
    c.packetSliced offset r = c.packet offset r := by
  rw [packetSliced, packet, h.exposedSlot_sliced]

namespace Queue

variable {dataSize headerSize len : Nat} {q : Queue} {r : PacketRing}

/-- Whoever reads the burst, its packets or, when it ends, their lengths, stays within the areas of
the slots. -/
structure Reads (q : Queue) (len : Nat) (r : PacketRing) : Prop where
  packet : ∀ offset, q.channel.packetSliced offset r = q.channel.packet offset r
  slot : ∀ offset s, q.channel.slot offset r = .ok s → s.sliced = .ok s.packet
  bytes : ∀ count ≤ len, q.bytesOfSliced count r =
    .ok ((List.range count).map fun k => (q.entry k r).dataLen).sum

theorem fits_entry (h : r.Sized dataSize headerSize) (offset : Nat) (q : Queue) :
    (q.entry offset r).Fits dataSize headerSize := by
  rw [entry]
  cases q.channel.id.direction with
  | rx => exact h.slotAt r.tail offset
  | tx => exact h.slotAt r.head offset

theorem bytesOfSliced_eq (h : r.Sized dataSize headerSize) (count : Nat) (q : Queue) :
    q.bytesOfSliced count r = q.bytesOf count r := by
  have hlength : ∀ offset, q.lengthAtSliced offset r = q.lengthAt offset r := by
    intro offset
    cases hd : q.channel.id.direction with
    | rx => simp only [lengthAtSliced, lengthAt, hd, Channel.packetSliced_eq h]
    | tx => simp only [lengthAtSliced, lengthAt, hd]
  simp only [bytesOfSliced, bytesOf, hlength]

theorem Lends.reads (hl : q.Lends len r) (h : r.Sized dataSize headerSize) : q.Reads len r where
  packet offset := Channel.packetSliced_eq h offset q.channel
  slot offset s hs := by
    rw [Channel.slot, PacketRing.reservedSlot] at hs
    split at hs
    · split at hs
      · cases hs
        exact (h.slotAt r.head offset).sliced
      · cases hs
    · cases hs
  bytes count hc := by
    rw [bytesOfSliced_eq h]
    refine bytesOf_eq fun k hk => ?_
    rw [hl.lengthAt h (Nat.lt_of_lt_of_le hk hc)]
    exact congrArg Except.ok (fits_entry h k q).length_payload

end Queue

namespace Rig

variable {rig : Rig} {name len offset : Nat} {q : Queue} {r : PacketRing}

theorem ring?_edit (hn : rig.handles name = some ⟨q, some len⟩)
    (hr : rig.card.ring? q.channel.id = some r) (hl : q.Lends len r)
    (hd : q.channel.id.direction = .tx) (ho : offset < len) (change : SlotEdit) :
    ∃ r', r.ChangedAt (r.position r.head offset) change.apply r' ∧
      ∀ p, (step (.onQueue name (.edit offset change)) rig).card.ring? p =
        if q.channel.id = p then some r' else rig.card.ring? p := by
  have hw := hl.windowOf_eq
  rw [hd, PacketRing.windowOf] at hw
  have hedit : q.editSlot len offset change.apply r =
      .ok (r.modifyAt r.head offset change.apply) := by
    rw [Queue.editSlot, if_pos ho, Channel.editSlot, if_pos hl.bound, PacketRing.editReserved,
      if_pos (hw.symm ▸ ho)]
  have hstep : (step (.onQueue name (.edit offset change)) rig).card =
      rig.card.setRing q.channel.id (r.modifyAt r.head offset change.apply) := by
    rw [step, hn]
    dsimp only
    rw [Handle.act, if_pos hd, Card.withRing_snd hr, hedit]
    rfl
  refine ⟨_, PacketRing.changedAt_modifyAt r.head offset change.apply r, fun p => ?_⟩
  rw [hstep, Card.ring?_setRing hr]

end Rig

namespace PacketRing

/-- Whatever the two ends of a ring do, no slot shows more than its areas hold, and a change of one
slot changes no other. So it is with the rings of a card, however its queues are used. -/
theorem lengths_within_areas {capacity dataSize headerSize : Nat} {r : PacketRing}
    (hr : create capacity dataSize headerSize = .ok r) (ops : List RingOp) {spec : CardSpec}
    {card : Card} (hcard : Card.create spec = .ok card) (us : List RigUse) :
    ((runAll ops r).2.Sized dataSize headerSize ∧ runAllSliced ops r = runAll ops r ∧
      (runAll ops r).2.Confined ∧ ∀ s, Filling.Exact s) ∧
    (∀ q r', (Rig.useAll us (.ofCard card)).card.ring? q = some r' →
      ∀ s ∈ r'.slots, s.dataLen ≤ s.data.length ∧ s.headerLen ≤ s.header.length) ∧
    ∀ name q len, (Rig.useAll us (.ofCard card)).handles name = some ⟨q, some len⟩ →
      ∃ r', (Rig.useAll us (.ofCard card)).card.ring? q.channel.id = some r' ∧
        q.Reads len r' ∧
        (q.channel.id.direction = .tx → ∀ offset < len, ∀ change : SlotEdit,
          ∃ r'', r'.ChangedAt (r'.position r'.head offset) change.apply r'' ∧
            ∀ p, (Rig.step (.onQueue name (.edit offset change))
                (Rig.useAll us (.ofCard card))).card.ring? p =
              if q.channel.id = p then some r''
              else (Rig.useAll us (.ofCard card)).card.ring? p) := by
  have hsized := Sized.of_create hr
  have hk := (Rig.Kept.ofCard hcard).useAll us
  have hf : (Rig.useAll us (.ofCard card)).card.Fitting := (Card.Fitting.ofCard hcard).useAll us
  refine ⟨⟨hsized.runAll ops, hsized.runAllSliced_eq ops, confined _, Filling.exact⟩, ?_, ?_⟩
  · intro q r' hr' s hm
    obtain ⟨d, n, hfits⟩ := hf q r' hr'
    have hs := hfits s hm
    exact ⟨hs.data_length ▸ hs.dataLen_le, hs.header_length ▸ hs.headerLen_le⟩
  · intro name q len hn
    obtain ⟨r', hr', hl⟩ := (hk.sane hn).lends
    obtain ⟨d, n, hfits⟩ := hf _ _ hr'
    exact ⟨r', hr', hl.reads hfits, fun hd offset ho change =>
      Rig.ring?_edit hn hr' hl hd ho change⟩

def reused : List RingOp :=
  [.push [1, 2, 3] [4, 5] 6, .pop, .reserve 9, .edit 0 (.clampDataLen 9),
    .edit 0 (.write [7, 8, 9]), .edit 1 (.write [7]), .edit 2 (.writeHeader [8]), .inspect 0,
    .publish 3, .peek 2, .view 1, .retire 2, .push [1] [] 0]

def halfFilled : List RigUse :=
  [.op (.openQueue 0 ⟨.tx, 0⟩), .op (.onQueue 0 .start), .op (.onQueue 0 (.acquire 2)),
    .look 0 (.getMut 0 (.write [7, 8])), .look 0 (.getMut 1 (.setDataLen 1)),
    .look 0 (.getMut 1 (.write [7, 8, 9]))]

theorem reused_lengths_within_areas :
    ∃ r card q r', create 3 2 1 = .ok r ∧
      Card.create { rxQueues := 0, txQueues := 1, ringCapacity := 3, slotSize := 2 } = .ok card ∧
      (runAll reused r).2.Sized 2 1 ∧
      (runAll reused r).2.slots.toList.map (fun s => (s.dataLen, s.headerLen)) =
        [(0, 1), (1, 0), (1, 0)] ∧
      runAllSliced reused r = runAll reused r ∧
      (Rig.useAll halfFilled (.ofCard card)).handles 0 = some ⟨q, some 2⟩ ∧
      (Rig.useAll halfFilled (.ofCard card)).card.ring? q.channel.id = some r' ∧
      q.bytesOfSliced 2 r' = .ok 3 := by
  have hr : create 3 2 1 = .ok _ := rfl
  have hcard : Card.create { rxQueues := 0, txQueues := 1, ringCapacity := 3, slotSize := 2 } =
      .ok _ := rfl
  obtain ⟨⟨hsized, hsliced, -, -⟩, -, hheld⟩ :=
    lengths_within_areas hr reused hcard halfFilled
  obtain ⟨r', hr', hreads, -⟩ := hheld 0 _ 2 rfl
  refine ⟨_, _, _, r', hr, hcard, hsized, by decide +kernel, hsliced, rfl, hr', ?_⟩
  cases hr'.symm.trans (show _ = some _ from rfl)
  exact hreads.bytes 2 (Nat.le_refl 2)

end PacketRing

end DmaBurst
