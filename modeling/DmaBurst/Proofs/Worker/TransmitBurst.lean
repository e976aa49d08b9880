import DmaBurst.Proofs.Queue.Burst
import DmaBurst.Proofs.Ring.Window
import DmaBurst.Worker.Transmit

namespace DmaBurst

structure Pull where
  answer : Except (Halt IoError) (Option Nat)
  area : Bytes

namespace Pull

def length? (p : Pull) : Option Nat :=
  match p.answer with
  | .ok (some len) => if len ≤ p.area.length then some len else none
  | _ => none

/-- The packet that was pulled: the front of the area. A source that fails, is dry or claims more
than the area holds gives none. -/
def packet? (p : Pull) : Option Packet :=
  p.length?.map fun len => ⟨p.area.take len, [], 0⟩

def refusal? (queue : QueueId) (p : Pull) : Option (Halt WorkerError) :=
  match p.answer with
  | .error e => some (e.map (.source queue))
  | .ok none => none
  | .ok (some len) =>
    if len ≤ p.area.length then none
    else some (.refused (.queue (.payload queue ⟨len, p.area.length⟩)))

theorem packet?_of_refusal? {p : Pull} {queue : QueueId} {e : Halt WorkerError}
    (h : p.refusal? queue = some e) : p.packet? = none := by
  rw [refusal?] at h
  rw [packet?, length?]
  split at h
  · next ha => rw [ha]; rfl
  · cases h
  · next ha =>
    split at h
    · cases h
    · next hn => simp [ha, hn]

def fill (p : Pull) (slot : Slot) : Slot :=
  { slot with data := p.area, dataLen := p.length?.getD slot.dataLen }

variable {p : Pull} {slot : Slot} {dataSize headerSize : Nat}

theorem length?_le {len : Nat} (h : p.length? = some len) : len ≤ p.area.length := by
  rw [length?] at h
  split at h
  · split at h
    · next hle =>
      cases h
      exact hle
    · cases h
  · cases h

theorem fits_fill (hs : slot.Fits dataSize headerSize) (ha : p.area.length = dataSize) :
    (p.fill slot).Fits dataSize headerSize := by
  refine ⟨ha, hs.header_length, ?_, hs.headerLen_le⟩
  rw [fill]
  cases hl : p.length? with
  | none => exact hs.dataLen_le
  | some len => exact ha ▸ length?_le hl

theorem packet_fill (hs : slot.IsCleared) {packet : Packet} (hp : p.packet? = some packet) :
    (p.fill slot).packet = packet := by
  obtain ⟨len, hl, rfl⟩ := Option.map_eq_some_iff.mp hp
  rw [Slot.packet, Slot.payload, Slot.metadata, fill, hl]
  simp only [Option.getD_some, hs.2.1, List.take_zero, hs.2.2]

end Pull

namespace PacketSource

variable {σ : Type} [PacketSource σ]

def ask (area : Bytes) (s : σ) : Pull × σ :=
  (⟨(next area s).1, Bytes.overlay (next area s).2.1 area⟩, (next area s).2.2)

/-- What a source answers to a row of questions, each about a payload area of its own. -/
def askEach : List Bytes → σ → List Pull × σ
  | [], s => ([], s)
  | area :: areas, s =>
    ((ask area s).1 :: (askEach areas (ask area s).2).1, (askEach areas (ask area s).2).2)

/-- Whatever it is asked, the source never fails and never claims more than the area holds. -/
def Reliable (s : σ) : Prop :=
  ∀ areas, ∀ p ∈ (askEach areas s).1,
    ∃ answer, p.answer = .ok answer ∧ ∀ len, answer = some len → len ≤ p.area.length

variable {s : σ}

theorem length_area (area : Bytes) (s : σ) : (ask area s).1.area.length = area.length :=
  Bytes.length_overlay _ _

theorem askEach_append (areas more : List Bytes) (s : σ) :
    askEach (areas ++ more) s =
      ((askEach areas s).1 ++ (askEach more (askEach areas s).2).1,
        (askEach more (askEach areas s).2).2) := by
  induction areas generalizing s with
  | nil => rfl
  | cons area areas ih =>
    rw [List.cons_append, askEach, ih]
    rfl

theorem Reliable.after (h : Reliable s) (areas : List Bytes) : Reliable (askEach areas s).2 := by
  intro more p hp
  refine h (areas ++ more) p ?_
  rw [askEach_append]
  exact List.mem_append_right _ hp

theorem Reliable.refusal? (h : Reliable s) {areas : List Bytes} {p : Pull}
    (hp : p ∈ (askEach areas s).1) (queue : QueueId) : p.refusal? queue = none := by
  obtain ⟨answer, hanswer, hlen⟩ := h areas p hp
  rw [Pull.refusal?, hanswer]
  cases answer with
  | none => rfl
  | some len => exact if_pos (hlen len rfl)

end PacketSource

namespace TxWorker

open PacketSource

variable {σ : Type} [PacketSource σ] {q : Queue} {r : PacketRing} {s : σ} {len : Nat}

theorem fillSlot_eq {offset : Nat} {slot : Slot} (h : q.slot len offset r = .ok slot) :
    fillSlot len offset q r s =
      (match (ask slot.data s).1.refusal? q.id with
        | some e => .error e
        | none => .ok (ask slot.data s).1.packet?.isSome,
        r.replaceReserved offset ((ask slot.data s).1.fill slot), (ask slot.data s).2) := by
  rw [fillSlot, h]
  simp only [ask, Pull.refusal?, Pull.packet?, Pull.fill, Pull.length?, Slot.copyData,
    Slot.setDataLen]
  rcases (next slot.data s).1 with e | _ | n
  · rfl
  · rfl
  · by_cases hn : n ≤ (Bytes.overlay (next slot.data s).2.1 slot.data).length
    · simp [hn]
    · simp [hn]

/-- The questions that the filling of a burst puts to the source, in order. -/
def pulls (len : Nat) (q : Queue) : (count offset : Nat) → PacketRing → σ → List Pull
  | 0, _, _, _ => []
  | count + 1, offset, r, s =>
    match q.slot len offset r with
    | .error _ => []
    | .ok slot =>
      (ask slot.data s).1 ::
        match fillSlot len offset q r s with
        | (.ok true, r, s) => pulls len q count (offset + 1) r s
        | _ => []

section Question

variable {offset : Nat} {slot : Slot} {p : Pull} {s' : σ}

theorem fillBurst_of_refused (count : Nat) (h : q.slot len offset r = .ok slot)
    (ha : ask slot.data s = (p, s')) {e : Halt WorkerError} (hr : p.refusal? q.id = some e) :
    fillBurst len q (count + 1) offset r s =
        (.error e, r.replaceReserved offset (p.fill slot), s') ∧
      pulls len q (count + 1) offset r s = [p] := by
  simp [fillBurst, pulls, fillSlot_eq h, h, ha, hr]

theorem fillBurst_of_dry (count : Nat) (h : q.slot len offset r = .ok slot)
    (ha : ask slot.data s = (p, s')) (hr : p.refusal? q.id = none) (hp : p.packet? = none) :
    fillBurst len q (count + 1) offset r s =
        (.ok (offset, .dry), r.replaceReserved offset (p.fill slot), s') ∧
      pulls len q (count + 1) offset r s = [p] := by
  simp [fillBurst, pulls, fillSlot_eq h, h, ha, hr, hp]

theorem fillBurst_of_packet (count : Nat) (h : q.slot len offset r = .ok slot)
    (ha : ask slot.data s = (p, s')) (hr : p.refusal? q.id = none) {packet : Packet}
    (hp : p.packet? = some packet) :
    fillBurst len q (count + 1) offset r s =
        fillBurst len q count (offset + 1) (r.replaceReserved offset (p.fill slot)) s' ∧
      pulls len q (count + 1) offset r s =
        p :: pulls len q count (offset + 1) (r.replaceReserved offset (p.fill slot)) s' := by
  simp [fillBurst, pulls, fillSlot_eq h, h, ha, hr, hp]

end Question

variable {c : PacketRing.Counts} {f : Fifo} {bound : Nat}

structure Holds (q : Queue) (len : Nat) (r : PacketRing) (c : PacketRing.Counts) (f : Fifo) :
    Prop where
  bound : q.channel.bound = true
  shows : r.Shows c f
  reserved_eq : r.reserved = len

namespace Holds

theorem length_reservation (h : Holds q len r c f) : f.reservation.length = len :=
  h.shows.length_reservation.trans h.reserved_eq

theorem slot (h : Holds q len r c f) (ha : PacketRing.Addresses r.capacity bound)
    (hb : c.head + len ≤ bound) {offset : Nat} (ho : offset < len) :
    ∃ slot, f.reservation[offset]? = some slot ∧ q.slot len offset r = .ok slot := by
  have hres := h.reserved_eq
  refine ⟨r.slotAt r.head offset, h.shows.getElem?_slotAt_head ha (by omega) (by omega), ?_⟩
  rw [Queue.slot, if_pos ho, Channel.slot, if_pos h.bound, PacketRing.reservedSlot,
    if_pos (by omega)]

theorem replace (h : Holds q len r c f) (ha : PacketRing.Addresses r.capacity bound)
    (hb : c.head + len ≤ bound) {offset : Nat} (ho : offset < len) {slot : Slot}
    (hs : slot.Fits f.dataSize f.headerSize) :
    Holds q len (r.replaceReserved offset slot) c
      { f with reservation :=
          f.reservation.take offset ++ slot :: f.reservation.drop (offset + 1) } := by
  have hres := h.reserved_eq
  have hlen := h.length_reservation
  have he := h.shows.edit ha (by omega) (by omega : offset < r.reserved)
    (e := fun _ => slot) fun _ _ => hs
  rw [List.modify_eq_take_cons_drop (by omega)] at he
  exact ⟨h.bound, he, hres⟩

end Holds

/-- How the filling of `count` slots from `offset` on ended, by what was pulled for them. The slots
before stay as they are; the packets stand in the slots that follow, in order, and only an answer
that cannot be used is an error. -/
structure Filled (q : Queue) (len : Nat) (c : PacketRing.Counts) (f : Fifo) (offset count : Nat)
    (ps : List Pull) (answer : Except (Halt WorkerError) (Nat × Fill)) (r : PacketRing) :
    Prop where
  length_le : ps.length ≤ count
  length_area : ∀ p ∈ ps, p.area.length = f.dataSize
  error_eq : ∀ p ∈ ps, ∀ e, p.refusal? q.id = some e → answer = .error e
  ok_eq : (∀ p ∈ ps, p.refusal? q.id = none) →
    ∃ fill, answer = .ok (offset + (ps.filterMap Pull.packet?).length, fill)
  holds : ∃ slots, Holds q len r c { f with reservation := f.reservation.take offset ++ slots } ∧
    ps.filterMap Pull.packet? <+: slots.map Slot.packet

namespace Filled

variable {offset count : Nat} {p : Pull} {ps : List Pull} {slots : List Slot}
  {answer : Except (Halt WorkerError) (Nat × Fill)}

theorem nil (h : Holds q len r c f) (ho : offset = len) :
    Filled q len c f offset 0 [] (.ok (offset, .full)) r := by
  have hlen := h.length_reservation
  refine ⟨Nat.le_refl _, by simp, by simp, fun _ => ⟨.full, rfl⟩, [], ?_, List.nil_prefix⟩
  rw [List.append_nil, List.take_of_length_le (by omega)]
  exact h

theorem stop (h : Holds q len r c { f with reservation := f.reservation.take offset ++ slots })
    (harea : p.area.length = f.dataSize) (hp : p.packet? = none)
    (herror : ∀ e, p.refusal? q.id = some e → answer = .error e)
    (hok : p.refusal? q.id = none → answer = .ok (offset, .dry)) :
    Filled q len c f offset (count + 1) [p] answer r := by
  have hnone : [p].filterMap Pull.packet? = [] := by simp [hp]
  refine ⟨by simp, by simpa using harea, by simpa using herror, fun hall => ⟨.dry, ?_⟩,
    slots, h, ?_⟩
  · rw [hnone]
    exact hok (hall p List.mem_cons_self)
  · rw [hnone]
    exact List.nil_prefix

theorem cons {packet : Packet} {slot : Slot} {rest : List Slot}
    (ho : offset ≤ f.reservation.length)
    (h : Filled q len c { f with reservation := f.reservation.take offset ++ slot :: rest }
      (offset + 1) count ps answer r)
    (harea : p.area.length = f.dataSize) (hr : p.refusal? q.id = none)
    (hp : p.packet? = some packet) (hslot : slot.packet = packet) :
    Filled q len c f offset (count + 1) (p :: ps) answer r := by
  obtain ⟨slots, hholds, hprefix⟩ := h.holds
  have hdone : (f.reservation.take offset ++ slot :: rest).take (offset + 1) =
      f.reservation.take offset ++ [slot] := by
    rw [List.take_append, List.length_take, Nat.min_eq_left ho, Nat.add_sub_cancel_left,
      List.take_take, Nat.min_eq_right (Nat.le_succ _)]
    rfl
  refine ⟨Nat.succ_le_succ h.length_le, by simpa using ⟨harea, h.length_area⟩,
    by simpa [hr] using h.error_eq, fun hall => ?_, slot :: slots, ?_, ?_⟩
  · obtain ⟨fill, hanswer⟩ := h.ok_eq fun p' hp' => hall p' (List.mem_cons_of_mem _ hp')
    refine ⟨fill, ?_⟩
    rw [hanswer, List.filterMap_cons, hp, List.length_cons, Nat.add_right_comm, Nat.add_assoc]
  · rwa [hdone, List.append_assoc] at hholds
  · rw [List.filterMap_cons, hp, List.map_cons, hslot]
    exact (List.prefix_cons_inj packet).mpr hprefix

end Filled

theorem Holds.fillBurst {count offset : Nat} (h : Holds q len r c f)
    (ha : PacketRing.Addresses r.capacity bound) (hb : c.head + len ≤ bound)
    (hcount : offset + count = len) (hcleared : ∀ slot ∈ f.reservation.drop offset,
      slot.IsCleared ∧ slot.Fits f.dataSize f.headerSize) (s : σ) :
    ∃ areas answer r' s', TxWorker.fillBurst len q count offset r s = (answer, r', s') ∧
      askEach areas s = (pulls len q count offset r s, s') ∧
      Filled q len c f offset count (pulls len q count offset r s) answer r' := by
  induction count generalizing offset r f s with
  | zero => exact ⟨[], _, _, _, rfl, rfl, .nil h hcount⟩
  | succ count ih =>
    have ho : offset < len := by omega
    obtain ⟨slot, hmem, hslot⟩ := h.slot ha hb ho
    have hdrop : f.reservation.drop offset = slot :: f.reservation.drop (offset + 1) :=
      List.drop_eq_getElem?_toList_append.trans (by rw [hmem]; rfl)
    obtain ⟨hclear, hfits⟩ := hcleared slot (hdrop ▸ List.mem_cons_self)
    obtain ⟨p, s₁, hask⟩ : ∃ p s₁, ask slot.data s = (p, s₁) := ⟨_, _, rfl⟩
    have harea : p.area.length = f.dataSize := by
      rw [← hfits.data_length, ← length_area slot.data s, hask]
    have h₁ := h.replace ha hb ho (Pull.fits_fill hfits harea)
    have hasked : askEach [slot.data] s = ([p], s₁) := by rw [askEach, hask]; rfl
    cases hr : p.refusal? q.id with
    | some e =>
      obtain ⟨hburst, hpulls⟩ := fillBurst_of_refused count hslot hask hr
      rw [hburst, hpulls]
      exact ⟨[slot.data], _, _, _, rfl, hasked,
        .stop h₁ harea (Pull.packet?_of_refusal? hr) (by simp [hr]) (by simp [hr])⟩
    | none =>
      cases hp : p.packet? with
      | none =>
        obtain ⟨hburst, hpulls⟩ := fillBurst_of_dry count hslot hask hr hp
        rw [hburst, hpulls]
        exact ⟨[slot.data], _, _, _, rfl, hasked, .stop h₁ harea hp (by simp [hr]) fun _ => rfl⟩
      | some packet =>
        obtain ⟨hburst, hpulls⟩ := fillBurst_of_packet count hslot hask hr hp
        have hlen := h.length_reservation
        have hrest : (f.reservation.take offset ++
            p.fill slot :: f.reservation.drop (offset + 1)).drop (offset + 1) =
              f.reservation.drop (offset + 1) := by
          simp [List.drop_append, Nat.min_eq_left (by omega : offset ≤ f.reservation.length)]
        have hcap : (r.replaceReserved offset (p.fill slot)).capacity = r.capacity :=
          PacketRing.modifyAt_capacity _ _ _ r
        obtain ⟨areas, answer, r', s', hburst', hasked', hfilled⟩ := ih h₁ (hcap.symm ▸ ha)
          (show offset + 1 + count = len by omega) (fun slot' hm => hcleared slot' (by
            rw [hdrop]
            exact List.mem_cons_of_mem _ (hrest ▸ hm))) s₁
        rw [hburst, hpulls, hburst']
        refine ⟨slot.data :: areas, answer, r', s', rfl, ?_,
          .cons (by omega) hfilled harea hr hp (Pull.packet_fill hclear hp)⟩
        rw [askEach, hask]
        exact congrArg (fun row : List Pull × σ => (p :: row.1, row.2)) hasked'

def payloadBytes (packets : List Packet) : Nat :=
  (packets.map fun p => p.data.length).sum

theorem Holds.put (h : Holds q len r c f) (hd : q.channel.id.direction = .tx)
    (hw : q.channel.window = some len) (ha : PacketRing.Addresses r.capacity bound)
    (hb : c.head + len ≤ bound) {count : Nat} (hc : count ≤ len) :
    ∃ r', q.put count r = (.ok (), q.ended count
        (payloadBytes ((f.reservation.take count).map Slot.packet)), r') ∧
      r'.Shows { c with head := c.head + count } { f with
        queue := f.queue ++ (f.reservation.take count).map Slot.packet
        reservation := [] } := by
  have hres := h.reserved_eq
  have hlends : q.Lends len r := ⟨h.bound, hw, by rw [hd]; exact hres⟩
  have hbytes : q.byteCount count r =
      payloadBytes ((f.reservation.take count).map Slot.packet) := by
    rw [Queue.byteCount, payloadBytes, List.map_map]
    refine congrArg List.sum (List.ext_getElem? fun k => ?_)
    by_cases hk : k < count
    · have hslot := h.shows.getElem?_slotAt_head ha (by omega) (by omega : k < r.reserved)
      simp [hk, hslot, Queue.entry, hd]
    · simp [hk]
  refine ⟨_, by rw [hlends.put h.shows.fits hc, hbytes], ?_⟩
  rw [Channel.closeWindow, hd]
  exact h.shows.publish (by omega)

structure Steady (w : TxWorker σ) (r : PacketRing) (c : PacketRing.Counts) (f : Fifo) : Prop where
  ready : w.queue.Ready
  direction_eq : w.queue.channel.id.direction = .tx
  shows : r.Shows c f
  reservation_eq : f.reservation = []

variable {w w' w'' : TxWorker σ} {packets packets' : List Packet}

def grant (w : TxWorker σ) (r : PacketRing) : Nat :=
  (r.reserve w.batchSize).1

def burstPulls (w : TxWorker σ) (r : PacketRing) : List Pull :=
  match w.queue.acquire w.batchSize r with
  | (.ok len, queue, r) => pulls len queue len 0 r w.source
  | _ => []

def lent (w : TxWorker σ) (r : PacketRing) : TxWorker σ :=
  { w with polls := w.polls + 1, queue := w.queue.lent w.batchSize (w.grant r) }

def served (w : TxWorker σ) (r : PacketRing) (packets : List Packet) : Queue :=
  (w.lent r).queue.ended packets.length (payloadBytes packets)

section Ready

variable (hq : w.queue.Ready) (hd : w.queue.channel.id.direction = .tx) (r : PacketRing)

include hq hd

omit [PacketSource σ] in
theorem acquire_of_ready :
    w.queue.acquire w.batchSize r = (.ok (w.grant r), w.queue.lent w.batchSize (w.grant r),
      (r.reserve w.batchSize).2) := by
  rw [Queue.acquire_ready hq, Channel.openWindow, hd]
  rfl

theorem burst_of_ready :
    w.burst r = if w.grant r = 0 then (w.lent r).rest (r.reserve w.batchSize).2
      else (w.lent r).send (w.grant r) (r.reserve w.batchSize).2 := by
  rw [TxWorker.burst]
  simp only [acquire_of_ready hq hd, lent]
  cases w.grant r <;> rfl

end Ready

structure Sent (w w' : TxWorker σ) (packets : List Packet) : Prop where
  sent_eq : w'.sent = w.sent + packets.length
  packets_eq : w'.queue.stats.packets = w.queue.stats.packets + packets.length
  bytes_eq : w'.queue.stats.bytes = w.queue.stats.bytes + payloadBytes packets
  acquires_eq : w'.queue.stats.acquires + w.polls = w.queue.stats.acquires + w'.polls
  releases_eq : w'.queue.stats.releases + w.polls = w.queue.stats.releases + w'.polls
  quota : packets.length + w.roundsDone * w.batchSize ≤ w'.roundsDone * w.batchSize
  roundsDone_le : w.roundsDone ≤ w.rounds → w'.roundsDone ≤ w.rounds
  batchSize_eq : w'.batchSize = w.batchSize
  rounds_eq : w'.rounds = w.rounds
  id_eq : w'.queue.id = w.queue.id

omit [PacketSource σ] in
theorem Sent.refl (w : TxWorker σ) : w.Sent w [] := by
  constructor <;> simp [payloadBytes]

omit [PacketSource σ] in
theorem Sent.trans (h : w.Sent w' packets) (h' : w'.Sent w'' packets') :
    w.Sent w'' (packets ++ packets') := by
  have ha := h.acquires_eq
  have ha' := h'.acquires_eq
  have hl := h.releases_eq
  have hl' := h'.releases_eq
  have hq := h.quota
  have hq' := h'.quota
  rw [h.batchSize_eq] at hq'
  refine ⟨?_, ?_, ?_, by omega, by omega, ?_, fun hle => ?_, h'.batchSize_eq.trans h.batchSize_eq,
    h'.rounds_eq.trans h.rounds_eq, h'.id_eq.trans h.id_eq⟩
  · rw [h'.sent_eq, h.sent_eq, List.length_append, Nat.add_assoc]
  · rw [h'.packets_eq, h.packets_eq, List.length_append, Nat.add_assoc]
  · rw [h'.bytes_eq, h.bytes_eq, payloadBytes, payloadBytes, payloadBytes, List.map_append,
      List.sum_append_nat, Nat.add_assoc]
  · rw [List.length_append]
    omega
  · exact h.rounds_eq ▸ h'.roundsDone_le (h.rounds_eq.symm ▸ h.roundsDone_le hle)

/-- What became of the questions of one poll. The packets that were pulled are sent, all of them or,
when an answer of the source cannot be used, none. -/
structure Worked (w : TxWorker σ) (c : PacketRing.Counts) (f : Fifo) (granted : Nat)
    (ps : List Pull) (packets : List Packet) (answer : Except (Halt WorkerError) Poll)
    (w' : TxWorker σ) (r' : PacketRing) : Prop where
  asked : ∃ areas, askEach areas w.source = (ps, w'.source)
  length_le : ps.length ≤ granted
  length_area : ∀ p ∈ ps, p.area.length = f.dataSize
  sent : w.Sent w' packets
  steady : ∃ c', c'.head = c.head + packets.length ∧
    w'.Steady r' c' { f with queue := f.queue ++ packets, reservation := [] }
  error_eq : ∀ p ∈ ps, ∀ e, p.refusal? w.queue.id = some e →
    answer = .error e ∧ packets = [] ∧ w'.polls = w.polls + 1
  ok_eq : (∀ p ∈ ps, p.refusal? w.queue.id = none) →
    (∃ poll, answer = .ok poll) ∧ packets = ps.filterMap Pull.packet?

namespace Steady

omit [PacketSource σ] in
theorem acquire (h : w.Steady r c f) :
    w.queue.acquire w.batchSize r = (.ok (w.grant r), w.queue.lent w.batchSize (w.grant r),
      (r.reserve w.batchSize).2) :=
  acquire_of_ready h.ready h.direction_eq r

theorem burstPulls_eq (h : w.Steady r c f) :
    w.burstPulls r = pulls (w.grant r) (w.queue.lent w.batchSize (w.grant r)) (w.grant r) 0
      (r.reserve w.batchSize).2 w.source := by
  rw [burstPulls, h.acquire]

omit [PacketSource σ] in
theorem holds (h : w.Steady r c f) (ha : PacketRing.Addresses r.capacity bound)
    (hb : c.head + w.grant r ≤ bound) :
    ∃ c' slots, c'.head = c.head ∧ (r.reserve w.batchSize).2.capacity = r.capacity ∧
      (∀ s ∈ slots, s.IsCleared ∧ s.Fits f.dataSize f.headerSize) ∧
      Holds (w.queue.lent w.batchSize (w.grant r)) (w.grant r) (r.reserve w.batchSize).2 c'
        { f with reservation := slots } := by
  obtain ⟨c', slots, hc, hlen, hslots, hs⟩ := h.shows.reserve w.batchSize ha hb
  exact ⟨c', slots, hc, r.capacity_reserve w.batchSize, hslots, h.ready.bound, hs,
    hs.length_reservation.symm.trans hlen⟩

theorem burst_eq (h : w.Steady r c f) :
    w.burst r = if w.grant r = 0 then (w.lent r).rest (r.reserve w.batchSize).2
      else (w.lent r).send (w.grant r) (r.reserve w.batchSize).2 :=
  burst_of_ready h.ready h.direction_eq r

omit [PacketSource σ] in
theorem of_served (h : w.Steady r c f) (hw : w'.queue = w.served r packets) {r' : PacketRing}
    {c' : PacketRing.Counts} {f' : Fifo} (hs : r'.Shows c' f') (hf : f'.reservation = []) :
    w'.Steady r' c' f' := by
  refine ⟨?_, ?_, hs, hf⟩
  · rw [hw]
    exact ⟨h.ready.started, h.ready.bound, rfl⟩
  · rw [hw]
    exact h.direction_eq

omit [PacketSource σ] in
theorem sent_nothing (w : TxWorker σ) (r : PacketRing) (source : σ) (backoff : Backoff) :
    w.Sent { w.lent r with queue := w.served r [], source, backoff } [] := by
  refine ⟨rfl, rfl, rfl, ?_, ?_, ?_, id, rfl, rfl, rfl⟩
  · exact Nat.add_right_comm _ _ _
  · exact Nat.add_right_comm _ _ _
  · exact (Nat.zero_add _).le

omit [PacketSource σ] in
theorem sent_packets (hlt : w.roundsDone < w.rounds) (hle : packets.length ≤ w.batchSize)
    (source : σ) (exhausted : Bool) (backoff : Backoff) :
    w.Sent { w.lent r with
      queue := w.served r packets
      source, exhausted, backoff
      sent := w.sent + packets.length
      roundsDone := w.roundsDone + 1 } packets := by
  refine ⟨rfl, rfl, rfl, ?_, ?_, ?_, fun _ => hlt, rfl, rfl, rfl⟩
  · exact Nat.add_right_comm _ _ _
  · exact Nat.add_right_comm _ _ _
  · rw [Nat.succ_mul, Nat.add_comm]
    exact Nat.add_le_add_left hle _

omit [PacketSource σ] in
theorem put (h : w.Steady r c f) {f' : Fifo} {c' : PacketRing.Counts} {r' : PacketRing}
    (packets : List Packet) (hholds : Holds (w.lent r).queue (w.grant r) r' c' f')
    (ha : PacketRing.Addresses r'.capacity bound) (hb : c'.head + w.grant r ≤ bound)
    (hle : packets.length ≤ w.grant r)
    (hp : (f'.reservation.take packets.length).map Slot.packet = packets) :
    ∃ r'', (w.lent r).queue.put packets.length r' = (.ok (), w.served r packets, r'') ∧
      r''.Shows { c' with head := c'.head + packets.length }
        { f' with queue := f'.queue ++ packets, reservation := [] } := by
  obtain ⟨r'', hput, hshow⟩ := hholds.put h.direction_eq rfl ha hb hle
  rw [hp] at hput hshow
  exact ⟨r'', hput, hshow⟩

end Steady

structure Asked (w : TxWorker σ) (r : PacketRing) (c : PacketRing.Counts) (f : Fifo)
    (answer : Except (Halt WorkerError) (Nat × Fill)) (r' : PacketRing) (s' : σ) : Prop where
  fill_eq : fillBurst (w.grant r) (w.lent r).queue (w.grant r) 0 (r.reserve w.batchSize).2
    w.source = (answer, r', s')
  asked : ∃ areas, askEach areas w.source = (w.burstPulls r, s')
  length_le : (w.burstPulls r).length ≤ w.grant r
  length_area : ∀ p ∈ w.burstPulls r, p.area.length = f.dataSize
  error_eq : ∀ p ∈ w.burstPulls r, ∀ e, p.refusal? w.queue.id = some e → answer = .error e
  ok_eq : (∀ p ∈ w.burstPulls r, p.refusal? w.queue.id = none) →
    ∃ fill, answer = .ok (((w.burstPulls r).filterMap Pull.packet?).length, fill)
  put : ∀ packets, packets <+: (w.burstPulls r).filterMap Pull.packet? →
    ∃ r'' c', (w.lent r).queue.put packets.length r' = (.ok (), w.served r packets, r'') ∧
      c'.head = c.head + packets.length ∧
      r''.Shows c' { f with queue := f.queue ++ packets, reservation := [] }

theorem Steady.asked (h : w.Steady r c f) (ha : PacketRing.Addresses r.capacity bound)
    (hb : c.head + w.grant r ≤ bound) : ∃ answer r' s', w.Asked r c f answer r' s' := by
  obtain ⟨c', slots, hc, hcap, hslots, hholds⟩ := h.holds ha hb
  obtain ⟨areas, answer, r', s', hburst, hasked, hfilled⟩ := hholds.fillBurst (hcap.symm ▸ ha)
    (hc.symm ▸ hb) (Nat.zero_add _) (by simpa using hslots) w.source
  rw [← h.burstPulls_eq] at hasked hfilled
  obtain ⟨slots', hholds', hprefix⟩ := hfilled.holds
  have hcap' : r'.capacity = r.capacity :=
    hholds'.shows.capacity_eq.symm.trans h.shows.capacity_eq
  refine ⟨answer, r', s', hburst, ⟨areas, hasked⟩, hfilled.length_le, hfilled.length_area,
    hfilled.error_eq, fun hall => ?_, fun packets hp => ?_⟩
  · obtain ⟨fill, hanswer⟩ := hfilled.ok_eq hall
    exact ⟨fill, by rw [hanswer, Nat.zero_add]⟩
  · have hle : packets.length ≤ w.grant r :=
      hp.length_le.trans ((List.length_filterMap_le _ _).trans hfilled.length_le)
    obtain ⟨r'', hput, hshow⟩ := h.put packets hholds' (hcap'.symm ▸ ha) (hc.symm ▸ hb) hle (by
      rw [List.map_take]
      exact (List.prefix_iff_eq_take.mp (hp.trans hprefix)).symm)
    exact ⟨r'', _, hput, congrArg (· + packets.length) hc, hshow⟩

namespace Asked

variable {answer : Except (Halt WorkerError) (Nat × Fill)} {r' : PacketRing} {s' : σ}

theorem nothing_pulled (h : w.Steady r c f) (ha : w.Asked r c f answer r' s')
    (hz : w.grant r = 0) :
    w.burstPulls r = [] ∧ r' = (r.reserve w.batchSize).2 ∧ s' = w.source := by
  have hfill := ha.fill_eq
  rw [hz] at hfill
  cases hfill
  exact ⟨by rw [h.burstPulls_eq, hz]; rfl, rfl, rfl⟩

theorem burst_of_full (h : w.Steady r c f) (ha : w.Asked r c f answer r' s')
    (hz : w.grant r = 0) :
    ∃ w' r'', w.burst r = (.ok .idle, w', r'') ∧
      w.Worked c f (w.grant r) (w.burstPulls r) [] (.ok .idle) w' r'' := by
  obtain ⟨hnil, rfl, rfl⟩ := ha.nothing_pulled h hz
  obtain ⟨r'', c', hput, hc, hshow⟩ := ha.put [] List.nil_prefix
  have hrelease : (w.lent r).queue.release 0 (r.reserve w.batchSize).2 =
    (.ok (), w.served r [], r'') := hput
  rw [h.burst_eq, if_pos hz, rest, hrelease]
  refine ⟨_, r'', rfl, ha.asked, ha.length_le, ha.length_area, Steady.sent_nothing w r w.source _,
    ⟨c', hc, h.of_served rfl hshow rfl⟩, ?_, ?_⟩
  · rw [hnil]
    exact fun _ hp => absurd hp List.not_mem_nil
  · rw [hnil]
    exact fun _ => ⟨⟨.idle, rfl⟩, rfl⟩

theorem burst_of_refused (h : w.Steady r c f) (ha : w.Asked r c f answer r' s')
    (hz : w.grant r ≠ 0) {p : Pull} (hp : p ∈ w.burstPulls r) {e : Halt WorkerError}
    (he : p.refusal? w.queue.id = some e) :
    ∃ w' r'', w.burst r = (.error e, w', r'') ∧
      w.Worked c f (w.grant r) (w.burstPulls r) [] (.error e) w' r'' := by
  obtain ⟨r'', c', hput, hc, hshow⟩ := ha.put [] List.nil_prefix
  have habandon : (w.lent r).queue.abandon (w.grant r) r' = (.ok (), w.served r [], r'') := by
    rw [Queue.abandon, show (w.lent r).queue.channel.id.direction = .tx from h.direction_eq]
    exact hput
  rw [h.burst_eq, if_neg hz, send, show fillBurst _ _ _ _ _ (w.lent r).source = _ from ha.fill_eq,
    ha.error_eq p hp e he]
  simp only [habandon]
  refine ⟨_, r'', rfl, ha.asked, ha.length_le, ha.length_area,
    Steady.sent_nothing w r s' w.backoff, ⟨c', hc, h.of_served rfl hshow rfl⟩, ?_, ?_⟩
  · intro p' hp' e' he'
    have hsame := (ha.error_eq p hp e he).symm.trans (ha.error_eq p' hp' e' he')
    exact ⟨congrArg _ (Except.error.inj hsame), rfl, rfl⟩
  · intro hall
    rw [hall p hp] at he
    cases he

theorem burst_of_usable (h : w.Steady r c f) (ha : w.Asked r c f answer r' s')
    (hz : w.grant r ≠ 0) (hlt : w.roundsDone < w.rounds)
    (hgood : ∀ p ∈ w.burstPulls r, p.refusal? w.queue.id = none) :
    ∃ poll w' r'', w.burst r = (.ok poll, w', r'') ∧
      w.Worked c f (w.grant r) (w.burstPulls r) ((w.burstPulls r).filterMap Pull.packet?)
        (.ok poll) w' r'' := by
  obtain ⟨fill, hanswer⟩ := ha.ok_eq hgood
  obtain ⟨r'', c', hput, hc, hshow⟩ := ha.put _ List.prefix_rfl
  have hle : ((w.burstPulls r).filterMap Pull.packet?).length ≤ w.grant r :=
    (List.length_filterMap_le _ _).trans ha.length_le
  have hbatch : w.grant r ≤ w.batchSize :=
    (h.shows.granted w.batchSize).trans_le (Nat.min_le_right _ _)
  rw [h.burst_eq, if_neg hz, send, show fillBurst _ _ _ _ _ (w.lent r).source = _ from ha.fill_eq,
    hanswer]
  simp only [Queue.commit, if_pos hle, hput]
  refine ⟨_, _, r'', rfl, ha.asked, ha.length_le, ha.length_area,
    Steady.sent_packets hlt (hle.trans hbatch) s' _ _, ⟨c', hc, h.of_served rfl hshow rfl⟩, ?_,
    fun _ => ⟨⟨_, rfl⟩, rfl⟩⟩
  intro p hp e he
  rw [hgood p hp] at he
  cases he

end Asked

theorem Steady.burst (h : w.Steady r c f) (ha : PacketRing.Addresses r.capacity bound)
    (hb : c.head + w.grant r ≤ bound) (hlt : w.roundsDone < w.rounds) :
    ∃ packets answer w' r', w.burst r = (answer, w', r') ∧
      w.Worked c f (w.grant r) (w.burstPulls r) packets answer w' r' := by
  obtain ⟨_, _, _, hasked⟩ := h.asked ha hb
  by_cases hz : w.grant r = 0
  · obtain ⟨w', r', hburst, hworked⟩ := hasked.burst_of_full h hz
    exact ⟨_, _, w', r', hburst, hworked⟩
  · by_cases hbad : ∃ p ∈ w.burstPulls r, ∃ e, p.refusal? w.queue.id = some e
    · obtain ⟨p, hp, e, he⟩ := hbad
      obtain ⟨w', r', hburst, hworked⟩ := hasked.burst_of_refused h hz hp he
      exact ⟨_, _, w', r', hburst, hworked⟩
    · have hgood : ∀ p ∈ w.burstPulls r, p.refusal? w.queue.id = none := by
        simpa [Option.eq_none_iff_forall_ne_some] using hbad
      obtain ⟨poll, w', r', hburst, hworked⟩ := hasked.burst_of_usable h hz hlt hgood
      exact ⟨_, _, w', r', hburst, hworked⟩

end TxWorker

end DmaBurst
