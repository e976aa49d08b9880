import DmaBurst.Proofs.Delivery.Handle

namespace DmaBurst

namespace Fifo

/-- What a burst has in view: the packets that are exposed, or the slots that are reserved. -/
def held (direction : Direction) (f : Fifo) : List Packet :=
  match direction with
  | .rx => f.queue.take f.exposed
  | .tx => f.reservation.map Slot.packet

def sentBy (direction : Direction) (count : Nat) (f : Fifo) : List Packet :=
  match direction with
  | .rx => []
  | .tx => (f.held .tx).take count

def receivedBy (direction : Direction) (f : Fifo) : List Packet :=
  match direction with
  | .rx => f.held .rx
  | .tx => []

/-- A burst that ends takes its packets out of a receive queue, or leaves its first `count` slots in
a transmit queue. -/
def settle (direction : Direction) (count : Nat) (f : Fifo) : Fifo :=
  match direction with
  | .rx => { f with queue := f.queue.drop f.exposed, exposed := 0 }
  | .tx => { f with queue := f.queue ++ f.sentBy .tx count, reservation := [] }

/-- One queue becomes the other when `entered` is put in at its end and `left` is taken out at its
front. -/
structure Moves (f f' : Fifo) (entered left : List Packet) : Prop where
  capacity_eq : f'.capacity = f.capacity
  dataSize_eq : f'.dataSize = f.dataSize
  headerSize_eq : f'.headerSize = f.headerSize
  queue_eq : f.queue ++ entered = left ++ f'.queue

namespace Moves

variable {f f' f'' : Fifo} {entered left entered' left' : List Packet}

theorem refl (f : Fifo) : f.Moves f [] [] :=
  ⟨rfl, rfl, rfl, List.append_nil _⟩

theorem trans (h : f.Moves f' entered left) (h' : f'.Moves f'' entered' left') :
    f.Moves f'' (entered ++ entered') (left ++ left') := by
  refine ⟨h'.capacity_eq.trans h.capacity_eq, h'.dataSize_eq.trans h.dataSize_eq,
    h'.headerSize_eq.trans h.headerSize_eq, ?_⟩
  rw [← List.append_assoc, h.queue_eq, List.append_assoc, h'.queue_eq, List.append_assoc]

end Moves

theorem settle_moves (direction : Direction) (count : Nat) (f : Fifo) :
    f.Moves (f.settle direction count) (f.sentBy direction count) (f.receivedBy direction) := by
  cases direction with
  | rx => exact ⟨rfl, rfl, rfl, (List.append_nil _).trans (List.take_append_drop _ _).symm⟩
  | tx => exact ⟨rfl, rfl, rfl, rfl⟩

end Fifo

namespace PacketRing

variable {r : PacketRing} {c : Counts} {f : Fifo} {bound len count : Nat} {q : Queue}

theorem Shows.length_held (h : r.Shows c f) (direction : Direction) :
    (f.held direction).length = r.windowOf direction := by
  cases direction with
  | rx =>
    have := h.exposed_le
    rw [Fifo.held, List.length_take, h.exposed_eq, windowOf]
    omega
  | tx => rw [Fifo.held, List.length_map, h.length_reservation, windowOf]

theorem Shows.getElem?_held (h : r.Shows c f) (ha : Addresses r.capacity bound)
    (hb : c.head + r.reserved ≤ bound) {k : Nat} (hk : k < r.windowOf q.channel.id.direction) :
    (f.held q.channel.id.direction)[k]? = some (q.entry k r).packet := by
  cases hd : q.channel.id.direction <;> rw [hd, windowOf] at hk
  · have hq := Nat.lt_of_lt_of_le hk h.exposed_le
    rw [Fifo.held, List.getElem?_take_of_lt (by rwa [h.exposed_eq]),
      h.getElem?_slotAt_tail ha (by omega) hq, Queue.entry, hd]
  · rw [Fifo.held, List.getElem?_map, h.getElem?_slotAt_head ha hb hk, Queue.entry, hd]
    rfl

theorem Shows.closeWindow (h : r.Shows c f) (hl : q.Lends len r) (hc : count ≤ len) :
    ∃ c', (q.channel.closeWindow count r).Shows c' (f.settle q.channel.id.direction count) ∧
      c'.head = c.head + (f.sentBy q.channel.id.direction count).length := by
  have hlen := h.length_held .tx
  have hw := hl.windowOf_eq
  cases hd : q.channel.id.direction <;> rw [hd, windowOf] at hw
  · refine ⟨{ c with tail := c.tail + r.exposed }, ?_, rfl⟩
    have hs := h.retire (Nat.le_refl r.exposed)
    rw [Channel.closeWindow, hd]
    simpa [Fifo.settle, h.exposed_eq] using hs
  · rw [windowOf] at hlen
    refine ⟨{ c with head := c.head + count }, ?_, ?_⟩
    · have hs := h.publish (hc.trans_eq hw.symm)
      rw [Channel.closeWindow, hd]
      simpa [Fifo.settle, Fifo.sentBy, Fifo.held, List.map_take] using hs
    · rw [Fifo.sentBy, List.length_take_of_le (by omega)]

end PacketRing

namespace Handle

open PacketRing

variable {h : Handle} {q : Queue} {card : Card} {r : PacketRing} {c : Counts} {f : Fifo}
  {bound len count : Nat}

/-- A handle whose burst, if it holds one, is the window of its ring. -/
structure Holds (h : Handle) (card : Card) (r : PacketRing) (c : Counts) (f : Fifo) : Prop where
  ring : card.ring? h.queue.channel.id = some r
  pictured : r.Shows c f
  coherent : h.Coherent
  window : ∀ len, h.burst = some len → r.windowOf h.queue.channel.id.direction = len

theorem Holds.lends (h : Holds ⟨q, some len⟩ card r c f) : q.Lends len r := by
  have hs : q.state = .started := h.coherent.started rfl
  exact ⟨h.coherent.bound_iff.mpr (by simp [hs]), h.coherent.window_eq, h.window len rfl⟩

theorem Holds.view_eq (h : Holds ⟨q, some len⟩ card r c f) (ha : Addresses r.capacity bound)
    (hb : c.head + r.reserved ≤ bound) (hc : count ≤ len) :
    view count ⟨q, some len⟩ card = (f.held q.channel.id.direction).take count := by
  have hl := h.lends
  have hw := hl.windowOf_eq
  have hview : view count ⟨q, some len⟩ card =
      (List.range count).map fun k => (q.entry k r).packet := by
    simp only [view, h.ring]
    clear hb ha
    induction count with
    | zero => rfl
    | succ count ih =>
      rw [List.range_succ, List.filterMap_append, List.map_append, ih (Nat.le_of_succ_le hc)]
      simp [hl.visible (Nat.lt_of_succ_le hc), Except.toOption]
  rw [hview]
  refine List.ext_getElem? fun k => ?_
  by_cases hk : k < count
  · rw [List.getElem?_take_of_lt hk, h.pictured.getElem?_held ha hb (by omega)]
    simp [hk]
  · rw [List.getElem?_eq_none (by simp; omega), List.getElem?_eq_none (by simp; omega)]

theorem Holds.of_sameRings {h' : Handle} {card' : Card} (hh : h.Holds card r c f)
    (hs : card.SameRings card') (hid : h'.queue.channel.id = h.queue.channel.id)
    (hn : h'.burst = none) (hc : h'.Coherent) : h'.Holds card' r c f := by
  refine ⟨?_, hh.pictured, hc, fun len hl => by cases hn.symm.trans hl⟩
  rw [hid, hs.2]
  exact hh.ring

theorem Holds.ring?_acquire (h : Holds ⟨q, none⟩ card r c f) (hready : q.Ready) (max : Nat) :
    (act (.acquire max) ⟨q, none⟩ card).2.ring? q.channel.id =
      some (q.channel.openWindow max r).2 := by
  rw [act_acquire, Card.ring?_withRing, if_pos rfl, h.ring, Option.map_some, acquireOn,
    Queue.acquire_ready hready]

def Follows (op : HandleOp) (h : Handle) (card : Card) (c : Counts) (f : Fifo) : Prop :=
  ∃ r' c' f', (h.act op card).1.Holds (h.act op card).2 r' c' f' ∧
    f.Moves f' (h.sent op card) (h.received op card) ∧
    c'.head = c.head + (h.sent op card).length

theorem Follows.of_eq {op : HandleOp} {h' : Handle} {card' : Card} {r' : PacketRing} {c' : Counts}
    {f' : Fifo} {entered left : List Packet} (hact : h.act op card = (h', card'))
    (hsent : h.sent op card = entered) (hreceived : h.received op card = left)
    (hh : h'.Holds card' r' c' f') (hm : f.Moves f' entered left)
    (hc : c'.head = c.head + entered.length) : Follows op h card c f := by
  refine ⟨r', c', f', ?_, ?_, ?_⟩
  · rw [hact]
    exact hh
  · rw [hsent, hreceived]
    exact hm
  · rw [hsent]
    exact hc

theorem Holds.openWindow (h : Holds ⟨q, none⟩ card r c f) (hready : q.Ready) (max : Nat)
    (ha : Addresses r.capacity bound)
    (hb : c.head + (q.channel.openWindow max r).2.reserved ≤ bound) :
    Follows (.acquire max) ⟨q, none⟩ card c f := by
  have hfst : (act (.acquire max) ⟨q, none⟩ card).1 =
      ⟨q.lent max (q.channel.openWindow max r).1, some (q.channel.openWindow max r).1⟩ := by
    rw [act_acquire, Card.withRing_fst h.ring, acquireOn, Queue.acquire_ready hready]
    rfl
  have hshows : ∃ c' f', f.Moves f' [] [] ∧ c'.head = c.head ∧
      (q.channel.openWindow max r).2.Shows c' f' ∧
      (q.channel.openWindow max r).2.windowOf q.channel.id.direction =
        (q.channel.openWindow max r).1 := by
    cases hd : q.channel.id.direction <;> simp only [Channel.openWindow, hd] at hb ⊢
    · obtain ⟨-, c', hc, -, hs⟩ := h.pictured.peek max
      refine ⟨c', { f with exposed := _ }, ?_, hc, hs, hs.exposed_eq.symm⟩
      exact ⟨rfl, rfl, rfl, List.append_nil _⟩
    · obtain ⟨c', slots, hc, hlen, -, hs⟩ := h.pictured.reserve max ha hb
      refine ⟨c', { f with reservation := slots }, ?_, hc, hs, rfl⟩
      exact ⟨rfl, rfl, rfl, List.append_nil _⟩
  obtain ⟨c', f', hm, hc, hs, hw⟩ := hshows
  refine .of_eq (Prod.ext hfst rfl) (sent_of_none q _ card) (received_of_none q _ card)
    ⟨h.ring?_acquire hready max, hs, ?_, fun len hl => ?_⟩ hm hc
  · exact ⟨rfl, h.coherent.bound_iff, fun _ => hready.started⟩
  · cases hl
    exact hw

theorem Holds.stays {op : HandleOp} (h : Holds ⟨q, some len⟩ card r c f)
    (hact : act op ⟨q, some len⟩ card = (⟨q, some len⟩, card))
    (hsent : sent op ⟨q, some len⟩ card = []) (hreceived : received op ⟨q, some len⟩ card = []) :
    Follows op ⟨q, some len⟩ card c f :=
  .of_eq hact hsent hreceived h (.refl f) rfl

theorem Holds.ends {F : Queue → PacketRing → Except Fault Unit × Queue × PacketRing}
    {op : HandleOp} (h : Holds ⟨q, some len⟩ card r c f) (hc : count ≤ len)
    (hF : (F q r).2 =
      (q.ended count (q.byteCount count r), q.channel.closeWindow count r))
    (hact : act op ⟨q, some len⟩ card = Handle.finish F q card)
    (hsent : sent op ⟨q, some len⟩ card = f.sentBy q.channel.id.direction count)
    (hreceived : received op ⟨q, some len⟩ card = f.receivedBy q.channel.id.direction) :
    Follows op ⟨q, some len⟩ card c f := by
  obtain ⟨c', hs, hc'⟩ := h.pictured.closeWindow h.lends hc
  have hfst : (Handle.finish F q card).1 = ⟨q.ended count (q.byteCount count r), none⟩ := by
    have := Card.withRing_fst h.ring fun r => (F q r).2
    rw [hF] at this
    exact congrArg (Handle.mk · none) this
  refine .of_eq (hact.trans (Prod.ext hfst rfl)) hsent hreceived
    ⟨?_, hs, ⟨rfl, h.coherent.bound_iff, fun hn => by cases hn⟩, fun len hlen => by cases hlen⟩
    (f.settle_moves _ _) hc'
  refine (card.ring?_withRing q.channel.id q.channel.id fun r => (F q r).2).trans ?_
  rw [if_pos rfl, h.ring, Option.map_some, hF]

theorem Holds.view_full (h : Holds ⟨q, some len⟩ card r c f) (ha : Addresses r.capacity bound)
    (hb : c.head + r.reserved ≤ bound) :
    view len ⟨q, some len⟩ card = f.held q.channel.id.direction := by
  have hlen : (f.held q.channel.id.direction).length = len :=
    (h.pictured.length_held _).trans h.lends.windowOf_eq
  rw [h.view_eq ha hb (Nat.le_refl len), ← hlen, List.take_length]

theorem Holds.put (h : Holds ⟨q, some len⟩ card r c f) (hc : count ≤ len) :
    (q.put count r).2 = (q.ended count (q.byteCount count r), q.channel.closeWindow count r) :=
  congrArg (·.2) (h.lends.put h.pictured.fits hc)

theorem Holds.edit (h : Holds ⟨q, some len⟩ card r c f) (ha : Addresses r.capacity bound)
    (hb : c.head + r.reserved ≤ bound) (offset : Nat) (change : SlotEdit) :
    Follows (.edit offset change) ⟨q, some len⟩ card c f := by
  have hl := h.lends
  have hsent : sent (.edit offset change) ⟨q, some len⟩ card = [] := by
    cases hd : q.channel.id.direction <;> simp [sent, hd]
  have hreceived : received (.edit offset change) ⟨q, some len⟩ card = [] := by
    cases hd : q.channel.id.direction <;> simp [received, hd]
  cases hd : q.channel.id.direction with
  | rx => exact h.stays (by rw [act, if_neg (by simp [hd])]) hsent hreceived
  | tx =>
    have hw := hl.windowOf_eq
    rw [hd, windowOf] at hw
    have hedit : ∃ r' f', f.Moves f' [] [] ∧
        (q.editSlot len offset change.apply r).toOption.getD r = r' ∧ r'.Shows c f' ∧
        r'.reserved = r.reserved := by
      rw [Queue.editSlot]
      by_cases ho : offset < len
      · have hk : offset < r.reserved := by omega
        refine ⟨r.modifyAt r.head offset change.apply,
          { f with reservation := f.reservation.modify offset change.apply },
          ⟨rfl, rfl, rfl, List.append_nil _⟩, ?_,
          h.pictured.edit ha hb hk (fun s hs => hs.edit change), rfl⟩
        rw [if_pos ho, Channel.editSlot, if_pos hl.bound, editReserved, if_pos hk]
        rfl
      · refine ⟨r, f, .refl f, ?_, h.pictured, rfl⟩
        rw [if_neg ho]
        rfl
    obtain ⟨r', f', hm, hr, hs, hres⟩ := hedit
    refine .of_eq (by rw [act, if_pos hd]) hsent hreceived
      ⟨?_, hs, ⟨h.coherent.window_eq, h.coherent.bound_iff, h.coherent.started⟩,
        fun len' hlen => ?_⟩ hm rfl
    · rw [Card.ring?_withRing, if_pos rfl, h.ring, Option.map_some, hr]
    · cases hlen
      rw [hd, windowOf, hres, hw]

theorem Holds.release (h : Holds ⟨q, some len⟩ card r c f) (ha : Addresses r.capacity bound)
    (hb : c.head + r.reserved ≤ bound) : Follows .release ⟨q, some len⟩ card c f := by
  refine h.ends (F := Queue.release len) (Nat.le_refl len) (h.put (Nat.le_refl len)) rfl ?_ ?_
  · have hview := h.view_eq ha hb (Nat.le_refl len)
    cases hd : q.channel.id.direction <;> rw [hd] at hview <;>
      simp [sent, hd, Fifo.sentBy, hview]
  · have hview := h.view_full ha hb
    cases hd : q.channel.id.direction <;> rw [hd] at hview <;>
      simp [received, hd, Fifo.receivedBy, hview]

theorem Holds.commit (h : Holds ⟨q, some len⟩ card r c f) (ha : Addresses r.capacity bound)
    (hb : c.head + r.reserved ≤ bound) (count : Nat) :
    Follows (.commit count) ⟨q, some len⟩ card c f := by
  cases hd : q.channel.id.direction with
  | rx =>
    refine h.stays ?_ ?_ ?_
    · rw [act, if_neg (by simp [hd])]
    · simp [sent, hd]
    · simp [received, hd]
  | tx =>
    have hact : act (.commit count) ⟨q, some len⟩ card =
        Handle.finish (Queue.commit len count) q card := by
      rw [act, if_pos hd]
    have hreceived : received (.commit count) ⟨q, some len⟩ card =
        f.receivedBy q.channel.id.direction := by
      simp [received, hd, Fifo.receivedBy]
    by_cases hc : count ≤ len
    · have hview := h.view_eq ha hb hc
      rw [hd] at hview
      refine h.ends hc ?_ hact ?_ hreceived
      · rw [Queue.commit, if_pos hc]
        exact h.put hc
      · simp [sent, hd, hc, Fifo.sentBy, hview]
    · refine h.ends (Nat.zero_le len) ?_ hact ?_ hreceived
      · rw [Queue.commit, if_neg hc]
        exact h.put (Nat.zero_le len)
      · simp [sent, hd, hc, Fifo.sentBy]

theorem Holds.abandon (h : Holds ⟨q, some len⟩ card r c f) (ha : Addresses r.capacity bound)
    (hb : c.head + r.reserved ≤ bound) : Follows .abandon ⟨q, some len⟩ card c f := by
  have hview := h.view_full ha hb
  cases hd : q.channel.id.direction with
  | rx =>
    rw [hd] at hview
    refine h.ends (F := Queue.abandon len) (Nat.le_refl len) ?_ rfl ?_ ?_
    · rw [Queue.abandon, hd]
      exact h.put (Nat.le_refl len)
    · simp [sent, hd, Fifo.sentBy]
    · simp [received, hd, Fifo.receivedBy, hview]
  | tx =>
    refine h.ends (F := Queue.abandon len) (Nat.zero_le len) ?_ rfl ?_ ?_
    · rw [Queue.abandon, hd]
      exact h.put (Nat.zero_le len)
    · simp [sent, hd, Fifo.sentBy]
    · simp [received, hd, Fifo.receivedBy]

theorem Holds.act_burst (h : Holds ⟨q, some len⟩ card r c f) (op : HandleOp)
    (ha : Addresses r.capacity bound) (hb : c.head + r.reserved ≤ bound) :
    Follows op ⟨q, some len⟩ card c f := by
  cases op with
  | edit offset change => exact h.edit ha hb offset change
  | release => exact h.release ha hb
  | commit count => exact h.commit ha hb count
  | abandon => exact h.abandon ha hb
  | start | stop | close | acquire =>
    refine h.stays rfl ?_ ?_
    · cases hd : q.channel.id.direction <;> simp [sent, hd]
    · cases hd : q.channel.id.direction <;> simp [received, hd]

theorem Holds.keeps {op : HandleOp} (hh : Holds ⟨q, none⟩ card r c f)
    (hs : card.SameRings (act op ⟨q, none⟩ card).2)
    (hn : (act op ⟨q, none⟩ card).1.burst = none) (hc : (act op ⟨q, none⟩ card).1.Coherent) :
    Follows op ⟨q, none⟩ card c f :=
  .of_eq rfl (sent_of_none q op card) (received_of_none q op card)
    (hh.of_sameRings hs (act_id op ⟨q, none⟩ card) hn hc) (.refl f) rfl

theorem Holds.start (hh : Holds ⟨q, none⟩ card r c f) : Follows .start ⟨q, none⟩ card c f := by
  cases hs : q.start card with
  | ok started =>
    obtain ⟨q', card'⟩ := started
    have hact : Handle.act .start ⟨q, none⟩ card = (⟨q', none⟩, card') := by
      rw [Handle.act, hs]
    have hcoh := hh.coherent.start hs
    obtain ⟨-, -, rfl⟩ := Queue.start_eq hs
    exact hh.keeps (by rw [hact]; exact .record _ _) (by rw [hact]) (by rw [hact]; exact hcoh)
  | error e =>
    have hact : Handle.act .start ⟨q, none⟩ card = (⟨q, none⟩, card) := by
      rw [Handle.act, hs]
    exact hh.keeps (by rw [hact]; exact .refl card) (by rw [hact])
      (by rw [hact]; exact hh.coherent)

/-- One operation on a handle: what it sends enters the queue, and what it receives has left it. -/
theorem Holds.act (hh : h.Holds card r c f) (op : HandleOp) (ha : Addresses r.capacity bound)
    (hb : c.head + r.reserved ≤ bound) (hbound : h.queue.channel.bound = true)
    (hn : ∀ r', (h.act op card).2.ring? h.queue.channel.id = some r' →
      c.head + r'.reserved ≤ bound) : Follows op h card c f := by
  obtain ⟨q, _ | len⟩ := h
  · cases op with
    | start => exact hh.start
    | stop => exact hh.keeps (Queue.sameRings_stop q card).1 rfl (hh.coherent.stop card)
    | close => exact hh.keeps (Queue.sameRings_close q card).1 rfl (hh.coherent.close card)
    | acquire max =>
      by_cases hs : q.state = .started
      · have hready : q.Ready := ⟨hs, hbound, hh.coherent.window_eq⟩
        exact hh.openWindow hready max ha (hn _ (hh.ring?_acquire hready max))
      · obtain ⟨hq, hr, -⟩ := act_acquire_refused hs max card
        exact hh.keeps hr (by rw [hq]) (by rw [hq]; exact hh.coherent)
    | edit | release | commit | abandon => exact hh.keeps (.refl card) rfl hh.coherent
  · exact hh.act_burst op ha hb

end Handle

end DmaBurst
