import DmaBurst.Proofs.Contract.Calls

namespace DmaBurst

variable {card : Card} {r : PacketRing} {c : Channel}

namespace Channel

def Agrees (c : Channel) (r : PacketRing) : Prop :=
  ∀ n, c.bound = true → c.window = some n → r.windowOf c.id.direction = n

theorem get_refused (h : ¬ (c.bound = true ∧ c.window = none)) (max : Nat) (r : PacketRing) :
    ∃ f, c.get max r = (.error f, c, r) := by
  rw [get]
  cases hw : c.window with
  | some n => exact ⟨_, rfl⟩
  | none =>
    have hb : c.bound = false := Bool.eq_false_iff.mpr fun hb => h ⟨hb, hw⟩
    rw [hb]
    exact ⟨_, rfl⟩

def Puts (c : Channel) (count n : Nat) : Prop :=
  c.bound = true ∧ c.window = some n ∧ (c.id.direction = .tx → count ≤ n)

theorem put_ready {count n : Nat} (h : c.Puts count n) (ha : c.Agrees r) :
    c.put count r = (.ok (), { c with window := none }, c.closeWindow count r) := by
  obtain ⟨hb, hw, hc⟩ := h
  have hn := ha n hb hw
  cases hd : c.id.direction with
  | rx =>
    rw [hd, PacketRing.windowOf] at hn
    simp [put, hw, settle, hd, hb, PacketRing.retire, hn, closeWindow]
  | tx =>
    rw [hd, PacketRing.windowOf] at hn
    have hcount := hc hd
    simp [put, hw, settle, hd, hb, PacketRing.publish, hn, closeWindow, hcount,
      Nat.not_lt.mpr hcount]

/-- A burst that cannot be put back is lost to the channel. The ring keeps its window. -/
theorem put_refused {count : Nat} (h : ¬ ∃ n, c.Puts count n) (r : PacketRing) :
    ∃ f, c.put count r = (.error f, { c with window := none }, r) := by
  rw [put]
  cases hw : c.window with
  | none =>
    have hc : { c with window := none } = c := by rw [← hw]
    exact ⟨_, by rw [hc]⟩
  | some n =>
    have hsettle : ∃ f, settle count n { c with window := none } r = .error f := by
      rw [settle]
      cases hd : c.id.direction with
      | rx =>
        have hb : c.bound = false := Bool.eq_false_iff.mpr fun hb =>
          h ⟨n, hb, hw, fun hn => by simp [hd] at hn⟩
        exact ⟨_, by simp [hb]; rfl⟩
      | tx =>
        by_cases hc : n < count
        · exact ⟨_, by simp [hc]; rfl⟩
        · have hb : c.bound = false := Bool.eq_false_iff.mpr fun hb =>
            h ⟨n, hb, hw, fun _ => Nat.not_lt.mp hc⟩
          exact ⟨_, by simp [hc, hb]; rfl⟩
    obtain ⟨f, hf⟩ := hsettle
    exact ⟨f, by simp only [hf]⟩

end Channel

namespace ChannelCall

def answer : ChannelCall → Channel → Card → Except Fault Nat
  | .get max, c, card => (card.withRing c.id fun r => ((c.get max r).1, (c.get max r).2.2)).1
  | call, c, card => (call.run c card).1.map fun _ => 0

def isClose : ChannelCall → Bool
  | .close => true
  | _ => false

/-- The entry that a call looks at. Packets are seen on receive queues, slots on transmit queues. -/
def looksAt : Direction → ChannelCall → Option Nat
  | .rx, .packet offset | .tx, .slot offset | .tx, .edit offset _ => some offset
  | _, _ => none

/-- The burst that a channel has after a call: one that is put is given up, even where that
fails. -/
def keptAfter : ChannelCall → Except Fault Nat → Option Nat → Option Nat
  | .get _, .ok n, _ => some n
  | .put _, _, _ => none
  | _, _, kept => kept

/-- The window of the ring after a call. Only a burst that is put with success ends it. -/
def shownAfter : ChannelCall → Except Fault Nat → Nat → Nat
  | .get _, .ok n, _ => n
  | .put _, .ok _, _ => 0
  | _, _, shown => shown

/-- The burst that is outstanding after a call: it is acquired, and ends when it is put with success
or when the channel is closed. -/
def outstandingAfter : ChannelCall → Except Fault Nat → Option Nat → Option Nat
  | .get _, .ok n, _ => some n
  | .put _, .ok _, _ => none
  | .close, _, _ => none
  | _, _, outstanding => outstanding

structure Does (call : ChannelCall) (c : Channel) (card : Card) (r : PacketRing) : Prop where
  id_eq : (call.run c card).2.1.id = c.id
  bound_eq : (call.run c card).2.1.bound = (c.bound && !call.isClose)
  window_eq : (call.run c card).2.1.window = call.keptAfter (call.answer c card) c.window
  isOk_answer : (call.answer c card).isOk = (call.run c card).1.isOk
  ring : ∃ r', (call.run c card).2.2.ring? c.id = some r' ∧
    r'.windowOf c.id.direction = call.shownAfter (call.answer c card) (r.windowOf c.id.direction)
  isBound_eq : (c.bound && call.isClose) = false →
    (call.run c card).2.2.isBound c.id = card.isBound c.id

variable {call : ChannelCall}

theorem Does.of_onRing {a : Except Fault Unit} {w : Option Nat} {r' : PacketRing}
    (hr : card.ring? c.id = some r)
    (hrun : call.run c card = (a, { c with window := w }, card.setRing c.id r'))
    (hclose : call.isClose = false) (hok : (call.answer c card).isOk = a.isOk)
    (hwindow : w = call.keptAfter (call.answer c card) c.window)
    (hshown : r'.windowOf c.id.direction =
      call.shownAfter (call.answer c card) (r.windowOf c.id.direction)) :
    call.Does c card r where
  id_eq := by rw [hrun]
  bound_eq := by rw [hrun, hclose, Bool.not_false, Bool.and_true]
  window_eq := by rw [hrun]; exact hwindow
  isOk_answer := by rw [hrun]; exact hok
  ring := by
    rw [hrun]
    exact ⟨r', (Card.ring?_setRing hr r').trans (if_pos rfl), hshown⟩
  isBound_eq _ := by rw [hrun]; exact Card.isBound_withRing _ _ _ _

theorem does_get (hr : card.ring? c.id = some r) (max : Nat) : (get max).Does c card r := by
  have hrun : (get max).run c card = ((c.get max r).1.map fun _ => (), (c.get max r).2.1,
      card.setRing c.id (c.get max r).2.2) := onRing_eq hr _
  have hanswer : (get max).answer c card = (c.get max r).1 := Card.withRing_fst hr _
  by_cases hready : c.bound = true ∧ c.window = none
  · rw [Channel.get_ready hready.2 hready.1] at hrun hanswer
    refine .of_onRing hr hrun rfl ?_ ?_ ?_ <;> rw [hanswer]
    · rfl
    · rfl
    · exact PacketRing.windowOf_openWindow c max r
  · obtain ⟨f, hf⟩ := Channel.get_refused hready max r
    rw [hf] at hrun hanswer
    refine .of_onRing hr hrun rfl ?_ ?_ ?_ <;> rw [hanswer] <;> rfl

theorem does_put (hr : card.ring? c.id = some r) (ha : c.Agrees r) (count : Nat) :
    (put count).Does c card r := by
  have hrun : (put count).run c card = ((c.put count r).1, (c.put count r).2.1,
      card.setRing c.id (c.put count r).2.2) := onRing_eq hr _
  have hanswer : (put count).answer c card = (c.put count r).1.map fun _ => 0 :=
    congrArg (fun out : Except Fault Unit × Channel × Card => out.1.map fun _ => 0) hrun
  by_cases hputs : ∃ n, c.Puts count n
  · obtain ⟨n, hn⟩ := hputs
    rw [Channel.put_ready hn ha] at hrun hanswer
    refine .of_onRing hr hrun rfl ?_ ?_ ?_ <;> rw [hanswer]
    · rfl
    · rfl
    · exact PacketRing.windowOf_closeWindow c count r
  · obtain ⟨f, hf⟩ := Channel.put_refused hputs r
    rw [hf] at hrun hanswer
    refine .of_onRing hr hrun rfl ?_ ?_ ?_ <;> rw [hanswer] <;> rfl

theorem isOk_map {α β : Type} (f : α → β) (x : Except Fault α) : (x.map f).isOk = x.isOk := by
  cases x <;> rfl

theorem does_packet (hr : card.ring? c.id = some r) (offset : Nat) :
    (packet offset).Does c card r := by
  have hrun : (packet offset).run c card = ((c.packet offset r).map fun _ => (), c,
      card.setRing c.id r) := onRing_eq hr _
  exact .of_onRing hr hrun rfl ((isOk_map _ _).trans (by rw [hrun])) rfl rfl

theorem does_slot (hr : card.ring? c.id = some r) (offset : Nat) :
    (slot offset).Does c card r := by
  have hrun : (slot offset).run c card = ((c.slot offset r).map fun _ => (), c,
      card.setRing c.id r) := onRing_eq hr _
  exact .of_onRing hr hrun rfl ((isOk_map _ _).trans (by rw [hrun])) rfl rfl

theorem windowOf_editSlot (offset : Nat) (f : Slot → Slot) (c : Channel) (r : PacketRing)
    (direction : Direction) :
    ((c.editSlot offset f r).toOption.getD r).windowOf direction = r.windowOf direction := by
  rw [Channel.editSlot]
  split
  · rw [PacketRing.editReserved]
    split
    · cases direction <;> rfl
    · rfl
  · rfl

theorem does_edit (hr : card.ring? c.id = some r) (offset : Nat) (change : SlotEdit) :
    (edit offset change).Does c card r := by
  have hrun : (edit offset change).run c card = ((c.editSlot offset change.apply r).map fun _ => (),
      c, card.setRing c.id ((c.editSlot offset change.apply r).toOption.getD r)) := onRing_eq hr _
  exact .of_onRing hr hrun rfl ((isOk_map _ _).trans (by rw [hrun])) rfl
    (windowOf_editSlot _ _ _ _ _)

theorem does_start (hr : card.ring? c.id = some r) : start.Does c card r := by
  have hrun : start.run c card = (.ok (), { c with started := c.started }, card) ∨
      start.run c card =
        (.ok (), { c with started := true }, card.record (.queueStarted c.id)) := by
    rw [run, Channel.start]
    by_cases href : c.id ∈ card.spec.refusesStart
    · rw [if_pos href]
      exact .inl rfl
    · rw [if_neg href]
      exact .inr rfl
  rcases hrun with hrun | hrun <;>
    refine ⟨by rw [hrun], by rw [hrun]; simp [isClose], by rw [hrun]; rfl,
      (isOk_map _ _).trans (by rw [hrun]), ?_, fun _ => ?_⟩ <;> rw [hrun]
  · exact ⟨r, hr, rfl⟩
  · exact ⟨r, (Card.ring?_record _ _ _).trans hr, rfl⟩
  · exact Card.isBound_record _ _ _

theorem ring?_stop (c : Channel) (card : Card) (q : QueueId) :
    (c.stop card).2.ring? q = card.ring? q := by
  rw [Channel.stop_eq]
  dsimp only
  split
  · exact Card.ring?_record _ _ _
  · rfl

theorem isBound_stop (c : Channel) (card : Card) (q : QueueId) :
    (c.stop card).2.isBound q = card.isBound q := by
  rw [Channel.stop_eq]
  dsimp only
  split
  · exact Card.isBound_record _ _ _
  · rfl

theorem does_stop (hr : card.ring? c.id = some r) : stop.Does c card r := by
  have hchannel : (stop.run c card).2.1 = { c with started := false } := by
    rw [run, Channel.stop_eq]
  refine ⟨by rw [hchannel], by rw [hchannel]; simp [isClose], by rw [hchannel]; rfl, rfl,
    ⟨r, (ring?_stop c card c.id).trans hr, rfl⟩, fun _ => isBound_stop c card c.id⟩

theorem does_close (hr : card.ring? c.id = some r) : close.Does c card r := by
  have hrun : close.run c card = (.ok (), c.close card) := rfl
  rw [Channel.close_eq] at hrun
  refine ⟨by rw [hrun], by rw [hrun]; simp [isClose], by rw [hrun]; rfl, rfl, ?_, fun hb => ?_⟩
  · refine ⟨r, ?_, rfl⟩
    rw [hrun]
    dsimp only
    split
    · rw [Card.ring?_record, Card.ring?_setBound, ring?_stop, hr]
    · rw [ring?_stop, hr]
  · have hb : c.bound = false := by simpa [isClose] using hb
    rw [hrun, hb]
    exact isBound_stop c card c.id

theorem does (call : ChannelCall) (hr : card.ring? c.id = some r) (ha : c.Agrees r) :
    call.Does c card r := by
  cases call with
  | start => exact does_start hr
  | stop => exact does_stop hr
  | close => exact does_close hr
  | get max => exact does_get hr max
  | packet offset => exact does_packet hr offset
  | slot offset => exact does_slot hr offset
  | edit offset change => exact does_edit hr offset change
  | put count => exact does_put hr ha count

theorem isOk_get (hr : card.ring? c.id = some r) (max : Nat) :
    ((get max).run c card).1.isOk = true ↔ c.bound = true ∧ c.window = none := by
  rw [← (does_get hr max).isOk_answer, show (get max).answer c card = (c.get max r).1 from
    Card.withRing_fst hr _]
  by_cases hready : c.bound = true ∧ c.window = none
  · rw [Channel.get_ready hready.2 hready.1]
    exact iff_of_true rfl hready
  · obtain ⟨f, hf⟩ := Channel.get_refused hready max r
    rw [hf]
    exact iff_of_false Bool.false_ne_true hready

theorem isOk_put (hr : card.ring? c.id = some r) (ha : c.Agrees r) (count : Nat) :
    ((put count).run c card).1.isOk = true ↔ ∃ n, c.Puts count n := by
  have hrun : ((put count).run c card).1 = (c.put count r).1 := congrArg Prod.fst (onRing_eq hr _)
  rw [hrun]
  by_cases hputs : ∃ n, c.Puts count n
  · obtain ⟨n, hn⟩ := hputs
    rw [Channel.put_ready hn ha]
    exact iff_of_true rfl ⟨n, hn⟩
  · obtain ⟨f, hf⟩ := Channel.put_refused hputs r
    rw [hf]
    exact iff_of_false Bool.false_ne_true hputs

theorem isOk_look (hr : card.ring? c.id = some r) {call : ChannelCall} {offset : Nat}
    (h : call.looksAt c.id.direction = some offset) :
    (call.run c card).1.isOk = true ↔ c.bound = true ∧ offset < r.windowOf c.id.direction := by
  have hrun : (call.run c card).1.isOk =
      (decide (c.bound = true ∧ offset < r.windowOf c.id.direction)) := by
    cases hd : c.id.direction <;> rw [hd] at h <;> cases call <;> cases h <;>
      rw [run, onRing_eq hr, isOk_map]
    · rw [Channel.packet, PacketRing.exposedSlot, PacketRing.windowOf]
      cases c.bound <;> by_cases ho : offset < r.exposed <;> simp [ho, Except.isOk, Except.toBool]
    · rw [Channel.slot, PacketRing.reservedSlot, PacketRing.windowOf]
      cases c.bound <;> by_cases ho : offset < r.reserved <;> simp [ho, Except.isOk, Except.toBool]
    · rw [Channel.editSlot, PacketRing.editReserved, PacketRing.windowOf]
      cases c.bound <;> by_cases ho : offset < r.reserved <;> simp [ho, Except.isOk, Except.toBool]
  rw [hrun, decide_eq_true_iff]

end ChannelCall

end DmaBurst
