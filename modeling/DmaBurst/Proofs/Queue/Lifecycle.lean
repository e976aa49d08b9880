import DmaBurst.Proofs.Card.Lines
import DmaBurst.Queue.Burst

namespace DmaBurst

/-- Where a queue stands in its lifecycle, whatever it has moved. -/
structure Standing where
  state : QueueState
  id : QueueId
  bound : Bool
  started : Bool
  deriving DecidableEq

def Queue.standing (q : Queue) : Standing :=
  ⟨q.state, q.channel.id, q.channel.bound, q.channel.started⟩

namespace Channel

variable (c : Channel) (card : Card) (r : PacketRing)

theorem stop_eq :
    c.stop card = ({ c with started := false },
      if c.started then card.record (.queueStopped c.id) else card) := by
  obtain ⟨id, bound, started, window⟩ := c
  cases started <;> rfl

theorem close_eq :
    c.close card = ({ c with started := false, bound := false },
      if c.bound then
        ((c.stop card).2.setBound c.id false).record (.queueClosed c.id)
      else (c.stop card).2) := by
  obtain ⟨id, bound, started, window⟩ := c
  cases bound <;> cases started <;> rfl

theorem get_frame (max : Nat) :
    (c.get max r).2.1 = { c with window := (c.get max r).2.1.window } := by
  rw [get]
  split
  · rfl
  · split <;> rfl

theorem put_frame (count : Nat) :
    (c.put count r).2.1 = { c with window := (c.put count r).2.1.window } := by
  rw [put]
  split
  · rfl
  · dsimp only
    split <;> rfl

end Channel

theorem Card.openDevice_eq {identifier : String} {card card' : Card}
    (h : card.openDevice identifier = .ok card') :
    identifier = card.spec.identifier ∧ card.deviceOpen = false ∧
      card' = { card with deviceOpen := true }.record .deviceOpened := by
  rw [openDevice] at h
  split at h
  · cases h
  · next hi =>
    split at h
    · cases h
    · next ho =>
      cases h
      exact ⟨Decidable.not_not.mp hi, Bool.eq_false_iff.mpr ho, rfl⟩

/-- The rings and the build of the card are as they were; its journal and its bindings may have
changed. -/
def Card.SameRings (card card' : Card) : Prop :=
  card'.spec = card.spec ∧ ∀ q, card'.ring? q = card.ring? q

namespace Card.SameRings

variable {card card' card'' : Card}

theorem refl (card : Card) : card.SameRings card :=
  ⟨rfl, fun _ => rfl⟩

theorem trans (h : card.SameRings card') (h' : card'.SameRings card'') : card.SameRings card'' :=
  ⟨h'.1.trans h.1, fun q => (h'.2 q).trans (h.2 q)⟩

theorem record (e : Event) (card : Card) : card.SameRings (card.record e) :=
  ⟨rfl, ring?_record e card⟩

theorem setBound (q : QueueId) (bound : Bool) (card : Card) :
    card.SameRings (card.setBound q bound) :=
  ⟨spec_setBound q bound card, fun p => ring?_setBound q p bound card⟩

theorem openDevice (identifier : String) (card : Card) :
    card.SameRings ((card.openDevice identifier).toOption.getD card) ∧
      ∀ q, ((card.openDevice identifier).toOption.getD card).isBound q = card.isBound q := by
  rw [Card.openDevice]
  split
  · exact ⟨refl card, fun _ => rfl⟩
  · split
    · exact ⟨refl card, fun _ => rfl⟩
    · exact ⟨record .deviceOpened card, Card.isBound_record .deviceOpened card⟩

theorem closeDevice (card : Card) :
    card.SameRings card.closeDevice ∧ ∀ q, card.closeDevice.isBound q = card.isBound q :=
  ⟨record .deviceClosed card, Card.isBound_record .deviceClosed card⟩

end Card.SameRings

namespace Queue

variable {q q' : Queue} {card card' : Card} {r : PacketRing}

theorem standing_of_channel (hs : q'.state = q.state) {window : Option Nat}
    (hc : q'.channel = { q.channel with window }) : q'.standing = q.standing := by
  rw [standing, standing, hs, hc]

theorem acquire_standing (max : Nat) : (q.acquire max r).2.1.standing = q.standing := by
  rw [acquire]
  split
  · have hf := q.channel.get_frame r max
    split
    · next hg =>
      rw [hg] at hf
      exact standing_of_channel rfl hf
    · next hg =>
      rw [hg] at hf
      exact standing_of_channel rfl hf
  · rfl

theorem id_acquire (max : Nat) : (q.acquire max r).2.1.id = q.id := by
  rw [acquire]
  split
  · split <;> rfl
  · rfl

theorem put_standing (count : Nat) : (q.put count r).2.1.standing = q.standing := by
  rw [put]
  split
  · rfl
  · have hf := q.channel.put_frame r count
    split
    · next hp =>
      rw [hp] at hf
      exact standing_of_channel rfl hf
    · next hp =>
      rw [hp] at hf
      exact standing_of_channel rfl hf

theorem id_put (count : Nat) : (q.put count r).2.1.id = q.id := by
  rw [put]
  split
  · rfl
  · split <;> rfl

theorem release_standing (len : Nat) : (q.release len r).2.1.standing = q.standing :=
  put_standing len

theorem abandon_standing (len : Nat) : (q.abandon len r).2.1.standing = q.standing := by
  rw [abandon]
  split <;> exact put_standing _

theorem commit_standing (len count : Nat) : (q.commit len count r).2.1.standing = q.standing := by
  rw [commit]
  split <;> exact put_standing _

theorem start_eq (h : q.start card = .ok (q', card')) :
    (q.state = .opened ∨ q.state = .stopped) ∧
      q' = { q with state := .started, channel := { q.channel with started := true } } ∧
      card' = card.record (.queueStarted q.channel.id) := by
  rw [start] at h
  split at h
  · next hs =>
    rw [Channel.start] at h
    split at h
    · next heq =>
      split at heq
      · cases heq
      · cases heq
        cases h
        exact ⟨hs, rfl, rfl⟩
    · cases h
  · cases h

theorem stop_eq :
    q.stop card =
      if q.state = .started then
        ({ q with state := .stopped, channel := (q.channel.stop card).1 }, (q.channel.stop card).2)
      else (q, card) := rfl

theorem close_eq :
    q.close card =
      if q.state = .closed then (q, card)
      else
        ({ (q.stop card).1 with
            state := .closed
            channel := ((q.stop card).1.channel.close (q.stop card).2).1 },
          ((q.stop card).1.channel.close (q.stop card).2).2) := rfl

theorem sameRings_stop (q : Queue) (card : Card) :
    card.SameRings (q.stop card).2 ∧ (∀ p, (q.stop card).2.isBound p = card.isBound p) ∧
      (q.stop card).1.channel = { q.channel with started := (q.stop card).1.channel.started } := by
  rw [stop_eq, Channel.stop_eq]
  by_cases h : q.state = .started
  · rw [if_pos h]
    cases hs : q.channel.started with
    | true => exact ⟨.record _ _, fun p => Card.isBound_record _ _ p, rfl⟩
    | false => exact ⟨.refl _, fun _ => rfl, rfl⟩
  · rw [if_neg h]
    exact ⟨.refl _, fun _ => rfl, rfl⟩

end Queue

theorem Channel.sameRings_close (c : Channel) (card : Card) :
    card.SameRings (c.close card).2 ∧
      ∀ p, p ≠ c.id → (c.close card).2.isBound p = card.isBound p := by
  have hstop : card.SameRings (c.stop card).2 ∧
      ∀ p, (c.stop card).2.isBound p = card.isBound p := by
    rw [stop_eq]
    cases c.started with
    | true => exact ⟨.record _ _, fun p => Card.isBound_record _ _ p⟩
    | false => exact ⟨.refl _, fun _ => rfl⟩
  rw [close_eq]
  cases c.bound with
  | true =>
    refine ⟨(hstop.1.trans (.setBound _ _ _)).trans (.record _ _), fun p hp => ?_⟩
    simp only [if_true, Card.isBound_record, Card.isBound_setBound, if_neg (Ne.symm hp), hstop.2]
  | false => exact ⟨hstop.1, fun p _ => hstop.2 p⟩

namespace Queue

variable {q q' : Queue} {card card' : Card}

theorem sameRings_close (q : Queue) (card : Card) :
    card.SameRings (q.close card).2 ∧
      (∀ p, p ≠ q.channel.id → (q.close card).2.isBound p = card.isBound p) ∧
      (q.close card).1.state = .closed ∧ (q.close card).1.channel.id = q.channel.id ∧
      (q.close card).1.channel.window = q.channel.window ∧
      (q.state ≠ .closed → (q.close card).1.channel.bound = false) := by
  obtain ⟨hs, hb, hc⟩ := sameRings_stop q card
  obtain ⟨hs', hb'⟩ := (q.stop card).1.channel.sameRings_close (q.stop card).2
  rw [hc] at hs' hb'
  rw [close_eq]
  by_cases h : q.state = .closed
  · rw [if_pos h]
    exact ⟨.refl _, fun _ _ => rfl, h, rfl, rfl, fun hn => absurd h hn⟩
  · rw [if_neg h, hc, Channel.close_eq]
    rw [Channel.close_eq] at hs' hb'
    exact ⟨hs.trans hs', fun p hp => (hb' p hp).trans (hb p), rfl, rfl, rfl, fun _ => rfl⟩

theorem deviceOpen_stop (q : Queue) (card : Card) :
    (q.stop card).2.deviceOpen = card.deviceOpen := by
  rw [stop_eq, Channel.stop_eq]
  split
  · dsimp only
    split <;> rfl
  · rfl

theorem deviceOpen_close (q : Queue) (card : Card) :
    (q.close card).2.deviceOpen = card.deviceOpen := by
  have hchannel : ∀ (c : Channel) (card : Card), (c.close card).2.deviceOpen = card.deviceOpen := by
    intro c card
    rw [Channel.close_eq, Channel.stop_eq]
    cases c.bound <;> cases c.started <;> simp
  rw [close_eq]
  split
  · rfl
  · exact (hchannel _ _).trans (deviceOpen_stop q card)

theorem openOn_eq {id : QueueId} (h : openOn id card = .ok (q, card')) :
    card.bindRefusal id = none ∧ q = { id, channel := { id } } ∧
      card' = (card.setBound id true).record (.queueOpened id) := by
  rw [openOn, Card.bindChannel] at h
  cases hr : card.bindRefusal id with
  | some reason =>
    rw [hr] at h
    cases h
  | none =>
    rw [hr] at h
    cases h
    exact ⟨rfl, rfl, rfl⟩

theorem not_isBound_of_bindRefusal {id : QueueId} (h : card.bindRefusal id = none) :
    card.isBound id = false := by
  rw [Card.bindRefusal] at h
  split at h
  · cases h
  · split at h
    · cases h
    · split at h
      · cases h
      · next hb => simpa [Card.isBound] using hb

end Queue

end DmaBurst
