import DmaBurst.Proofs.Queue.Lifecycle
import DmaBurst.Run.Session

namespace DmaBurst

namespace Standing

def ofOpened (id : QueueId) : Standing :=
  ⟨.opened, id, true, false⟩

def ofStarted (id : QueueId) : Standing :=
  ⟨.started, id, true, true⟩

def stop (s : Standing) : Standing :=
  if s.state = .started then { s with state := .stopped, started := false } else s

def stopEvents (s : Standing) : List Event :=
  if s.state = .started ∧ s.started then [.queueStopped s.id] else []

def closeEvents (s : Standing) : List Event :=
  if s.state = .closed then []
  else
    s.stopEvents ++ (if s.stop.started then [.queueStopped s.id] else []) ++
      if s.bound then [.queueClosed s.id] else []

end Standing

namespace Card

variable {α : Type}

@[simp] theorem journal_withRing (q : QueueId) (f : PacketRing → α × PacketRing) (card : Card) :
    (card.withRing q f).2.journal = card.journal :=
  congrArg Array.toList (withLine_frame q _ card).2.1

@[simp] theorem journal_setBound (q : QueueId) (bound : Bool) (card : Card) :
    (card.setBound q bound).journal = card.journal :=
  congrArg Array.toList (withLine_frame q _ card).2.1

end Card

theorem Channel.close_journal (c : Channel) (card : Card) :
    (c.close card).2.journal = card.journal ++ ((if c.started then [.queueStopped c.id] else []) ++
      if c.bound then [.queueClosed c.id] else []) := by
  rw [close_eq, stop_eq]
  cases c.started <;> cases c.bound <;> simp [Card.journal_record]

namespace Queue

theorem stop_standing (q : Queue) (card : Card) :
    (q.stop card).1.standing = q.standing.stop ∧
      (q.stop card).2.journal = card.journal ++ q.standing.stopEvents := by
  rw [stop_eq, Channel.stop_eq, Standing.stop, Standing.stopEvents]
  by_cases h : q.state = .started
  · cases hs : q.channel.started <;> simp [standing, h, hs, Card.journal_record]
  · simp [standing, h]

theorem close_journal (q : Queue) (card : Card) :
    (q.close card).2.journal = card.journal ++ q.standing.closeEvents := by
  obtain ⟨hstop, hjournal⟩ := q.stop_standing card
  have hchannel := (sameRings_stop q card).2.2
  have hs : (q.stop card).1.channel.started = q.standing.stop.started := by
    rw [← hstop]
    rfl
  have hid : (q.stop card).1.channel.id = q.standing.id := by rw [hchannel]; rfl
  have hbound : (q.stop card).1.channel.bound = q.standing.bound := by rw [hchannel]; rfl
  rw [close_eq, Standing.closeEvents]
  by_cases h : q.state = .closed
  · have h' : q.standing.state = .closed := h
    rw [if_pos h, if_pos h', List.append_nil]
  · have h' : ¬ q.standing.state = .closed := h
    rw [if_neg h, if_neg h', Channel.close_journal, hjournal, hs, hid, hbound]
    simp only [List.append_assoc]

end Queue

namespace Session

theorem stopAll_standing (qs : List Queue) (card : Card) :
    (stopAll qs card).1.map Queue.standing = (qs.map Queue.standing).map Standing.stop ∧
      (stopAll qs card).2.journal =
        card.journal ++ (qs.map Queue.standing).reverse.flatMap Standing.stopEvents := by
  induction qs with
  | nil => exact ⟨rfl, (List.append_nil _).symm⟩
  | cons q qs ih =>
    obtain ⟨hs, hj⟩ := ih
    obtain ⟨hs', hj'⟩ := q.stop_standing (stopAll qs card).2
    refine ⟨?_, ?_⟩
    · simp only [stopAll, List.map_cons, hs, hs']
    · simp only [stopAll, hj', hj, List.map_cons, List.reverse_cons, List.flatMap_append,
        List.flatMap_cons, List.flatMap_nil, List.append_nil, List.append_assoc]

theorem closeAll_journal (qs : List Queue) (card : Card) :
    (closeAll qs card).journal =
      card.journal ++ (qs.map Queue.standing).reverse.flatMap Standing.closeEvents := by
  induction qs with
  | nil => exact (List.append_nil _).symm
  | cons q qs ih =>
    rw [closeAll, Queue.close_journal, ih, List.map_cons, List.reverse_cons, List.flatMap_append,
      List.flatMap_singleton, List.append_assoc]

theorem teardown_journal (s : Session) (card : Card) :
    (s.teardown card).journal = card.journal ++
      ((s.queues.map Queue.standing).reverse.flatMap Standing.stopEvents ++
        ((s.queues.map Queue.standing).map Standing.stop).reverse.flatMap Standing.closeEvents ++
        (s.component.toList.map fun c => .componentClosed c.offset) ++ [.deviceClosed]) := by
  obtain ⟨hs, hj⟩ := stopAll_standing s.queues card
  have hclose := closeAll_journal (stopAll s.queues card).1 (stopAll s.queues card).2
  rw [hs, hj] at hclose
  have hdevice : ∀ card : Card, card.closeDevice.journal = card.journal ++ [.deviceClosed] :=
    fun card => Card.journal_record .deviceClosed card
  rw [teardown]
  simp only [hdevice]
  cases s.component with
  | none => simp [hclose]
  | some c => simp [Card.closeComponent, Card.journal_record, hclose]

end Session

end DmaBurst
