import DmaBurst.CommandLine.Emulation
import DmaBurst.Proofs.Card.Alike

namespace DmaBurst

inductive PortOp where
  | push (index : Nat) (data header : Bytes) (flags : UInt16)
  | pop (index : Nat)
  | drain (index : Nat)
  | takeEnd (q : QueueId)

namespace PortOp

def run : PortOp → Card → Card
  | .push index data header flags, card => (card.push ⟨.rx, index⟩ data header flags).2
  | .pop index, card => (card.pop ⟨.tx, index⟩).2
  | .drain index, card => (card.drain ⟨.tx, index⟩).2
  | .takeEnd q, card => (card.takeEnd q).getD card

def runAll (ops : List PortOp) (card : Card) : Card :=
  ops.foldl (fun card op => op.run card) card

theorem run_takeEnd (q : QueueId) (card : Card) :
    (PortOp.takeEnd q).run card = card ∨
      (PortOp.takeEnd q).run card =
        (card.withLine q fun line => ((), { line with endTaken := true })).2 := by
  rw [run, Card.takeEnd]
  cases hl : card.line? q with
  | none => exact .inl rfl
  | some line =>
    by_cases ht : line.endTaken
    · exact .inl (by simp [ht])
    · exact .inr (by simp [ht])

theorem journal_run (op : PortOp) (card : Card) : (op.run card).journal = card.journal := by
  have hline : ∀ {α : Type} (q : QueueId) (f : Line → α × Line),
      (card.withLine q f).2.journal = card.journal :=
    fun q f => congrArg Array.toList (Card.withLine_frame q f card).2.1
  cases op with
  | push index data header flags => exact hline _ _
  | pop index => exact hline _ _
  | drain index => exact hline _ _
  | takeEnd q =>
    rcases run_takeEnd q card with h | h
    · rw [h]
    · rw [h, hline]

theorem alike_run (op : PortOp) (card : Card) : card.Alike (op.run card) := by
  cases op with
  | push index data header flags => exact .withRing _ _ card
  | pop index => exact .withRing _ _ card
  | drain index => exact .withRing _ _ card
  | takeEnd q =>
    rcases run_takeEnd q card with h | h
    · rw [h]
      exact .refl card
    · rw [h]
      exact .withLine q (fun _ => rfl) card

theorem ring?_takeEnd (q p : QueueId) (card : Card) :
    ((PortOp.takeEnd q).run card).ring? p = card.ring? p := by
  rcases run_takeEnd q card with hc | hc
  · rw [hc]
  · rw [hc, Card.ring?, Card.line?_withLine]
    split
    · exact Option.map_map _ _ _
    · rfl

theorem idle_run (op : PortOp) {card : Card} (h : card.Idle) : (op.run card).Idle := by
  cases op with
  | push index data header flags => exact h.withRing _ fun _ hr => hr.push data header flags
  | pop index => exact h.withRing _ fun _ hr => hr.pop
  | drain index => exact h.withRing _ fun _ hr => hr.drain
  | takeEnd q => exact h.of_rings fun p => ring?_takeEnd q p card

theorem carries_run (op : PortOp) {card : Card} (h : card.Idle) {q : QueueId} {r : PacketRing}
    (hd : q.direction = .rx) (hr : card.ring? q = some r) :
    ∃ r', (op.run card).ring? q = some r' ∧ r.Carries .tx r' := by
  have hother : ∀ {α : Type} (index : Nat) (f : PacketRing → α × PacketRing),
      (card.withRing ⟨.tx, index⟩ f).2.ring? q = some r := by
    intro α index f
    rw [Card.ring?_withRing, if_neg (by rintro rfl; cases hd), hr]
  cases op with
  | push index data header flags =>
    rw [run, Card.push, Card.ring?_withRing]
    split
    · rw [hr]
      exact ⟨_, rfl, (h q r hr).carries_push data header flags⟩
    · exact ⟨r, hr, .refl .tx r⟩
  | pop index => exact ⟨r, hother index _, .refl .tx r⟩
  | drain index => exact ⟨r, hother index _, .refl .tx r⟩
  | takeEnd p => exact ⟨r, (ring?_takeEnd p q card).trans hr, .refl .tx r⟩

theorem carries_runAll (ops : List PortOp) {card : Card} (h : card.Idle) {q : QueueId}
    {r : PacketRing} (hd : q.direction = .rx) (hr : card.ring? q = some r) :
    ∃ r', (runAll ops card).ring? q = some r' ∧ r.Carries .tx r' := by
  induction ops generalizing card r with
  | nil => exact ⟨r, hr, .refl .tx r⟩
  | cons op ops ih =>
    obtain ⟨r', hr', hc⟩ := op.carries_run h hd hr
    obtain ⟨r'', hr'', hc'⟩ := ih (op.idle_run h) hr'
    exact ⟨r'', hr'', hc.trans hc'⟩

variable {C : Card → Prop}

theorem runAll_preserves (hop : ∀ (op : PortOp) {card : Card}, C card → C (op.run card))
    (ops : List PortOp) {card : Card} (h : C card) : C (runAll ops card) := by
  induction ops generalizing card with
  | nil => exact h
  | cons op ops ih => exact ih (hop op h)

end PortOp

/-- Hardware that works through the ends of its queues only. -/
class PortHardware (η : Type) [Hardware η] : Prop where
  act_eq : ∀ (h : η) (card : Card), ∃ ops, (Hardware.act h card).2 = PortOp.runAll ops card

instance : PortHardware Unit :=
  ⟨fun _ _ => ⟨[], rfl⟩⟩

namespace CommandLine

theorem Feed.deliver_eq (queue packetLen left delivered : Nat) (card : Card) :
    ∃ ops, (deliver queue packetLen left delivered card).2 = PortOp.runAll ops card := by
  induction left generalizing delivered card with
  | zero => exact ⟨[], rfl⟩
  | succ left ih =>
    have hpush : (card.push ⟨.rx, queue⟩ (payload queue packetLen delivered) [] 0).2 =
      (PortOp.push queue (payload queue packetLen delivered) [] 0).run card := rfl
    rw [deliver]
    split
    · next card' hc =>
      rw [hc] at hpush
      obtain ⟨ops, hops⟩ := ih (delivered + 1) card'
      refine ⟨.push queue (payload queue packetLen delivered) [] 0 :: ops, hops.trans ?_⟩
      exact congrArg (PortOp.runAll ops) hpush
    · next card' hc =>
      rw [hc] at hpush
      exact ⟨[.push queue (payload queue packetLen delivered) [] 0], hpush⟩

theorem Feed.actAll_eq (fs : List Feed) (card : Card) :
    ∃ ops, (actAll fs card).2 = PortOp.runAll ops card := by
  induction fs generalizing card with
  | nil => exact ⟨[], rfl⟩
  | cons f fs ih =>
    obtain ⟨ops, hops⟩ := deliver_eq f.queue f.packetLen f.left f.delivered card
    obtain ⟨ops', hops'⟩ := ih (f.act card).2
    refine ⟨ops ++ ops', hops'.trans ?_⟩
    rw [PortOp.runAll, PortOp.runAll, List.foldl_append]
    exact congrArg (PortOp.runAll ops') hops

instance : PortHardware (List Feed) :=
  ⟨Feed.actAll_eq⟩

theorem Drain.fold_eq (queues : Nat) (card : Card) : ∃ ops,
    queues.fold (fun index _ card => (card.drain ⟨.tx, index⟩).2) card =
      PortOp.runAll ops card := by
  induction queues with
  | zero => exact ⟨[], rfl⟩
  | succ queues ih =>
    obtain ⟨ops, hops⟩ := ih
    refine ⟨ops ++ [.drain queues], ?_⟩
    rw [Nat.fold_succ, hops, PortOp.runAll, PortOp.runAll, List.foldl_append]
    rfl

instance : PortHardware Drain :=
  ⟨fun d card => Drain.fold_eq d.queues card⟩

end CommandLine

theorem PortHardware.act_preserves {η : Type} [Hardware η] [PortHardware η] {C : Card → Prop}
    (hop : ∀ (op : PortOp) {card : Card}, C card → C (op.run card)) (h : η) {card : Card}
    (hc : C card) : C (Hardware.act h card).2 := by
  obtain ⟨ops, hops⟩ := act_eq h card
  rw [hops]
  exact PortOp.runAll_preserves hop ops hc

end DmaBurst
