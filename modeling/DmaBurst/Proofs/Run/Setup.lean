import DmaBurst.Proofs.Run.Teardown

namespace DmaBurst

namespace Event

def stopping? : Event → Option Event
  | .queueStarted q => some (.queueStopped q)
  | _ => none

def closing? : Event → Option Event
  | .queueOpened q => some (.queueClosed q)
  | _ => none

def componentClosing? : Event → Option Event
  | .componentOpened offset => some (.componentClosed offset)
  | _ => none

def deviceClosing? : Event → Option Event
  | .deviceOpened => some .deviceClosed
  | _ => none

/-- What gives back the acquisitions of a journal: the queues that were started are stopped and
those that were opened are closed, the last one first, then the component, then the device. -/
def undo (journal : List Event) : List Event :=
  journal.reverse.filterMap stopping? ++ journal.reverse.filterMap closing? ++
    journal.reverse.filterMap componentClosing? ++ journal.reverse.filterMap deviceClosing?

def acquired (component : Option Nat) (opened started : List QueueId) : List Event :=
  component.toList.map .componentOpened ++ opened.map .queueOpened ++ started.map .queueStarted

theorem undo_acquired (component : Option Nat) (opened started : List QueueId) :
    undo (.deviceOpened :: acquired component opened started) =
      started.reverse.map .queueStopped ++ opened.reverse.map .queueClosed ++
        component.toList.map .componentClosed ++ [.deviceClosed] := by
  have hnone : ∀ l : List QueueId, l.filterMap (fun _ => (none : Option Event)) = [] :=
    fun l => List.filterMap_eq_nil_iff.mpr fun _ _ => rfl
  cases component <;>
    simp [undo, acquired, List.filterMap_cons, List.filterMap_map, stopping?, closing?,
      componentClosing?, deviceClosing?, Function.comp_def, hnone]

theorem undo_append_registerWrite (journal : List Event) (offset : Nat) (addr value : UInt32) :
    undo (journal ++ [.registerWrite offset addr value]) = undo journal := by
  simp [undo, List.filterMap_cons, stopping?, closing?, componentClosing?, deviceClosing?]

end Event

namespace Standing

variable (id : QueueId)

theorem stopEvents_ofOpened : (ofOpened id).stopEvents = [] := rfl

theorem stopEvents_ofStarted : (ofStarted id).stopEvents = [.queueStopped id] := rfl

theorem closeEvents_stop_ofOpened : (ofOpened id).stop.closeEvents = [.queueClosed id] := rfl

theorem closeEvents_stop_ofStarted : (ofStarted id).stop.closeEvents = [.queueClosed id] := rfl

end Standing

namespace Queue

theorem openOn_standing {id : QueueId} {q : Queue} {card card' : Card}
    (h : openOn id card = .ok (q, card')) :
    q.standing = .ofOpened id ∧ card'.journal = card.journal ++ [.queueOpened id] := by
  obtain ⟨-, rfl, rfl⟩ := openOn_eq h
  exact ⟨rfl, by rw [Card.journal_record, Card.journal_setBound]⟩

theorem start_standing {id : QueueId} {q q' : Queue} {card card' : Card}
    (hq : q.standing = .ofOpened id) (h : q.start card = .ok (q', card')) :
    q'.standing = .ofStarted id ∧ card'.journal = card.journal ++ [.queueStarted id] := by
  obtain ⟨-, rfl, rfl⟩ := start_eq h
  have hid : q.channel.id = id := congrArg Standing.id hq
  have hbound : q.channel.bound = true := congrArg Standing.bound hq
  rw [Card.journal_record, standing, hid, hbound]
  exact ⟨rfl, rfl⟩

end Queue

namespace Session

theorem openQueues_standing (direction : Direction) (indices : List Nat) (s : Session)
    (card : Card) :
    ∃ opened, opened <+: indices.map (QueueId.mk direction) ∧
      (openQueues direction indices s card).2.1.component = s.component ∧
      (openQueues direction indices s card).2.1.queues.map Queue.standing =
        s.queues.map Queue.standing ++ opened.map .ofOpened ∧
      (openQueues direction indices s card).2.2.journal =
        card.journal ++ opened.map .queueOpened ∧
      ((openQueues direction indices s card).1 = .ok () →
        opened = indices.map (QueueId.mk direction)) := by
  induction indices generalizing s card with
  | nil => exact ⟨[], List.prefix_rfl, rfl, (List.append_nil _).symm, (List.append_nil _).symm,
      fun _ => rfl⟩
  | cons index rest ih =>
    rw [openQueues]
    cases hopen : Queue.openOn ⟨direction, index⟩ card with
    | error e =>
      exact ⟨[], List.nil_prefix, rfl, (List.append_nil _).symm, (List.append_nil _).symm,
        fun h => by cases h⟩
    | ok opened =>
      obtain ⟨q, card'⟩ := opened
      obtain ⟨hq, hj⟩ := Queue.openOn_standing hopen
      obtain ⟨opened, hpre, hcomp, hqs, hjs, hall⟩ :=
        ih { s with queues := s.queues ++ [q] } card'
      refine ⟨⟨direction, index⟩ :: opened, ?_, hcomp, ?_, ?_, fun hok => ?_⟩
      · exact (List.prefix_append_right_inj [QueueId.mk direction index]).mpr hpre
      · rw [hqs, List.map_append, List.map_singleton, hq, List.append_assoc]
        rfl
      · rw [hjs, hj, List.append_assoc]
        rfl
      · rw [hall hok]
        rfl

theorem startAll_standing {ids : List QueueId} {qs : List Queue} (card : Card)
    (h : qs.map Queue.standing = ids.map .ofOpened) :
    ∃ started rest, ids = started ++ rest ∧
      (startAll qs card).2.1.map Queue.standing =
        started.map .ofStarted ++ rest.map .ofOpened ∧
      (startAll qs card).2.2.journal = card.journal ++ started.map .queueStarted ∧
      ((startAll qs card).1 = .ok () → rest = []) := by
  induction qs generalizing ids card with
  | nil =>
    cases ids with
    | nil => exact ⟨[], [], rfl, rfl, (List.append_nil _).symm, fun _ => rfl⟩
    | cons id ids => cases h
  | cons q qs ih =>
    cases ids with
    | nil => cases h
    | cons id ids =>
      obtain ⟨hq, hqs⟩ := List.cons.inj h
      rw [startAll]
      cases hstart : q.start card with
      | error e =>
        exact ⟨[], id :: ids, rfl, h, (List.append_nil _).symm, fun h => by cases h⟩
      | ok begun =>
        obtain ⟨q', card'⟩ := begun
        obtain ⟨hq', hj⟩ := Queue.start_standing hq hstart
        obtain ⟨started, rest, hids, hst, hjs, hall⟩ := ih card' hqs
        refine ⟨id :: started, rest, congrArg (id :: ·) hids, ?_, ?_, hall⟩
        · simp only [List.map_cons, List.cons_append, hst, hq']
        · simp only [hjs, hj, List.append_assoc, List.map_cons, List.singleton_append]

theorem teardown_acquired {s : Session} {component : Option Nat} {started rest : List QueueId}
    (hc : s.component.map Component.offset = component)
    (hs : s.queues.map Queue.standing = started.map .ofStarted ++ rest.map .ofOpened)
    (card : Card) :
    (s.teardown card).journal = card.journal ++
      Event.undo (.deviceOpened :: Event.acquired component (started ++ rest) started) := by
  have hnone : ∀ l : List QueueId, (l.flatMap fun _ => ([] : List Event)) = [] :=
    fun l => List.flatMap_eq_nil_iff.mpr fun _ _ => rfl
  subst hc
  rw [teardown_journal, hs, Event.undo_acquired]
  simp only [List.map_append, List.reverse_append, List.flatMap_append, ← List.map_reverse,
    List.flatMap_map, Standing.stopEvents_ofOpened, Standing.stopEvents_ofStarted,
    Standing.closeEvents_stop_ofOpened, Standing.closeEvents_stop_ofStarted, hnone,
    ← List.map_eq_flatMap, List.nil_append]
  cases s.component <;> rfl

def queueIds (direction : Direction) (count : Nat) : List QueueId :=
  (List.range count).map (QueueId.mk direction)

def resetOffset (reset : Option ResetConfig) (card : Card) : Option Nat :=
  reset.map fun r => (card.findComponent r.compatible r.index).toOption.getD 0

def complete (direction : Direction) (count : Nat) (reset : Option ResetConfig) (card : Card) :
    List Event :=
  Event.acquired (resetOffset reset card) (queueIds direction count) (queueIds direction count)

theorem acquired_prefix_of_opened {component : Option Nat} {ids opened : List QueueId}
    (h : opened <+: ids) :
    Event.acquired component opened [] <+: Event.acquired component ids ids := by
  obtain ⟨rest, rfl⟩ := h
  simp [Event.acquired]

theorem acquired_prefix_of_started {component : Option Nat} {ids started : List QueueId}
    (h : started <+: ids) :
    Event.acquired component ids started <+: Event.acquired component ids ids := by
  obtain ⟨rest, rfl⟩ := h
  simp [Event.acquired]

theorem openComponent_standing {reset : ResetConfig} {s : Session} {card card' : Card}
    (h : openComponent reset {} card = .ok (s, card')) :
    s.queues = [] ∧
      s.component.map Component.offset = resetOffset (some reset) card ∧
      card'.journal =
        card.journal ++ (resetOffset (some reset) card).toList.map .componentOpened := by
  rw [openComponent] at h
  cases hf : card.findComponent reset.compatible reset.index with
  | error e =>
    rw [hf] at h
    cases h
  | ok offset =>
    have ho : resetOffset (some reset) card = some offset := by
      rw [resetOffset, Option.map_some, hf]
      rfl
    cases hopen : card.openComponent offset with
    | error e =>
      rw [hf] at h
      change (card.openComponent offset >>= _) = _ at h
      rw [hopen] at h
      cases h
    | ok opened =>
      obtain ⟨component, card₁⟩ := opened
      rw [hf] at h
      change (card.openComponent offset >>= _) = _ at h
      rw [hopen] at h
      cases h
      rw [Card.openComponent] at hopen
      split at hopen
      · cases hopen
        exact ⟨rfl, ho.symm, by rw [Card.journal_record, ho]; rfl⟩
      · cases hopen

theorem openReset_standing {reset : Option ResetConfig} {s : Session} {card card' : Card}
    (h : reset.elim (.ok ({}, card)) (fun reset => openComponent reset {} card) = .ok (s, card')) :
    s.queues = [] ∧
      s.component.map Component.offset = resetOffset reset card ∧
      card'.journal = card.journal ++ (resetOffset reset card).toList.map .componentOpened := by
  cases reset with
  | none =>
    cases h
    exact ⟨rfl, rfl, (List.append_nil _).symm⟩
  | some reset => exact openComponent_standing h

theorem acquire_standing (direction : Direction) (count : Nat) (reset : Option ResetConfig)
    (card : Card) :
    ∃ component started rest,
      Event.acquired component (started ++ rest) started <+: complete direction count reset card ∧
      (acquire direction count reset card).2.1.component.map Component.offset = component ∧
      (acquire direction count reset card).2.1.queues.map Queue.standing =
        started.map .ofStarted ++ rest.map .ofOpened ∧
      (acquire direction count reset card).2.2.journal =
        card.journal ++ Event.acquired component (started ++ rest) started ∧
      ((acquire direction count reset card).1 = .ok () →
        component = resetOffset reset card ∧ started = queueIds direction count ∧ rest = []) := by
  rw [acquire]
  cases hf : reset.elim (.ok ({}, card)) (fun reset => openComponent reset {} card) with
  | error e => exact ⟨none, [], [], List.nil_prefix, rfl, rfl, (List.append_nil _).symm,
      fun h => by cases h⟩
  | ok begun =>
    obtain ⟨s, card'⟩ := begun
    obtain ⟨hq, hc, hj⟩ := openReset_standing hf
    obtain ⟨opened, hpre, hcomp, hqs, hjs, hall⟩ :=
      openQueues_standing direction (List.range count) s card'
    rw [hq, List.map_nil, List.nil_append] at hqs
    rw [hj] at hjs
    rcases hopen : openQueues direction (List.range count) s card' with ⟨answer, s', card₁⟩
    simp only [hopen] at hcomp hqs hjs hall ⊢
    have hid : s'.component.map Component.offset = resetOffset reset card := by rw [hcomp, hc]
    cases answer with
    | error e =>
      refine ⟨resetOffset reset card, [], opened, acquired_prefix_of_opened hpre, hid, hqs, ?_,
        fun h => by cases h⟩
      rw [hjs, Event.acquired, List.append_assoc, List.nil_append, List.map_nil, List.append_nil]
    | ok done =>
      obtain ⟨started, rest, hids, hst, hjst, hallst⟩ := startAll_standing card₁ hqs
      rw [hall rfl] at hids hjs
      have hsplit : started ++ rest = queueIds direction count := hids.symm
      refine ⟨resetOffset reset card, started, rest, ?_, hid, hst, ?_, fun hok => ?_⟩
      · rw [hsplit]
        exact acquired_prefix_of_started ⟨rest, hsplit⟩
      · rw [hjst, hjs, hsplit]
        simp only [Event.acquired, List.append_assoc]
        rfl
      · have hrest : rest = [] := by
          cases hanswer : (startAll s'.queues card₁).1 with
          | ok done => exact hallst hanswer
          | error e =>
            change (startAll s'.queues card₁).1.mapError _ = _ at hok
            rw [hanswer] at hok
            cases hok
        rw [hrest, List.append_nil] at hsplit
        exact ⟨rfl, hsplit, hrest⟩

theorem openDevice_standing {device : String} {card card' : Card}
    (h : card.openDevice device = .ok card') :
    card'.spec = card.spec ∧ card'.journal = card.journal ++ [.deviceOpened] := by
  rw [Card.openDevice] at h
  split at h
  · cases h
  · split at h
    · cases h
    · cases h
      exact ⟨rfl, Card.journal_record .deviceOpened card⟩

theorem complete_congr {card card' : Card} (h : card'.spec = card.spec) (direction : Direction)
    (count : Nat) (reset : Option ResetConfig) :
    complete direction count reset card' = complete direction count reset card := by
  simp only [complete, resetOffset, Card.findComponent, Card.componentsLike, h]

/-- A setup that fails gives back what it has acquired; one that succeeds has acquired it all. -/
theorem setup_standing (device : String) (direction : Direction) (count : Nat)
    (reset : Option ResetConfig) (card : Card) :
    (∀ e, (setup device direction count reset card).1 = .error e →
      ∃ events, events <+: .deviceOpened :: complete direction count reset card ∧
        (setup device direction count reset card).2.journal =
          card.journal ++ events ++ Event.undo events ∧
        ((∃ e, card.openDevice device = .error e) → events = [])) ∧
    ∀ s, (setup device direction count reset card).1 = .ok s →
      s.component.map Component.offset = resetOffset reset card ∧
      s.queues.map Queue.standing = (queueIds direction count).map .ofStarted ∧
      (setup device direction count reset card).2.journal =
        card.journal ++ .deviceOpened :: complete direction count reset card ∧
      ∃ card', card.openDevice device = .ok card' := by
  rw [setup]
  cases hopen : card.openDevice device with
  | error e =>
    refine ⟨fun _ _ => ⟨[], List.nil_prefix, ?_, fun _ => rfl⟩, fun _ h => by cases h⟩
    simp [Event.undo]
  | ok card' =>
    obtain ⟨hspec, hj⟩ := openDevice_standing hopen
    have hnot : ∀ {events : List Event}, (∃ e, Except.ok card' = Except.error (ε := DeviceError) e) →
        events = [] := by
      rintro events ⟨e, he⟩
      cases he
    dsimp only
    split
    · refine ⟨fun _ _ => ⟨[.deviceOpened], ?_, ?_, hnot⟩, fun _ h => by cases h⟩
      · exact (List.prefix_append_right_inj [Event.deviceOpened]).mpr List.nil_prefix
      · have hclose : card'.closeDevice.journal = card'.journal ++ [.deviceClosed] :=
          Card.journal_record .deviceClosed card'
        rw [hclose, hj]
        rfl
    · obtain ⟨component, started, rest, hpre, hc, hq, hja, hall⟩ :=
        acquire_standing direction count reset card'
      rw [complete_congr hspec] at hpre
      have hoff : resetOffset reset card' = resetOffset reset card := by
        simp only [resetOffset, Card.findComponent, Card.componentsLike, hspec]
      rcases hres : acquire direction count reset card' with ⟨answer, s, card₁⟩
      simp only [hres] at hc hq hja hall ⊢
      cases answer with
      | error e =>
        refine ⟨fun _ _ => ?_, fun _ h => by cases h⟩
        refine ⟨.deviceOpened :: Event.acquired component (started ++ rest) started, ?_, ?_, hnot⟩
        · exact (List.prefix_append_right_inj [Event.deviceOpened]).mpr hpre
        · rw [teardown_acquired hc hq, hja, hj]
          simp
      | ok done =>
        refine ⟨fun _ h => (by cases h), fun s' h => ?_⟩
        cases h
        obtain ⟨rfl, rfl, rfl⟩ := hall rfl
        rw [hoff] at hc hja
        refine ⟨hc, ?_, ?_, card', rfl⟩
        · rw [hq, List.map_nil, List.append_nil]
        · rw [hja, hj, List.append_nil, List.append_assoc]
          rfl

theorem openQueues_sameRings (direction : Direction) (indices : List Nat) (s : Session)
    (card : Card) : card.SameRings (openQueues direction indices s card).2.2 := by
  induction indices generalizing s card with
  | nil => exact .refl card
  | cons index rest ih =>
    rw [openQueues]
    cases hopen : Queue.openOn ⟨direction, index⟩ card with
    | error e => exact .refl card
    | ok opened =>
      obtain ⟨-, -, hcard⟩ := Queue.openOn_eq hopen
      have hopened : card.SameRings opened.2 :=
        hcard ▸ (Card.SameRings.setBound _ true card).trans (.record _ _)
      exact hopened.trans (ih _ _)

theorem startAll_sameRings (qs : List Queue) (card : Card) :
    card.SameRings (startAll qs card).2.2 := by
  induction qs generalizing card with
  | nil => exact .refl card
  | cons q qs ih =>
    rw [startAll]
    cases hstart : q.start card with
    | error e => exact .refl card
    | ok begun =>
      obtain ⟨-, -, hcard⟩ := Queue.start_eq hstart
      have hbegun : card.SameRings begun.2 := hcard ▸ .record _ card
      exact hbegun.trans (ih _)

theorem openReset_eq {reset : Option ResetConfig} {s : Session} {card card' : Card}
    (h : reset.elim (.ok ({}, card)) (fun reset => openComponent reset {} card) = .ok (s, card')) :
    card' = card ∨ ∃ e, card' = card.record e := by
  cases reset with
  | none =>
    cases h
    exact .inl rfl
  | some reset =>
    change openComponent reset {} card = _ at h
    rw [openComponent] at h
    cases hfind : card.findComponent reset.compatible reset.index with
    | error e =>
      rw [hfind] at h
      cases h
    | ok offset =>
      rw [hfind] at h
      change (card.openComponent offset >>= _) = _ at h
      rw [Card.openComponent] at h
      split at h
      · cases h
        exact .inr ⟨_, rfl⟩
      · cases h

theorem openReset_sameRings {reset : Option ResetConfig} {s : Session} {card card' : Card}
    (h : reset.elim (.ok ({}, card)) (fun reset => openComponent reset {} card) = .ok (s, card')) :
    card.SameRings card' := by
  rcases openReset_eq h with rfl | ⟨e, rfl⟩
  · exact .refl card'
  · exact .record e card

theorem acquire_sameRings (direction : Direction) (count : Nat) (reset : Option ResetConfig)
    (card : Card) : card.SameRings (acquire direction count reset card).2.2 := by
  rw [acquire]
  cases hreset : reset.elim (.ok ({}, card)) (fun reset => openComponent reset {} card) with
  | error e => exact .refl card
  | ok begun =>
    obtain ⟨s, card'⟩ := begun
    have hqueues := openQueues_sameRings direction (List.range count) s card'
    dsimp only
    split
    · next hopen =>
      rw [hopen] at hqueues
      exact (openReset_sameRings hreset).trans hqueues
    · next hopen =>
      rw [hopen] at hqueues
      exact ((openReset_sameRings hreset).trans hqueues).trans (startAll_sameRings _ _)

theorem setup_sameRings {device : String} {direction : Direction} {count : Nat}
    {reset : Option ResetConfig} {s : Session} {card card' : Card}
    (h : setup device direction count reset card = (.ok s, card')) :
    card.SameRings card' ∧ count ≤ card.spec.queueCount direction := by
  rw [setup] at h
  have hdevice := (Card.SameRings.openDevice device card).1
  cases hopen : card.openDevice device with
  | error e =>
    rw [hopen] at h
    cases h
  | ok card₁ =>
    rw [hopen] at h hdevice
    have hsame : card.SameRings card₁ := hdevice
    have hacquire := acquire_sameRings direction count reset card₁
    dsimp only at h
    split at h
    · cases h
    · next hcount =>
      rw [hsame.1, Nat.not_lt] at hcount
      split at h
      · next hres =>
        cases h
        rw [hres] at hacquire
        exact ⟨hsame.trans hacquire, hcount⟩
      · cases h

theorem ring?_pulse (reset : ResetConfig) (s : Session) (card : Card) (q : QueueId) :
    (s.pulse reset card).ring? q = card.ring? q := by
  rw [pulse]
  cases s.component with
  | none => rfl
  | some component =>
    rw [Option.elim_some, Card.write, Card.ring?_record]
    cases h : q.direction <;> simp [Card.ring?, Card.line?, Card.lines, h]

end Session

end DmaBurst
