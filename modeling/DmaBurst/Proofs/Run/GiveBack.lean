import DmaBurst.Proofs.Card.Alike
import DmaBurst.Proofs.Run.Setup

namespace DmaBurst

def Standing.Live (s : Standing) : Prop :=
  s.state ≠ .closed ∧ s.bound = true

theorem Standing.Live.stop {s : Standing} (h : s.Live) : s.stop.Live := by
  rw [Standing.stop]
  split
  · exact ⟨by simp, h.2⟩
  · exact h

theorem Standing.live_of_mem {s : Standing} {started rest : List QueueId}
    (h : s ∈ started.map ofStarted ++ rest.map ofOpened) : s.Live := by
  rcases List.mem_append.mp h with hs | hs <;>
  · obtain ⟨id, -, rfl⟩ := List.mem_map.mp hs
    exact ⟨by simp [ofStarted, ofOpened], rfl⟩

structure Card.Unbinds (ids : List QueueId) (card card' : Card) : Prop
    extends Card.SameBuild card card' where
  deviceOpen_eq : card'.deviceOpen = card.deviceOpen
  of_mem : ∀ q ∈ ids, card'.isBound q = false
  of_notMem : ∀ q, q ∉ ids → card'.isBound q = card.isBound q

theorem Channel.alike_stop (c : Channel) (card : Card) : card.Alike (c.stop card).2 := by
  rw [stop_eq]
  cases c.started
  · exact .refl card
  · exact .record _ card

namespace Queue

structure Fresh (q : Queue) : Prop where
  live : q.standing.Live
  id_eq : q.id = q.channel.id
  window_eq : q.channel.window = none
  stats_eq : q.stats = {}

theorem alike_stop (q : Queue) (card : Card) : card.Alike (q.stop card).2 := by
  rw [stop_eq]
  split
  · exact q.channel.alike_stop card
  · exact .refl card

theorem unbinds_close {q : Queue} (h : q.standing.Live) (card : Card) :
    card.Unbinds [q.channel.id] (q.close card).2 := by
  have hchannel := (sameRings_stop q card).2.2
  have hbound : (q.stop card).1.channel.bound = true := by
    rw [hchannel]
    exact h.2
  have hid : (q.stop card).1.channel.id = q.channel.id := by rw [hchannel]
  have hopen : ¬ q.state = .closed := h.1
  have hstop := (q.alike_stop card).trans ((q.stop card).1.channel.alike_stop (q.stop card).2)
  rw [close_eq, if_neg hopen, Channel.close_eq, if_pos hbound, hid]
  have hset := Card.SameBuild.setBound q.channel.id false
    ((q.stop card).1.channel.stop (q.stop card).2).2
  have hrecord := Card.Alike.record (.queueClosed q.channel.id)
    ((((q.stop card).1.channel.stop (q.stop card).2).2).setBound q.channel.id false)
  refine ⟨(hstop.toSameBuild.trans hset).trans hrecord.toSameBuild, ?_, fun p hp => ?_,
    fun p hp => ?_⟩
  · rw [hrecord.deviceOpen_eq, Card.deviceOpen_setBound, hstop.deviceOpen_eq]
  · rw [hrecord.isBound_eq, List.mem_singleton.mp hp, Card.isBound_setBound, if_pos rfl]
    rfl
  · rw [hrecord.isBound_eq, Card.isBound_setBound, if_neg (Ne.symm (List.ne_of_not_mem_cons hp)),
      hstop.isBound_eq]

end Queue

namespace Session

theorem stopAll_frame (qs : List Queue) (card : Card) :
    card.Alike (stopAll qs card).2 ∧ card.SameRings (stopAll qs card).2 ∧
      (stopAll qs card).1.map (fun q => q.channel.id) = qs.map fun q => q.channel.id := by
  induction qs with
  | nil => exact ⟨.refl card, .refl card, rfl⟩
  | cons q qs ih =>
    obtain ⟨halike, hrings, hids⟩ := ih
    obtain ⟨hrings', -, hchannel⟩ := Queue.sameRings_stop q (stopAll qs card).2
    have hid : (q.stop (stopAll qs card).2).1.channel.id = q.channel.id := by rw [hchannel]
    exact ⟨halike.trans (q.alike_stop _), hrings.trans hrings', List.cons_eq_cons.mpr ⟨hid, hids⟩⟩

theorem closeAll_frame {qs : List Queue} (h : ∀ q ∈ qs, q.standing.Live) (card : Card) :
    card.Unbinds (qs.map fun q => q.channel.id) (closeAll qs card) ∧
      card.SameRings (closeAll qs card) := by
  induction qs with
  | nil => exact ⟨⟨.refl card, rfl, (fun _ hq => by cases hq), fun _ _ => rfl⟩, .refl card⟩
  | cons q qs ih =>
    obtain ⟨hq, hqs⟩ := List.forall_mem_cons.mp h
    obtain ⟨hall, hrings⟩ := ih hqs
    have hclose := Queue.unbinds_close hq (closeAll qs card)
    refine ⟨⟨hall.toSameBuild.trans hclose.toSameBuild,
      hclose.deviceOpen_eq.trans hall.deviceOpen_eq, fun p hp => ?_, fun p hp => ?_⟩,
      hrings.trans (q.sameRings_close _).1⟩
    · by_cases hpq : p = q.channel.id
      · exact hclose.of_mem p (List.mem_singleton.mpr hpq)
      · refine (hclose.of_notMem p (by simpa using hpq)).trans (hall.of_mem p ?_)
        exact (List.mem_cons.mp hp).resolve_left hpq
    · obtain ⟨hpq, hpqs⟩ := not_or.mp (List.mem_cons.not.mp hp)
      exact (hclose.of_notMem p (by simpa using hpq)).trans (hall.of_notMem p hpqs)

/-- The second card is the first with the device open and the queues of the session bound, none of
which was bound before. -/
structure Holds (s : Session) (card card' : Card) : Prop extends Card.SameBuild card card' where
  closed : card.deviceOpen = false
  free : ∀ q ∈ s.queues, card.isBound q.channel.id = false
  others : ∀ p, p ∉ s.queues.map (fun q => q.channel.id) → card'.isBound p = card.isBound p

variable {s s' : Session} {card card' card'' : Card}

theorem Holds.congr (h : s.Holds card card')
    (hs : s'.queues.map (fun q => q.channel.id) = s.queues.map fun q => q.channel.id)
    (hc : card'.Alike card'') : s'.Holds card card'' := by
  refine ⟨h.toSameBuild.trans hc.toSameBuild, h.closed, fun q hq => ?_, fun p hp => ?_⟩
  · have hmem : q.channel.id ∈ s.queues.map fun q => q.channel.id := hs ▸ List.mem_map_of_mem hq
    obtain ⟨q', hq', hid⟩ := List.mem_map.mp hmem
    exact hid ▸ h.free q' hq'
  · exact (hc.isBound_eq p).trans (h.others p (hs ▸ hp))

theorem Holds.teardown (h : s.Holds card card') (hlive : ∀ q ∈ s.queues, q.standing.Live) :
    card.Alike (s.teardown card') ∧ card'.SameRings (s.teardown card') := by
  obtain ⟨hstop, hrings, hids⟩ := stopAll_frame s.queues card'
  have hlive' : ∀ q ∈ (stopAll s.queues card').1, q.standing.Live := by
    intro q hq
    have hmem := List.mem_map_of_mem (f := Queue.standing) hq
    rw [(stopAll_standing s.queues card').1] at hmem
    obtain ⟨t, ht, hstand⟩ := List.mem_map.mp hmem
    obtain ⟨q', hq', rfl⟩ := List.mem_map.mp ht
    exact hstand ▸ (hlive q' hq').stop
  obtain ⟨hclose, hrings'⟩ := closeAll_frame hlive' (stopAll s.queues card').2
  rw [hids] at hclose
  let closed := closeAll (stopAll s.queues card').1 (stopAll s.queues card').2
  have hcomponent : ∀ card : Card, card.Alike (s.component.elim card card.closeComponent) ∧
      card.SameRings (s.component.elim card card.closeComponent) := by
    intro card
    cases s.component with
    | none => exact ⟨.refl card, .refl card⟩
    | some c => exact ⟨.record _ card, .record _ card⟩
  obtain ⟨halike, hrings''⟩ := hcomponent closed
  obtain ⟨hdevice, hbound⟩ :=
    Card.SameRings.closeDevice (s.component.elim closed closed.closeComponent)
  have hsame := ((hrings.trans hrings').trans hrings'').trans hdevice
  have hbuild := (hstop.toSameBuild.trans hclose.toSameBuild).trans halike.toSameBuild
  refine ⟨⟨⟨hsame.1.trans h.spec_eq, hbuild.size_registers.trans h.size_registers, fun q => ?_⟩,
    h.closed.symm, fun p => ?_⟩, hsame⟩
  · exact (congrArg Option.isSome (hsame.2 q)).trans (h.isSome_ring? q)
  · refine (hbound p).trans ((halike.isBound_eq p).trans ?_)
    by_cases hp : p ∈ s.queues.map fun q => q.channel.id
    · obtain ⟨q, hq, hid⟩ := List.mem_map.mp hp
      exact (hclose.of_mem p hp).trans (hid ▸ h.free q hq).symm
    · exact (hclose.of_notMem p hp).trans ((hstop.isBound_eq p).trans (h.others p hp))

theorem openQueues_holds (h : s.Holds card card') (direction : Direction) (indices : List Nat) :
    (openQueues direction indices s card').2.1.Holds card
      (openQueues direction indices s card').2.2 := by
  induction indices generalizing s card' with
  | nil => exact h
  | cons index rest ih =>
    rw [openQueues]
    cases hopen : Queue.openOn ⟨direction, index⟩ card' with
    | error e => exact h
    | ok opened =>
      obtain ⟨q, card₁⟩ := opened
      obtain ⟨hrefusal, rfl, rfl⟩ := Queue.openOn_eq hopen
      have hfree := Queue.not_isBound_of_bindRefusal hrefusal
      have hrecord := Card.Alike.record (.queueOpened ⟨direction, index⟩)
        (card'.setBound ⟨direction, index⟩ true)
      refine ih ⟨(h.toSameBuild.trans (.setBound _ true card')).trans hrecord.toSameBuild, h.closed,
        fun q hq => ?_, fun p hp => ?_⟩
      · rcases List.mem_append.mp hq with hq | hq
        · exact h.free q hq
        · rw [List.mem_singleton.mp hq]
          dsimp only
          by_cases hm : (⟨direction, index⟩ : QueueId) ∈ s.queues.map fun q => q.channel.id
          · obtain ⟨q', hq', hid⟩ := List.mem_map.mp hm
            exact hid ▸ h.free q' hq'
          · exact (h.others _ hm).symm.trans hfree
      · simp only [List.map_append, List.mem_append, not_or, List.map_cons, List.map_nil,
          List.mem_singleton] at hp
        rw [hrecord.isBound_eq, Card.isBound_setBound, if_neg (Ne.symm hp.2), h.others p hp.1]

theorem startAll_frame (qs : List Queue) (card : Card) :
    card.Alike (startAll qs card).2.2 ∧
      (startAll qs card).2.1.map (fun q => (q.id, q.channel.id, q.channel.window, q.stats)) =
        qs.map fun q => (q.id, q.channel.id, q.channel.window, q.stats) := by
  induction qs generalizing card with
  | nil => exact ⟨.refl card, rfl⟩
  | cons q qs ih =>
    rw [startAll]
    cases hstart : q.start card with
    | error e => exact ⟨.refl card, rfl⟩
    | ok begun =>
      obtain ⟨q', card'⟩ := begun
      obtain ⟨-, rfl, rfl⟩ := Queue.start_eq hstart
      obtain ⟨halike, hqs⟩ := ih (card.record (.queueStarted q.channel.id))
      exact ⟨(Card.Alike.record _ card).trans halike, List.cons_eq_cons.mpr ⟨rfl, hqs⟩⟩

theorem openQueues_unused (direction : Direction) (indices : List Nat) (card : Card)
    (h : ∀ q ∈ s.queues, q.id = q.channel.id ∧ q.channel.window = none ∧ q.stats = {}) :
    ∀ q ∈ (openQueues direction indices s card).2.1.queues,
      q.id = q.channel.id ∧ q.channel.window = none ∧ q.stats = {} := by
  induction indices generalizing s card with
  | nil => exact h
  | cons index rest ih =>
    rw [openQueues]
    cases hopen : Queue.openOn ⟨direction, index⟩ card with
    | error e => exact h
    | ok opened =>
      obtain ⟨q, card₁⟩ := opened
      obtain ⟨-, rfl, rfl⟩ := Queue.openOn_eq hopen
      refine ih _ fun q hq => ?_
      rcases List.mem_append.mp hq with hq | hq
      · exact h q hq
      · rw [List.mem_singleton.mp hq]
        exact ⟨rfl, rfl, rfl⟩

theorem openReset_alike {reset : Option ResetConfig} (h : reset.elim (.ok ({}, card))
    (fun reset => openComponent reset {} card) = .ok (s, card')) : card.Alike card' := by
  rcases openReset_eq h with rfl | ⟨e, rfl⟩
  · exact .refl card'
  · exact .record e card

variable {device : String} {direction : Direction} {count : Nat} {reset : Option ResetConfig}

theorem acquire_holds (h : Holds {} card card') (direction : Direction) (count : Nat)
    (reset : Option ResetConfig) :
    (acquire direction count reset card').2.1.Holds card (acquire direction count reset card').2.2 ∧
      ∀ q ∈ (acquire direction count reset card').2.1.queues, q.Fresh := by
  obtain ⟨component, started, rest, -, -, hstand, -⟩ :=
    acquire_standing direction count reset card'
  have hlive : ∀ q ∈ (acquire direction count reset card').2.1.queues, q.standing.Live :=
    fun q hq => Standing.live_of_mem (hstand ▸ List.mem_map_of_mem hq)
  suffices hrest : (acquire direction count reset card').2.1.Holds card
      (acquire direction count reset card').2.2 ∧
      ∀ q ∈ (acquire direction count reset card').2.1.queues,
        q.id = q.channel.id ∧ q.channel.window = none ∧ q.stats = {} from
    ⟨hrest.1, fun q hq => ⟨hlive q hq, (hrest.2 q hq).1, (hrest.2 q hq).2.1, (hrest.2 q hq).2.2⟩⟩
  rw [acquire]
  cases hreset : reset.elim (.ok ({}, card')) (fun reset => openComponent reset {} card') with
  | error e => exact ⟨h, fun q hq => by cases hq⟩
  | ok begun =>
    obtain ⟨s, card₁⟩ := begun
    have hnil := (openReset_standing hreset).1
    have hbegun : s.Holds card card₁ := h.congr (by rw [hnil]) (openReset_alike hreset)
    have hqueues := openQueues_holds hbegun direction (List.range count)
    have hunused := openQueues_unused direction (List.range count) card₁ (s := s) (by simp [hnil])
    rcases hopen : openQueues direction (List.range count) s card₁ with ⟨answer, s', card₂⟩
    simp only [hopen] at hqueues hunused ⊢
    cases answer with
    | error e => exact ⟨hqueues, hunused⟩
    | ok done =>
      obtain ⟨halike, hmap⟩ := startAll_frame s'.queues card₂
      have hids := congrArg (List.map fun x => x.2.1) hmap
      simp only [List.map_map, Function.comp_def] at hids
      refine ⟨hqueues.congr hids halike, fun q hq => ?_⟩
      have hmem := List.mem_map_of_mem
        (f := fun q : Queue => (q.id, q.channel.id, q.channel.window, q.stats)) hq
      rw [hmap] at hmem
      obtain ⟨q', hq', heq⟩ := List.mem_map.mp hmem
      obtain ⟨hid, hchannel, hwindow, hstats⟩ : q'.id = q.id ∧ q'.channel.id = q.channel.id ∧
          q'.channel.window = q.channel.window ∧ q'.stats = q.stats := by simpa using heq
      rw [← hid, ← hchannel, ← hwindow, ← hstats]
      exact hunused q' hq'

theorem holds_openDevice (h : card.openDevice device = .ok card') : Holds {} card card' := by
  obtain ⟨-, hclosed, rfl⟩ := Card.openDevice_eq h
  refine ⟨⟨rfl, rfl, fun q => ?_⟩, hclosed, fun q hq => (by cases hq), fun p _ => ?_⟩
  · exact congrArg Option.isSome (Card.ring?_record _ _ q)
  · exact Card.isBound_record _ _ p

/-- A setup that fails has given everything back, and one that succeeds holds what it has
acquired. -/
theorem setup_cases (device : String) (direction : Direction) (count : Nat)
    (reset : Option ResetConfig) (card : Card) :
    (∀ e card', setup device direction count reset card = (.error e, card') →
      card.Alike card' ∧ card.SameRings card') ∧
    ∀ s card', setup device direction count reset card = (.ok s, card') →
      s.Holds card card' ∧ ∀ q ∈ s.queues, q.Fresh := by
  rw [setup]
  cases hopen : card.openDevice device with
  | error e =>
    refine ⟨fun _ _ h => ?_, fun _ _ h => by cases h⟩
    cases h
    exact ⟨.refl card, .refl card⟩
  | ok card₁ =>
    have hdevice := holds_openDevice hopen
    have hrings : card.SameRings card₁ := by
      have := (Card.SameRings.openDevice device card).1
      rwa [hopen] at this
    dsimp only
    split
    · obtain ⟨halike, hsame⟩ := hdevice.teardown (fun q hq => by cases hq)
      exact ⟨fun _ _ h => (by cases h; exact ⟨halike, hrings.trans hsame⟩), fun _ _ h => by cases h⟩
    · obtain ⟨hholds, hqueues⟩ := acquire_holds hdevice direction count reset
      have hsame := acquire_sameRings direction count reset card₁
      rcases hres : acquire direction count reset card₁ with ⟨_ | _, s, card₂⟩
      · rw [hres] at hholds hqueues hsame
        obtain ⟨halike, hsame'⟩ := hholds.teardown fun q hq => (hqueues q hq).live
        refine ⟨fun _ _ h => ?_, fun _ _ h => by cases h⟩
        cases h
        exact ⟨halike, (hrings.trans hsame).trans hsame'⟩
      · rw [hres] at hholds hqueues
        refine ⟨fun _ _ h => (by cases h), fun _ _ h => ?_⟩
        cases h
        exact ⟨hholds, hqueues⟩

theorem alike_teardown {s s' : Session} {card card₁ card₂ : Card}
    (h : setup device direction count reset card = (.ok s, card₁)) (halike : card₁.Alike card₂)
    (hs : s'.queues.map Queue.standing = s.queues.map Queue.standing) :
    card.Alike (s'.teardown card₂) ∧ card₂.SameRings (s'.teardown card₂) := by
  obtain ⟨hholds, hqueues⟩ := (setup_cases device direction count reset card).2 s card₁ h
  have hids := congrArg (List.map Standing.id) hs
  simp only [List.map_map, Function.comp_def, Queue.standing] at hids
  refine (hholds.congr hids halike).teardown fun q hq => ?_
  have hmem := List.mem_map_of_mem (f := Queue.standing) hq
  rw [hs] at hmem
  obtain ⟨q', hq', hstand⟩ := List.mem_map.mp hmem
  exact hstand ▸ (hqueues q' hq').live

theorem alike_pulse (r : ResetConfig) (s : Session) (card : Card) :
    card.Alike (s.pulse r card) := by
  rw [pulse]
  cases s.component with
  | none => exact .refl card
  | some component =>
    refine ⟨⟨rfl, Array.size_modify, fun q => ?_⟩, rfl, fun _ => rfl⟩
    exact congrArg Option.isSome (Card.ring?_record _ _ q)

section Congr

def Agree {ε α : Type} : Except ε (α × Card) → Except ε (α × Card) → Prop
  | .ok (a, card), .ok (a', card') => a' = a ∧ card.Alike card'
  | .error e, .error e' => e' = e
  | _, _ => False

variable (h : card.Alike card')

include h

theorem alike_record (e : Event) : (card.record e).Alike (card'.record e) :=
  ((Card.Alike.record e card).symm.trans h).trans (.record e card')

theorem agree_openOn (id : QueueId) : Agree (Queue.openOn id card) (Queue.openOn id card') := by
  have hbound := h.isBound_eq id
  rw [Card.isBound, Card.isBound] at hbound
  have hrefusal : card'.bindRefusal id = card.bindRefusal id := by
    rw [Card.bindRefusal, Card.bindRefusal, h.spec_eq, hbound]
  rw [Queue.openOn, Queue.openOn, Card.bindChannel, Card.bindChannel, hrefusal]
  cases card.bindRefusal id with
  | some reason => exact rfl
  | none => exact ⟨rfl, alike_record (h.setBound id true) _⟩

theorem agree_start (q : Queue) : Agree (q.start card) (q.start card') := by
  rw [Queue.start, Queue.start, Channel.start, Channel.start, h.spec_eq]
  split
  · by_cases hr : q.channel.id ∈ card.spec.refusesStart
    · rw [if_pos hr, if_pos hr]
      exact rfl
    · rw [if_neg hr, if_neg hr]
      exact ⟨rfl, alike_record h _⟩
  · exact rfl

theorem agree_openComponent (reset : ResetConfig) :
    Agree (openComponent reset {} card) (openComponent reset {} card') := by
  have hfind : card'.findComponent reset.compatible reset.index =
      card.findComponent reset.compatible reset.index := by
    rw [Card.findComponent, Card.findComponent, Card.componentsLike, Card.componentsLike, h.spec_eq]
  rw [openComponent, openComponent, hfind]
  cases card.findComponent reset.compatible reset.index with
  | error e => exact rfl
  | ok offset =>
    change Agree (card.openComponent offset >>= _) (card'.openComponent offset >>= _)
    rw [Card.openComponent, Card.openComponent, h.size_registers]
    cases (Component.positionOf? offset).filter (· < card.registers.size) with
    | none => exact rfl
    | some position => exact ⟨rfl, alike_record h _⟩

theorem agree_openReset (reset : Option ResetConfig) :
    Agree (reset.elim (.ok (({} : Session), card)) fun reset => openComponent reset {} card)
      (reset.elim (.ok ({}, card')) fun reset => openComponent reset {} card') := by
  cases reset with
  | none => exact ⟨rfl, h⟩
  | some reset => exact agree_openComponent h reset

theorem openQueues_congr (direction : Direction) (indices : List Nat) (s : Session) :
    (openQueues direction indices s card').1 = (openQueues direction indices s card).1 ∧
      (openQueues direction indices s card').2.1 = (openQueues direction indices s card).2.1 ∧
      (openQueues direction indices s card).2.2.Alike
        (openQueues direction indices s card').2.2 := by
  induction indices generalizing s card card' with
  | nil => exact ⟨rfl, rfl, h⟩
  | cons index rest ih =>
    have hagree := agree_openOn h ⟨direction, index⟩
    rw [openQueues, openQueues]
    rcases hopen : Queue.openOn ⟨direction, index⟩ card with e | ⟨q, card₁⟩ <;>
      rcases hopen' : Queue.openOn ⟨direction, index⟩ card' with e' | ⟨q', card₁'⟩ <;>
      rw [hopen, hopen'] at hagree
    · cases hagree
      exact ⟨rfl, rfl, h⟩
    · cases hagree
    · cases hagree
    · obtain ⟨rfl, h'⟩ := hagree
      exact ih h' _

theorem startAll_congr (qs : List Queue) :
    (startAll qs card').1 = (startAll qs card).1 ∧
      (startAll qs card').2.1 = (startAll qs card).2.1 ∧
      (startAll qs card).2.2.Alike (startAll qs card').2.2 := by
  induction qs generalizing card card' with
  | nil => exact ⟨rfl, rfl, h⟩
  | cons q qs ih =>
    have hagree := agree_start h q
    rw [startAll, startAll]
    rcases hstart : q.start card with e | ⟨q₁, card₁⟩ <;>
      rcases hstart' : q.start card' with e' | ⟨q₁', card₁'⟩ <;>
      rw [hstart, hstart'] at hagree
    · cases hagree
      exact ⟨rfl, rfl, h⟩
    · cases hagree
    · cases hagree
    · obtain ⟨rfl, h'⟩ := hagree
      obtain ⟨hanswer, hqs, hcard⟩ := ih h'
      exact ⟨hanswer, congrArg (q₁' :: ·) hqs, hcard⟩

theorem acquire_congr (direction : Direction) (count : Nat) (reset : Option ResetConfig) :
    (acquire direction count reset card').1 = (acquire direction count reset card).1 ∧
      (acquire direction count reset card').2.1 = (acquire direction count reset card).2.1 := by
  have hagree := agree_openReset h reset
  rw [acquire, acquire]
  rcases hreset : reset.elim (.ok (({} : Session), card)) (fun reset => openComponent reset {} card)
    with e | ⟨s, card₁⟩ <;>
  rcases hreset' : reset.elim (.ok (({} : Session), card'))
    (fun reset => openComponent reset {} card') with e' | ⟨s', card₁'⟩ <;>
  simp only [hreset, hreset'] at hagree ⊢
  · cases hagree
    exact ⟨rfl, trivial⟩
  · cases hagree
  · cases hagree
  · obtain ⟨rfl, h₁⟩ := hagree
    obtain ⟨hanswer, hsession, h₂⟩ := openQueues_congr h₁ direction (List.range count) s'
    rcases hopen : openQueues direction (List.range count) s' card₁ with ⟨answer, s₂, card₂⟩
    rcases hopen' : openQueues direction (List.range count) s' card₁' with ⟨answer', s₂', card₂'⟩
    rw [hopen, hopen'] at hanswer hsession h₂
    cases hanswer
    cases hsession
    cases answer with
    | error e => exact ⟨rfl, rfl⟩
    | ok done =>
      obtain ⟨hstarted, hqueues, -⟩ := startAll_congr h₂ s₂.queues
      dsimp only at hstarted hqueues ⊢
      rw [hstarted, hqueues]
      exact ⟨rfl, rfl⟩

theorem openDevice_congr (device : String) :
    (∃ e, card.openDevice device = .error e ∧ card'.openDevice device = .error e) ∨
      ∃ opened opened' : Card, card.openDevice device = .ok opened ∧
        card'.openDevice device = .ok opened' ∧ opened.Alike opened' := by
  simp only [Card.openDevice, h.spec_eq, h.deviceOpen_eq]
  split
  · exact .inl ⟨_, rfl, rfl⟩
  · split
    · exact .inl ⟨_, rfl, rfl⟩
    · refine .inr ⟨_, _, rfl, rfl, alike_record ?_ _⟩
      exact ⟨⟨h.spec_eq.symm ▸ rfl, h.size_registers, h.isSome_ring?⟩, rfl, h.isBound_eq⟩

theorem setup_congr (device : String) (direction : Direction) (count : Nat)
    (reset : Option ResetConfig) :
    (setup device direction count reset card').1 = (setup device direction count reset card).1 := by
  rw [setup, setup]
  obtain ⟨e, hopen, hopen'⟩ | ⟨opened, opened', hopen, hopen', hopened⟩ := openDevice_congr h device
  · rw [hopen, hopen']
  · rw [hopen, hopen']
    dsimp only
    rw [hopened.spec_eq]
    split
    · rfl
    · obtain ⟨hanswer, hsession⟩ := acquire_congr hopened direction count reset
      rcases hacquire : acquire direction count reset opened with ⟨answer, s, acquired⟩
      rcases hacquire' : acquire direction count reset opened' with ⟨answer', s', acquired'⟩
      rw [hacquire, hacquire'] at hanswer hsession
      cases hanswer
      cases hsession
      cases answer <;> rfl

end Congr

end Session

end DmaBurst
