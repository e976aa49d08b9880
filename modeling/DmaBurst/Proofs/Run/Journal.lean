import DmaBurst.Io.Scripted
import DmaBurst.Proofs.Run.Drive
import DmaBurst.Proofs.Run.Setup
import DmaBurst.Run.Receive
import DmaBurst.Run.Transmit

namespace DmaBurst

namespace Session

/-- The journal of a run up to the start of its workers: the device, the component that is to be
reset, the queues in ascending order, and the reset pulse. -/
def plan (direction : Direction) (count : Nat) (reset : Option ResetConfig) (card : Card) :
    List Event :=
  let offset := resetOffset reset card
  let ids := (List.range count).map (QueueId.mk direction)
  [.deviceOpened] ++ offset.toList.map .componentOpened ++ ids.map .queueOpened ++
    ids.map .queueStarted ++
    reset.toList.map fun r => .registerWrite (offset.getD 0) r.address r.value

/-- A run has added to the journal of the card a front part of its plan and what gives it back. It
is nothing when the run is not to begin, and all of the plan when the setup succeeds. -/
def Balanced (c : Config) (direction : Direction) (count got : Nat) (reset : Option ResetConfig)
    (card card' : Card) : Prop :=
  ∃ events, events <+: plan direction count reset card ∧
    card'.journal = card.journal ++ events ++ Event.undo events ∧
    ((∃ e, c.validate = .error e) ∨ got ≠ count ∨ (∃ e, card.openDevice c.device = .error e) →
      events = []) ∧
    (c.validate = .ok () → got = count →
      (∃ s, (setup c.device direction count reset card).1 = .ok s) →
      events = plan direction count reset card)

variable {c : Config} {direction : Direction} {count got : Nat} {reset : Option ResetConfig}
  {card card' : Card}

theorem plan_eq (direction : Direction) (count : Nat) (reset : Option ResetConfig) (card : Card) :
    plan direction count reset card = .deviceOpened :: complete direction count reset card ++
      reset.toList.map fun r =>
        .registerWrite ((resetOffset reset card).getD 0) r.address r.value := by
  simp [plan, complete, Event.acquired, queueIds]

theorem undo_plan (direction : Direction) (count : Nat) (reset : Option ResetConfig)
    (card : Card) : Event.undo (plan direction count reset card) =
      Event.undo (.deviceOpened :: complete direction count reset card) := by
  rw [plan_eq]
  cases reset with
  | none => rw [Option.toList_none, List.map_nil, List.append_nil]
  | some r => exact Event.undo_append_registerWrite _ _ _ _

theorem balanced_of_refused (h : (∃ e, c.validate = .error e) ∨ got ≠ count) :
    Balanced c direction count got reset card card := by
  refine ⟨[], List.nil_prefix, by simp [Event.undo], fun _ => rfl, fun hv hg => ?_⟩
  rcases h with ⟨e, he⟩ | hn
  · cases he.symm.trans hv
  · exact absurd hg hn

theorem balanced_of_setup_error (hv : c.validate = .ok ()) (hg : got = count) {e : RunError}
    (h : setup c.device direction count reset card = (.error e, card')) :
    Balanced c direction count got reset card card' := by
  obtain ⟨hfail, -⟩ := setup_standing c.device direction count reset card
  rw [h] at hfail
  obtain ⟨events, hpre, hj, hopen⟩ := hfail e rfl
  refine ⟨events, ?_, hj, ?_, ?_⟩
  · rw [plan_eq]
    exact hpre.trans (List.prefix_append _ _)
  · rintro (⟨e, he⟩ | hn | hd)
    · cases he.symm.trans hv
    · exact absurd hg hn
    · exact hopen hd
  · rintro - - ⟨s, hs⟩
    rw [h] at hs
    cases hs

theorem balanced_of_setup_ok (hv : c.validate = .ok ()) (hg : got = count) {s t : Session}
    {card₁ card₂ : Card} (h : setup c.device direction count reset card = (.ok s, card₁))
    (hc : t.component = s.component)
    (hq : t.queues.map Queue.standing = s.queues.map Queue.standing)
    (hj : card₂.journal = card₁.journal ++ reset.toList.map fun r =>
      .registerWrite ((resetOffset reset card).getD 0) r.address r.value) :
    Balanced c direction count got reset card (t.teardown card₂) := by
  obtain ⟨-, hok⟩ := setup_standing c.device direction count reset card
  rw [h] at hok
  obtain ⟨hcomp, hqs, hjs, card', hopen⟩ := hok s rfl
  have hall : t.queues.map Queue.standing =
      (queueIds direction count).map .ofStarted ++ ([] : List QueueId).map .ofOpened := by
    rw [hq, hqs, List.map_nil, List.append_nil]
  refine ⟨plan direction count reset card, List.prefix_rfl, ?_, ?_, fun _ _ _ => rfl⟩
  · rw [teardown_acquired (hc.symm ▸ hcomp) hall, undo_plan, hj, hjs, plan_eq, List.append_nil,
      List.append_assoc card.journal]
    rfl
  · rintro (⟨e, he⟩ | hn | ⟨e, he⟩)
    · cases he.symm.trans hv
    · exact absurd hg hn
    · cases he.symm.trans hopen

theorem length_queues {s : Session}
    (h : s.queues.map Queue.standing = (queueIds direction count).map .ofStarted) :
    s.queues.length = count := by
  rw [← List.length_map Queue.standing, h, List.length_map, queueIds, List.length_map,
    List.length_range]

theorem pulse_journal {s : Session} {r : ResetConfig}
    (hc : s.component.map Component.offset = resetOffset reset card)
    (hr : ∀ r' ∈ reset, r' = r) (card₁ : Card) :
    (s.pulse r card₁).journal = card₁.journal ++ reset.toList.map fun r =>
      .registerWrite ((resetOffset reset card).getD 0) r.address r.value := by
  rw [pulse]
  cases reset with
  | none =>
    have hn : s.component = none := Option.map_eq_none_iff.mp hc
    rw [hn]
    exact (List.append_nil _).symm
  | some r' =>
    obtain rfl := hr r' rfl
    obtain ⟨component, hs, ho⟩ := Option.map_eq_some_iff.mp hc
    have hoff : (resetOffset (some r') card).getD 0 = component.offset := ho.symm
    rw [hs, hoff]
    exact Card.journal_record _ _

end Session

namespace Receive

variable {σ η : Type} {c : Config} {qs : List Queue} {sinks : List σ}

theorem map_queue_workers {budgets : List Int} (hs : sinks.length = qs.length)
    (hb : budgets.length = qs.length) : (workers c qs sinks budgets).map RxWorker.queue = qs := by
  induction qs generalizing sinks budgets with
  | nil => rfl
  | cons q qs ih =>
    obtain ⟨sink, sinks, rfl⟩ := List.exists_cons_of_length_eq_add_one hs
    obtain ⟨budget, budgets, rfl⟩ := List.exists_cons_of_length_eq_add_one hb
    exact congrArg (q :: ·) (ih (Nat.succ.inj hs) (Nat.succ.inj hb))

def flushAll [ByteSink σ] : Nat → List σ → Except (Halt RunError) Unit × List σ
  | _, [] => (.ok (), [])
  | index, s :: rest =>
    match ByteSink.flush s with
    | (.error e, s) => (.error (e.map fun cause => .worker (.sink ⟨.rx, index⟩ cause)), s :: rest)
    | (.ok (), s) =>
      let (answer, rest) := flushAll (index + 1) rest
      (answer, s :: rest)

@[simp]
theorem flushEach_card [ByteSink σ] (index : Nat) (sinks : List σ) (card : Card) :
    flushEach index sinks card = ((flushAll index sinks).1, (flushAll index sinks).2, card) := by
  induction sinks generalizing index with
  | nil => rfl
  | cons s rest ih =>
    rw [flushEach, flushAll]
    rcases hs : ByteSink.flush s with ⟨_ | _, t⟩
    · simp only [Flushed.flushAt, hs]
    · simp only [Flushed.flushAt, hs, ih]

theorem drive_standing [ByteSink σ] [Hardware η] [LawfulHardware η] (shutdown : Bool) {s : Session}
    (h : η)
    (card : Card) (hq : s.queues.length = c.rx.queueCount) (hs : sinks.length = s.queues.length) :
    (drive c shutdown sinks s h card).2.2.1.component = s.component ∧
      (drive c shutdown sinks s h card).2.2.1.queues.map Queue.standing =
        s.queues.map Queue.standing ∧
      (drive c shutdown sinks s h card).2.2.2.2.journal = card.journal := by
  rw [drive, driveBy]
  cases hb : c.rx.budgets with
  | error f => exact ⟨rfl, rfl, rfl⟩
  | ok budgets =>
    have hlen : budgets.length = s.queues.length := (Card.length_of_mapM_eq_ok hb).trans hq.symm
    let ws := workers c s.queues sinks budgets
    have hw : ws.map RxWorker.queue = s.queues := map_queue_workers hs hlen
    have hqs := Drive.run_map_standing c.schedule shutdown hw h card
    have hj := (Drive.run_standing c.schedule shutdown ws h card).2
    simp only [flushEach_card]
    split
    · exact ⟨rfl, hqs, hj⟩
    · exact ⟨rfl, hqs, hj⟩

def reset? (c : Config) : Option ResetConfig :=
  if c.rx.reset.enabled then some c.rx.reset else none

theorem run_balanced [ByteSink σ] [Hardware η] [LawfulHardware η] (c : Config) (shutdown : Bool)
    (sinks : List σ) (h : η) (card : Card) :
    Session.Balanced c .rx c.rx.queueCount sinks.length (reset? c) card
      (run c shutdown sinks h card).2.2.2 := by
  rw [run, runBy]
  cases hv : c.validate with
  | error e => exact Session.balanced_of_refused (.inl ⟨e, hv⟩)
  | ok _ =>
    dsimp only
    split
    · next hn => exact Session.balanced_of_refused (.inr hn)
    · next hn =>
      have hg : sinks.length = c.rx.queueCount := Decidable.not_not.mp hn
      split
      · next e card' hsetup => exact Session.balanced_of_setup_error hv hg hsetup
      · next s card₁ hsetup =>
        obtain ⟨-, hok⟩ := Session.setup_standing c.device .rx c.rx.queueCount (reset? c) card
        obtain ⟨hcomp, hqs, -⟩ := hok s (congrArg Prod.fst hsetup)
        have hlen : s.queues.length = c.rx.queueCount := Session.length_queues hqs
        have hpulse := Session.pulse_journal hcomp (r := c.rx.reset) (by
          rw [reset?]
          split <;> simp) card₁
        obtain ⟨hc, hq, hj⟩ := drive_standing shutdown h (s.pulse c.rx.reset card₁) hlen
          (hg.trans hlen.symm)
        exact Session.balanced_of_setup_ok hv hg hsetup hc hq (hj.trans hpulse)

end Receive

namespace Transmit

variable {σ η : Type} {c : Config}

theorem map_queue_workers {qs : List Queue} {sources : List σ} (hs : sources.length = qs.length) :
    (workers c qs sources).map TxWorker.queue = qs := by
  calc (workers c qs sources).map TxWorker.queue = (qs.zip sources).map Prod.fst := by
        rw [workers, List.map_zipWith, List.map_zip_eq_zipWith]
        rfl
    _ = qs := List.map_fst_zip (Nat.le_of_eq hs.symm)

theorem run_balanced [PacketSource σ] [Hardware η] [LawfulHardware η] (c : Config)
    (shutdown : Bool) (sources : List σ) (h : η) (card : Card) :
    Session.Balanced c .tx c.tx.queues sources.length none card
      (run c shutdown sources h card).2.2.2 := by
  rw [run]
  cases hv : c.validate with
  | error e => exact Session.balanced_of_refused (.inl ⟨e, hv⟩)
  | ok _ =>
    dsimp only
    split
    · next hn => exact Session.balanced_of_refused (.inr hn)
    · next hn =>
      have hg : sources.length = c.tx.queues := Decidable.not_not.mp hn
      split
      · next e card' hsetup => exact Session.balanced_of_setup_error hv hg hsetup
      · next s card₁ hsetup =>
        obtain ⟨-, hok⟩ := Session.setup_standing c.device .tx c.tx.queues none card
        obtain ⟨-, hqs, -⟩ := hok s (congrArg Prod.fst hsetup)
        have hlen : s.queues.length = c.tx.queues := Session.length_queues hqs
        let ws := workers c s.queues sources
        have hw : ws.map TxWorker.queue = s.queues := map_queue_workers (hg.trans hlen.symm)
        have hj := (Drive.run_standing c.schedule shutdown ws h card₁).2
        exact Session.balanced_of_setup_ok hv hg hsetup rfl
          (Drive.run_map_standing c.schedule shutdown hw h card₁)
          (hj.trans (List.append_nil _).symm)

end Transmit

/-- However a run is set up and however it ends, its journal is a front part of what it plans
followed by what gives that back. -/
theorem run_gives_back {σ τ η : Type} [ByteSink σ] [PacketSource τ] [Hardware η] [LawfulHardware η]
    (c : Config) (shutdown : Bool) (h : η) (card : Card) :
    (∀ sinks : List σ, Session.Balanced c .rx c.rx.queueCount sinks.length (Receive.reset? c) card
      (Receive.run c shutdown sinks h card).2.2.2) ∧
    ∀ sources : List τ, Session.Balanced c .tx c.tx.queues sources.length none card
      (Transmit.run c shutdown sources h card).2.2.2 :=
  ⟨fun sinks => Receive.run_balanced c shutdown sinks h card,
    fun sources => Transmit.run_balanced c shutdown sources h card⟩

def halting : CardSpec where
  rxQueues := 2
  txQueues := 2
  ringCapacity := 4
  slotSize := 8
  refusesStart := [⟨.rx, 1⟩]

def haltingConfig : Config where
  batchSize := 1
  rx := { packetsPerIteration := [1, 1] }
  tx := { queues := 2, packetLen := 1, rounds := 3 }

def haltingSources : List ScriptedSource :=
  [{ cues := [.fill 1, .fail] }, { cues := [.fill 1, .fault] }]

example : (Card.create halting).toOption.map (fun card =>
      (Receive.run haltingConfig false ([{}, {}] : List ScriptedSink) () card).2.2.2.journal) =
    some [.deviceOpened, .componentOpened 0x8000, .queueOpened ⟨.rx, 0⟩, .queueOpened ⟨.rx, 1⟩,
      .queueStarted ⟨.rx, 0⟩, .queueStopped ⟨.rx, 0⟩, .queueClosed ⟨.rx, 1⟩,
      .queueClosed ⟨.rx, 0⟩, .componentClosed 0x8000, .deviceClosed] := by
  decide +kernel

theorem halting_gives_back : LawfulHardware Unit ∧ ∃ card, Card.create halting = .ok card ∧
    Session.Balanced haltingConfig .rx 2 2 (some {}) card
      (Receive.run haltingConfig false ([{}, {}] : List ScriptedSink) () card).2.2.2 ∧
    Session.Balanced haltingConfig .tx 2 2 none card
      (Transmit.run haltingConfig false haltingSources () card).2.2.2 := by
  have hcard : Card.create halting = .ok _ := rfl
  obtain ⟨hrx, htx⟩ := run_gives_back (σ := ScriptedSink) (τ := ScriptedSource) haltingConfig
    false () _
  exact ⟨inferInstance, _, hcard, hrx [{}, {}], htx haltingSources⟩

end DmaBurst
