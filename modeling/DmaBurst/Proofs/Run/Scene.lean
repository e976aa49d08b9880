import DmaBurst.Proofs.Run.SinkMap
import DmaBurst.Proofs.Run.Threads

namespace DmaBurst

open Drive

instance : LawfulGround Scene :=
  ⟨fun _ _ _ => rfl⟩

theorem Tap.sinkMap_sink {σ : Type} [ByteSink σ] : SinkMap (Tap.sink : Tap σ → σ) :=
  ⟨fun _ _ => rfl, fun _ => rfl⟩

def Floor.erase {ω : Type} (f : Floor ω Scene) : Floor ω :=
  ⟨f.stations, f.abort, f.card.card⟩

namespace Scene

section Erasure

variable {σ η : Type} [ByteSink σ] [Hardware η]

omit [Hardware η] in
theorem pollOn_card (flags : List Bool) (w : RxWorker σ) (scene : Scene) :
    pollOn flags w scene.card =
      ((Polled.pollAt flags w scene).1, (Polled.pollAt flags w scene).2.1,
        (Polled.pollAt flags w scene).2.2.card) :=
  pollOn_map Tap.sinkMap_sink flags
    (w.mapSink fun sink => { queue := w.queue.channel.id.index, sink, log := scene.log : Tap σ })
    scene.card

omit [Hardware η] in
theorem step_card (shutdown : Bool) (s : Station (RxWorker σ)) (abort : Bool) (scene : Scene) :
    step shutdown s abort scene.card =
      ((step shutdown s abort scene).1, (step shutdown s abort scene).2.1,
        (step shutdown s abort scene).2.2.card) := by
  rw [step, step]
  split
  · rfl
  · rw [pollAt_card, pollOn_card]

omit [Hardware η] in
theorem sweepStations_card (schedule : Schedule) (shutdown : Bool)
    (stations : List (Station (RxWorker σ))) (abort : Bool) (scene : Scene) :
    sweepStations schedule shutdown stations abort scene.card =
      ((sweepStations schedule shutdown stations abort scene).1,
        (sweepStations schedule shutdown stations abort scene).2.1,
        (sweepStations schedule shutdown stations abort scene).2.2.card) := by
  induction stations generalizing abort scene with
  | nil => rfl
  | cons s rest ih =>
    rw [sweepStations, sweepStations]
    split
    · rfl
    · rw [step_card]
      dsimp only
      rw [ih]

omit [Hardware η] in
theorem sweep_erase (schedule : Schedule) (shutdown : Bool) (f : Floor (RxWorker σ) Scene) :
    sweep schedule shutdown f.erase = (sweep schedule shutdown f).erase := by
  have hs := sweepStations_card schedule shutdown f.stations f.abort f.card
  rw [sweep, Floor.erase, hs]
  rfl

theorem sweeps_erase (schedule : Schedule) (shutdown : Bool) (fuel : Nat) (h : η)
    (f : Floor (RxWorker σ) Scene) :
    sweeps schedule shutdown fuel h f.erase =
      ((sweeps schedule shutdown fuel h f).1, (sweeps schedule shutdown fuel h f).2.erase) := by
  induction fuel generalizing h f with
  | zero => rfl
  | succ fuel ih =>
    rw [sweeps, sweeps]
    have hover : isOver schedule f.erase = isOver schedule f := rfl
    rw [hover]
    split
    · rfl
    -- The hardware acts on the card alone, whatever is kept beside it.
    · obtain ⟨h', scene, hact⟩ : ∃ h' scene, Ground.onCard (Hardware.act h) f.card = (h', scene) :=
        ⟨_, _, rfl⟩
      have hcard : Ground.onCard (Hardware.act h) f.erase.card = (h', scene.card) :=
        congrArg (fun x => (x.1, x.2.card)) hact
      rw [hact, hcard]
      exact (congrArg (sweeps schedule shutdown fuel h')
        (sweep_erase schedule shutdown { f with card := scene })).trans (ih h' _)

theorem run_card (schedule : Schedule) (shutdown : Bool) (ws : List (RxWorker σ)) (h : η)
    (scene : Scene) :
    Drive.run schedule shutdown ws h scene.card =
      ((Drive.run schedule shutdown ws h scene).1, (Drive.run schedule shutdown ws h scene).2.1,
        (Drive.run schedule shutdown ws h scene).2.2.1,
        (Drive.run schedule shutdown ws h scene).2.2.2.card) := by
  have hs := sweeps_erase schedule shutdown (sweepsLeft ws) h (start ws scene)
  rw [Drive.run]
  exact congrArg (fun x => (outcome schedule x.2, x.2.stations.map (·.worker), x.1, x.2.card)) hs

end Erasure

end Scene

namespace Threads

variable {σ η κ : Type} [ByteSink σ]

/-- Workers on threads of their own that step as the row says. -/
def along [Ground κ] [Polled (RxWorker σ) κ] (schedule : Schedule) (row : List ThreadStep) :
    Receive.Work σ η κ :=
  fun ws h card =>
    let t := (start ws card).steps row
    (outcome schedule t.toFloor, t.stations.map (·.worker), h, t.card)

def erase (t : Threads (RxWorker σ) Scene) : Threads (RxWorker σ) :=
  { t.toFloor.erase with shutdown := t.shutdown, polls := t.polls }

theorem step_erase (x : ThreadStep) (t : Threads (RxWorker σ) Scene) :
    t.erase.step x = (t.step x).erase := by
  cases x with
  | poll i =>
    have hstations : t.erase.stations = t.stations := rfl
    rw [step, step, hstations]
    split
    · next w hi =>
      have hpoll := Scene.pollOn_card [t.shutdown, t.abort] w t.card
      exact congrArg (fun x => ({
        stations := t.stations.set i ⟨x.2.1, ending x.2.1 x.1⟩, abort := t.abort, card := x.2.2
        shutdown := t.shutdown, polls := t.polls ++ [⟨i, x.1, x.2.1⟩] } : Threads (RxWorker σ)))
          hpoll
    · rfl
  | raise | ask | hardware => rfl

theorem steps_erase (row : List ThreadStep) (t : Threads (RxWorker σ) Scene) :
    t.erase.steps row = (t.steps row).erase := by
  induction row generalizing t with
  | nil => rfl
  | cons x row ih =>
    have hx := step_erase x t
    exact (congrArg (steps row) hx).trans (ih (t.step x))

end Threads

namespace Receive

variable {σ η : Type} [ByteSink σ]

theorem flushEach_scene (index : Nat) (sinks : List σ) (scene : Scene) :
    flushEach index sinks scene.card =
      ((flushEach index sinks scene).1, (flushEach index sinks scene).2.1,
        (flushEach index sinks scene).2.2.card) := by
  induction sinks generalizing index scene with
  | nil => rfl
  | cons s rest ih =>
    obtain ⟨answer, t, scene', hflush⟩ : ∃ answer t scene',
        Flushed.flushAt index s scene = (answer, t, scene') := ⟨_, _, _, rfl⟩
    have hcard : Flushed.flushAt index s scene.card = (answer, t, scene'.card) :=
      congrArg (fun x => (x.1, x.2.1, x.2.2.card)) hflush
    rw [flushEach, flushEach, hflush, hcard]
    cases answer with
    | error e => rfl
    | ok done =>
      dsimp only
      rw [ih]

/-- The workers go the same way on a scene and on its card. -/
def Work.Erases (work : Work σ η Scene) (work' : Work σ η Card) : Prop :=
  ∀ ws h scene, work' ws h scene.card =
    ((work ws h scene).1, (work ws h scene).2.1, (work ws h scene).2.2.1,
      (work ws h scene).2.2.2.card)

theorem erases_run [Hardware η] (schedule : Schedule) (shutdown : Bool) :
    Work.Erases (σ := σ) (η := η) (Drive.run schedule shutdown) (Drive.run schedule shutdown) :=
  Scene.run_card schedule shutdown

theorem erases_along (schedule : Schedule) (row : List ThreadStep) :
    Work.Erases (σ := σ) (η := η) (Threads.along schedule row) (Threads.along schedule row) := by
  intro ws h scene
  have ht : (Threads.start ws scene.card).steps row = ((Threads.start ws scene).steps row).erase :=
    Threads.steps_erase row (Threads.start ws scene)
  rw [Threads.along, ht]
  rfl

variable {work : Work σ η Scene} {work' : Work σ η Card}

theorem driveBy_card (hw : work.Erases work') (c : Config) (sinks : List σ) (s : Session) (h : η)
    (scene : Scene) :
    driveBy work' c sinks s h scene.card =
      ((driveBy work c sinks s h scene).1, (driveBy work c sinks s h scene).2.1,
        (driveBy work c sinks s h scene).2.2.1, (driveBy work c sinks s h scene).2.2.2.1,
        (driveBy work c sinks s h scene).2.2.2.2.card) := by
  rw [driveBy, driveBy]
  cases c.rx.budgets with
  | error f => rfl
  | ok budgets =>
    dsimp only
    rw [hw]
    rcases work (workers c s.queues sinks budgets) h scene with ⟨_ | reports, ws, h', scene'⟩
    · rfl
    · dsimp only
      rw [flushEach_scene]

/-- The log of a scene changes nothing about a run. -/
theorem runBy_card (hw : work.Erases work') (c : Config) (sinks : List σ) (h : η) (scene : Scene) :
    runBy work' c sinks h scene.card =
      ((runBy work c sinks h scene).1, (runBy work c sinks h scene).2.1,
        (runBy work c sinks h scene).2.2.1, (runBy work c sinks h scene).2.2.2.card) := by
  rw [runBy, runBy]
  cases c.validate with
  | error e => rfl
  | ok done =>
    dsimp only
    split
    · rfl
    · obtain ⟨reset, hreset⟩ : ∃ reset, (if c.rx.reset.enabled then some c.rx.reset else none) =
          reset := ⟨_, rfl⟩
      rw [hreset]
      obtain ⟨answer, scene₁, hs⟩ : ∃ answer scene₁,
          Ground.onCard (Session.setup c.device .rx c.rx.queueCount reset) scene =
            (answer, scene₁) := ⟨_, _, rfl⟩
      have hcard : Ground.onCard (Session.setup c.device .rx c.rx.queueCount reset) scene.card =
          (answer, scene₁.card) := congrArg (fun x => (x.1, x.2.card)) hs
      rw [hs, hcard]
      cases answer with
      | error e => rfl
      | ok s =>
        obtain ⟨scene₂, hp⟩ : ∃ scene₂,
            (Ground.onCard (fun card => ((), s.pulse c.rx.reset card)) scene₁).2 = scene₂ :=
          ⟨_, rfl⟩
        have hpulse : (Ground.onCard (fun card => ((), s.pulse c.rx.reset card)) scene₁.card).2 =
            scene₂.card := congrArg Scene.card hp
        dsimp only
        rw [hp, hpulse, driveBy_card hw]
        rfl

end Receive

end DmaBurst
