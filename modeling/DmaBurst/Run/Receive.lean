import DmaBurst.Run.Drive
import DmaBurst.Worker.Receive

namespace DmaBurst

class Flushed (σ κ : Type) where
  flushAt : Nat → σ → κ → Except (Halt IoError) Unit × σ × κ

instance {σ : Type} [ByteSink σ] : Flushed σ Card where
  flushAt _ s card :=
    let (answer, s) := ByteSink.flush s
    (answer, s, card)

namespace Receive

variable {σ η κ : Type} [ByteSink σ] [Hardware η] [Ground κ] [Polled (RxWorker σ) κ] [Flushed σ κ]

def workers (c : Config) : List Queue → List σ → List Int → List (RxWorker σ)
  | queue :: queues, sink :: sinks, budget :: budgets =>
    { queue, sink, budget := .new budget, batchSize := c.batchSize, maxPolls := c.rx.maxPolls
      backoff := ⟨c.rx.backoff, 1⟩ } :: workers c queues sinks budgets
  | _, _, _ => []

/-- Flushes the sinks in order, up to the first that refuses. -/
def flushEach : Nat → List σ → κ → Except (Halt RunError) Unit × List σ × κ
  | _, [], card => (.ok (), [], card)
  | index, s :: rest, card =>
    match Flushed.flushAt index s card with
    | (.error e, s, card) =>
      (.error (e.map fun cause => .worker (.sink ⟨.rx, index⟩ cause)), s :: rest, card)
    | (.ok (), s, card) =>
      let (answer, rest, card) := flushEach (index + 1) rest card
      (answer, s :: rest, card)

/-- What takes workers from their start to where they are not polled any more. -/
abbrev Work (σ η κ : Type) :=
  List (RxWorker σ) → η → κ → Except (Halt RunError) (List WorkerReport) × List (RxWorker σ) × η × κ

def driveBy (work : Work σ η κ) (c : Config) (sinks : List σ) (s : Session) (h : η) (card : κ) :
    Except (Halt RunError) RunReport × List σ × Session × η × κ :=
  match c.rx.budgets with
  | .error f => (.error (.fault f), sinks, s, h, card)
  | .ok budgets =>
    let (answer, ws, h, card) := work (workers c s.queues sinks budgets) h card
    let s := { s with queues := ws.map RxWorker.queue }
    let sinks := ws.map RxWorker.sink
    match answer with
    | .error e => (.error e, sinks, s, h, card)
    | .ok reports =>
      let (flushed, sinks, card) := flushEach 0 sinks card
      (flushed.map fun _ => ⟨.rx, reports⟩, sinks, s, h, card)

def drive (c : Config) (shutdown : Bool) (sinks : List σ) (s : Session) (h : η) (card : κ) :
    Except (Halt RunError) RunReport × List σ × Session × η × κ :=
  driveBy (Drive.run c.schedule shutdown) c sinks s h card

/-- Drains every configured receive queue into its sink. Whatever was acquired is given back,
however the run ends. -/
def runBy (work : Work σ η κ) (c : Config) (sinks : List σ) (h : η) (card : κ) :
    Except (Halt RunError) RunReport × List σ × η × κ :=
  match c.validate with
  | .error e => (.error (.refused (.config e)), sinks, h, card)
  | .ok () =>
    let count := c.rx.queueCount
    if sinks.length ≠ count then
      (.error (.refused (.endpointCount count sinks.length)), sinks, h, card)
    else
      let reset := if c.rx.reset.enabled then some c.rx.reset else none
      match Ground.onCard (Session.setup c.device .rx count reset) card with
      | (.error e, card) => (.error (.refused e), sinks, h, card)
      | (.ok s, card) =>
        let ((), card) := Ground.onCard (fun card => ((), s.pulse c.rx.reset card)) card
        let (answer, sinks, s, h, card) := driveBy work c sinks s h card
        let ((), card) := Ground.onCard (fun card => ((), s.teardown card)) card
        (answer, sinks, h, card)

def run (c : Config) (shutdown : Bool) (sinks : List σ) (h : η) (card : κ) :
    Except (Halt RunError) RunReport × List σ × η × κ :=
  runBy (Drive.run c.schedule shutdown) c sinks h card

end Receive

end DmaBurst
