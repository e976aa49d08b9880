import DmaBurst.Run.Receive

namespace DmaBurst

inductive SinkCall where
  | write (bytes : Bytes) (answer : WriteResult)
  | flush (answer : Except (Halt IoError) Unit)

/-- What a run does to the world: an entry in the journal, or a call on the sink of a queue. What
the worker of a queue returns is among these. -/
inductive Effect where
  | entry (e : Event)
  | call (queue : Nat) (call : SinkCall)
  | ended (queue : Nat) (answer : Except (Halt WorkerError) WorkerReport)

/-- A card, and the log of all that a run has done to it and to the sinks, oldest first. -/
structure Scene where
  card : Card
  log : List Effect := []

/-- The sink of a queue, with the log at hand while it is called. -/
structure Tap (σ : Type) where
  queue : Nat
  sink : σ
  log : List Effect

def RxWorker.mapSink {σ τ : Type} (φ : σ → τ) (w : RxWorker σ) : RxWorker τ :=
  { w with sink := φ w.sink }

instance : Ground Scene where
  onCard act scene :=
    let (answer, card) := act scene.card
    let entries := card.journal.drop scene.card.journal.length
    (answer, { card, log := scene.log ++ entries.map .entry })

variable {σ : Type} [ByteSink σ]

instance : ByteSink (Tap σ) where
  write bytes tap :=
    let (answer, sink) := ByteSink.write bytes tap.sink
    (answer, { tap with sink, log := tap.log ++ [.call tap.queue (.write bytes answer)] })
  flush tap :=
    let (answer, sink) := ByteSink.flush tap.sink
    (answer, { tap with sink, log := tap.log ++ [.call tap.queue (.flush answer)] })
  patience tap := ByteSink.patience tap.sink

instance : Polled (RxWorker σ) Scene where
  pollAt flags w scene :=
    let queue := w.queue.channel.id.index
    let tapped := w.mapSink fun sink => { queue, sink, log := scene.log : Tap σ }
    let (answer, tapped, card) := Drive.pollOn flags tapped scene.card
    let w := tapped.mapSink Tap.sink
    let ended := (Drive.ending w answer).toList
    (answer, w, { card, log := tapped.sink.log ++ ended.map (.ended queue) })

instance : Flushed σ Scene where
  flushAt index sink scene :=
    let (answer, tap) := ByteSink.flush { queue := index, sink, log := scene.log : Tap σ }
    (answer, tap.sink, { scene with log := tap.log })

end DmaBurst
