import DmaBurst.Io.Sink
import DmaBurst.Worker.Backoff
import DmaBurst.Worker.Basic

namespace DmaBurst

/-- Moves packets from a receive queue to a sink until a budget is met. -/
structure RxWorker (σ : Type) where
  queue : Queue
  sink : σ
  budget : Budget
  batchSize : Nat
  maxPolls : Option Nat := none
  polls : Nat := 0
  backoff : Backoff := ⟨.spin, 1⟩
  finished : Option WorkerStatus := none

namespace RxWorker

variable {σ : Type} [ByteSink σ]

def writeBurst (q : Queue) (r : PacketRing) :
    (count offset : Nat) → σ → Except (Halt IoError) Unit × σ
  | 0, _, s => (.ok (), s)
  | count + 1, offset, s =>
    match q.channel.packet offset r with
    | .error f => (.error (.fault f), s)
    | .ok p =>
      match writeAll p.data s with
      | (.ok (), s) => writeBurst q r count (offset + 1) s
      | (.error e, s) => (.error e, s)

/-- How the worker is to finish instead of polling, if so. -/
def verdict (flags : List Bool) (w : RxWorker σ) : Option WorkerStatus :=
  if w.budget.isMet then some .complete
  else if flags.any id then some .cancelled
  else if capReached w.maxPolls w.polls then some .underDelivery
  else none

/-- Drains a burst of `len`. The burst ends whatever the sink does; only a drained one is
charged. -/
def drain (len : Nat) (w : RxWorker σ) (r : PacketRing) :
    Except (Halt WorkerError) Poll × RxWorker σ × PacketRing :=
  let (written, sink) := writeBurst w.queue r len 0 w.sink
  let (released, queue, r) := w.queue.release len r
  let w := { w with queue, sink }
  match written, released with
  | .error e, _ => (.error (e.map (.sink w.queue.id)), w, r)
  | .ok (), .error f => (.error (.fault f), w, r)
  | .ok (), .ok () =>
    if len = 0 then (.ok .idle, { w with backoff := w.backoff.idle }, r)
    else
      (.ok (.progress len),
        { w with budget := w.budget.consume len, backoff := w.backoff.reset }, r)

def burst (worker : RxWorker σ) (r : PacketRing) :
    Except (Halt WorkerError) Poll × RxWorker σ × PacketRing :=
  let w := { worker with polls := worker.polls + 1 }
  match w.queue.acquire w.batchSize r with
  | (.error e, queue, r) => (.error (e.map .queue), { w with queue }, r)
  | (.ok len, queue, r) => { w with queue }.drain len r

def poll (flags : List Bool) (w : RxWorker σ) (r : PacketRing) :
    Except (Halt WorkerError) Poll × RxWorker σ × PacketRing :=
  match w.finished with
  | some status => (.ok (.done status), w, r)
  | none =>
    match w.verdict flags with
    | some status => (.ok (.done status), { w with finished := some status }, r)
    | none => w.burst r

/-- A worker that has not finished reports as cancelled. -/
def report (w : RxWorker σ) : WorkerReport where
  queue := w.queue.id
  status := w.finished.getD .cancelled
  initial := w.budget.initial
  remaining := w.budget.remaining
  polls := w.polls
  stats := w.queue.stats

instance : Worker (RxWorker σ) where
  queue w := w.queue
  poll flags w r := w.poll flags r
  report w := .ok w.report
  pollsLeft w := w.maxPolls.elim w.budget.remaining.toNat (· - w.polls) + 1

end RxWorker

end DmaBurst
