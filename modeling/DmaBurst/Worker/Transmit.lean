import DmaBurst.Io.Source
import DmaBurst.Worker.Backoff
import DmaBurst.Worker.Basic

namespace DmaBurst

/-- Moves packets from a source to a transmit queue, one burst a round. -/
structure TxWorker (σ : Type) where
  queue : Queue
  source : σ
  batchSize : Nat
  rounds : Nat
  roundsDone : Nat := 0
  sent : Nat := 0
  exhausted : Bool := false
  maxPolls : Option Nat := none
  polls : Nat := 0
  backoff : Backoff := ⟨.spin, 1⟩
  finished : Option WorkerStatus := none

/-- How the filling of a burst ended: every slot filled, or the source run dry before. -/
inductive Fill where
  | full
  | dry
  deriving DecidableEq, Repr

namespace TxWorker

variable {σ : Type} [PacketSource σ]

/-- Fills slot `offset` of a burst of `len` from the source; `false` when the source is dry. -/
def fillSlot (len offset : Nat) (q : Queue) (r : PacketRing) (s : σ) :
    Except (Halt WorkerError) Bool × PacketRing × σ :=
  match q.slot len offset r with
  | .error f => (.error (.fault f), r, s)
  | .ok slot =>
    let (answer, area, s) := PacketSource.next slot.data s
    let slot := slot.copyData area
    let keep (slot : Slot) : PacketRing := r.replaceReserved offset slot
    match answer with
    | .error e => (.error (e.map (.source q.id)), keep slot, s)
    | .ok none => (.ok false, keep slot, s)
    | .ok (some bytes) =>
      match slot.setDataLen bytes with
      | .error e => (.error (.refused (.queue (.payload q.id e))), keep slot, s)
      | .ok slot => (.ok true, keep slot, s)

/-- Fills slots `offset` and on, `count` of them, and returns the first offset that is not filled. -/
def fillBurst (len : Nat) (q : Queue) :
    (count offset : Nat) → PacketRing → σ →
      Except (Halt WorkerError) (Nat × Fill) × PacketRing × σ
  | 0, offset, r, s => (.ok (offset, .full), r, s)
  | count + 1, offset, r, s =>
    match fillSlot len offset q r s with
    | (.error e, r, s) => (.error e, r, s)
    | (.ok false, r, s) => (.ok (offset, .dry), r, s)
    | (.ok true, r, s) => fillBurst len q count (offset + 1) r s

def verdict (flags : List Bool) (w : TxWorker σ) : Option WorkerStatus :=
  if w.exhausted then some .sourceExhausted
  else if w.rounds ≤ w.roundsDone then some .complete
  else if flags.any id then some .cancelled
  else if capReached w.maxPolls w.polls then some .underDelivery
  else none

/-- Fills and sends a burst of `len`. After a failure no slot of the burst is sent. -/
def send (len : Nat) (w : TxWorker σ) (r : PacketRing) :
    Except (Halt WorkerError) Poll × TxWorker σ × PacketRing :=
  match fillBurst len w.queue len 0 r w.source with
  | (.error e, r, source) =>
    let (_, queue, r) := w.queue.abandon len r
    (.error e, { w with queue, source }, r)
  | (.ok (filled, fill), r, source) =>
    let (sent, queue, r) := w.queue.commit len filled r
    let w := { w with queue, source, exhausted := w.exhausted || fill = .dry }
    match sent with
    | .error f => (.error (.fault f), w, r)
    | .ok () =>
      (.ok (.progress filled),
        { w with
          sent := w.sent + filled
          roundsDone := w.roundsDone + 1
          backoff := w.backoff.reset }, r)

def rest (w : TxWorker σ) (r : PacketRing) :
    Except (Halt WorkerError) Poll × TxWorker σ × PacketRing :=
  match w.queue.release 0 r with
  | (.error f, queue, r) => (.error (.fault f), { w with queue }, r)
  | (.ok (), queue, r) => (.ok .idle, { w with queue, backoff := w.backoff.idle }, r)

def burst (worker : TxWorker σ) (r : PacketRing) :
    Except (Halt WorkerError) Poll × TxWorker σ × PacketRing :=
  let w := { worker with polls := worker.polls + 1 }
  match w.queue.acquire w.batchSize r with
  | (.error e, queue, r) => (.error (e.map .queue), { w with queue }, r)
  | (.ok 0, queue, r) => { w with queue }.rest r
  | (.ok len, queue, r) => { w with queue }.send len r

def poll (flags : List Bool) (w : TxWorker σ) (r : PacketRing) :
    Except (Halt WorkerError) Poll × TxWorker σ × PacketRing :=
  match w.finished with
  | some status => (.ok (.done status), w, r)
  | none =>
    match w.verdict flags with
    | some status => (.ok (.done status), { w with finished := some status }, r)
    | none => w.burst r

/-- Packets that are sent when every grant is full; a batch size beyond the budgets counts as the
greatest one. -/
def planned (w : TxWorker σ) : Except Fault Int :=
  checked .multiplyOverflow (w.rounds * min (w.batchSize : Int) budgetMax)

def report (w : TxWorker σ) : Except Fault WorkerReport := do
  let initial ← w.planned
  return {
    queue := w.queue.id
    status := w.finished.getD .cancelled
    initial
    remaining := ← checked .subtractOverflow (initial - w.sent)
    polls := w.polls
    stats := w.queue.stats }

instance : Worker (TxWorker σ) where
  queue w := w.queue
  poll flags w r := w.poll flags r
  report w := w.report
  pollsLeft w := w.maxPolls.elim (w.rounds - w.roundsDone + 1) (· - w.polls) + 1

end TxWorker

end DmaBurst
