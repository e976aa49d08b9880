import DmaBurst.Decimal.Binary64
import DmaBurst.Queue.Basic
import DmaBurst.Worker.Budget

namespace DmaBurst

/-- How a worker finished: its budget met or its rounds sent, its poll cap reached, a flag raised,
or its source run dry. -/
inductive WorkerStatus where
  | complete
  | underDelivery
  | cancelled
  | sourceExhausted
  deriving DecidableEq, Repr

def WorkerStatus.text : WorkerStatus → String
  | .complete => "complete"
  | .underDelivery => "under-delivery"
  | .cancelled => "cancelled"
  | .sourceExhausted => "source exhausted"

structure WorkerReport where
  queue : QueueId
  status : WorkerStatus
  initial : Int
  remaining : Int
  polls : Nat
  stats : QueueStats
  deriving DecidableEq, Repr

namespace WorkerReport

/-- Packets moved, as counted against the budget. -/
def delivered (r : WorkerReport) : Except Fault Int :=
  checked .subtractOverflow (r.initial - r.remaining)

def lineWith (polls millis : String) (r : WorkerReport) : String :=
  s!"{r.queue.text}: remaining {r.remaining} of {r.initial} ({r.stats.packets} packets, " ++
    s!"{r.stats.bytes} bytes, {polls} polls, {millis} ms) {r.status.text}"

def line (nanos : Nat) (r : WorkerReport) : String :=
  r.lineWith (toString r.polls) (Decimal.milliseconds nanos)

end WorkerReport

end DmaBurst
