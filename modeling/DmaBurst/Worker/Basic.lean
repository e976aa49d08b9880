import DmaBurst.Fault
import DmaBurst.Queue.Burst
import DmaBurst.Worker.Report

namespace DmaBurst

inductive WorkerError where
  | queue (cause : QueueError)
  | sink (queue : QueueId) (cause : IoError)
  | source (queue : QueueId) (cause : IoError)
  deriving DecidableEq, Repr

def WorkerError.message : WorkerError → String
  | .queue cause => cause.message
  | .sink id cause => s!"{id.text}: sink write failed: {cause.message}"
  | .source id cause => s!"{id.text}: source read failed: {cause.message}"

inductive Poll where
  | progress (packets : Nat)
  | idle
  | done (status : WorkerStatus)
  deriving DecidableEq, Repr

/-- A burst loop over one queue, one step at a time. A poll reads the shutdown flags and works on
the ring of the queue; `pollsLeft` bounds the polls after which a worker is done or can only idle. -/
class Worker (ω : Type) where
  queue : ω → Queue
  poll : List Bool → ω → PacketRing → Except (Halt WorkerError) Poll × ω × PacketRing
  report : ω → Except Fault WorkerReport
  pollsLeft : ω → Nat

namespace Worker

variable {ω : Type} [Worker ω]

def pollUntilDone (flags : List Bool) :
    Nat → ω → PacketRing → Except (Halt WorkerError) Unit × ω × PacketRing
  | 0, w, r => (.error .stuck, w, r)
  | fuel + 1, w, r =>
    match poll flags w r with
    | (.ok (.done _), w, r) => (.ok (), w, r)
    | (.ok _, w, r) => pollUntilDone flags fuel w r
    | (.error e, w, r) => (.error e, w, r)

/-- Polls a worker to its end while nothing else touches the ring, and reports. -/
def run (flags : List Bool) (w : ω) (r : PacketRing) :
    Except (Halt WorkerError) WorkerReport × ω × PacketRing :=
  let (answer, w, r) := pollUntilDone flags (pollsLeft w + 1) w r
  (answer.bind fun _ => (report w).mapError .fault, w, r)

end Worker

def capReached (cap : Option Nat) (polls : Nat) : Bool :=
  cap.any (· ≤ polls)

end DmaBurst
