import DmaBurst.Queue.Channel

namespace DmaBurst

inductive QueueState where
  | closed
  | opened
  | started
  | stopped
  deriving DecidableEq, Repr

def QueueState.text : QueueState → String
  | .closed => "closed"
  | .opened => "opened"
  | .started => "started"
  | .stopped => "stopped"

inductive QueueOp where
  | start
  | acquire (direction : Direction)
  deriving DecidableEq, Repr

def QueueOp.text : QueueOp → String
  | .start => "start"
  | .acquire direction => "acquire_" ++ direction.text

inductive QueueError where
  | protocolViolation (queue : QueueId) (op : QueueOp) (state : QueueState)
  | payload (queue : QueueId) (cause : TooLarge)
  | activation (cause : DeviceError)
  deriving DecidableEq, Repr

def QueueError.message : QueueError → String
  | .protocolViolation queue op state =>
    s!"protocol violation on {queue.text}: {op.text} called while {state.text}"
  | .payload queue cause => s!"{queue.text}: {cause.message}"
  | .activation cause => cause.message

structure QueueStats where
  acquires : Nat := 0
  releases : Nat := 0
  emptyAcquires : Nat := 0
  shortAcquires : Nat := 0
  packets : Nat := 0
  bytes : Nat := 0
  deriving DecidableEq, Repr

namespace QueueStats

def countAcquire (requested granted : Nat) (s : QueueStats) : QueueStats :=
  { s with
    acquires := s.acquires + 1
    emptyAcquires := s.emptyAcquires + if granted = 0 then 1 else 0
    shortAcquires := s.shortAcquires + if 0 < granted ∧ granted < requested then 1 else 0 }

def countRelease (packets bytes : Nat) (s : QueueStats) : QueueStats :=
  { s with
    releases := s.releases + 1
    packets := s.packets + packets
    bytes := s.bytes + bytes }

end QueueStats

/-- A channel with its lifecycle: opened, then started and stopped any number of times, then
closed. -/
structure Queue where
  id : QueueId
  state : QueueState := .opened
  channel : Channel
  stats : QueueStats := {}
  deriving DecidableEq, Repr

namespace Queue

def openOn (id : QueueId) (card : Card) : Except DeviceError (Queue × Card) := do
  let (channel, card) ← card.bindChannel id
  return ({ id, channel }, card)

def start (q : Queue) (card : Card) : Except QueueError (Queue × Card) :=
  if q.state = .opened ∨ q.state = .stopped then
    match q.channel.start card with
    | .ok (channel, card) => .ok ({ q with state := .started, channel }, card)
    | .error e => .error (.activation e)
  else .error (.protocolViolation q.id .start q.state)

def stop (q : Queue) (card : Card) : Queue × Card :=
  if q.state = .started then
    let (channel, card) := q.channel.stop card
    ({ q with state := .stopped, channel }, card)
  else (q, card)

def close (q : Queue) (card : Card) : Queue × Card :=
  if q.state = .closed then (q, card)
  else
    let (q, card) := q.stop card
    let (channel, card) := q.channel.close card
    ({ q with state := .closed, channel }, card)

end Queue

end DmaBurst
