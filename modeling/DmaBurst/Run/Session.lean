import DmaBurst.Card.Component
import DmaBurst.Config.Basic
import DmaBurst.Worker.Basic

namespace DmaBurst

inductive RunError where
  | config (cause : ConfigError)
  | device (cause : DeviceError)
  | worker (cause : WorkerError)
  | queueOutOfRange (direction : Direction) (requested available : Nat)
  | endpointCount (expected got : Nat)
  | workerFault (queue : QueueId)
  deriving DecidableEq, Repr

def RunError.message : RunError → String
  | .config cause => cause.message
  | .device cause => s!"device setup failed: {cause.message}"
  | .worker cause => cause.message
  | .queueOutOfRange direction requested available =>
    s!"device exposes {available} {direction.text} queues, {requested} configured"
  | .endpointCount expected got =>
    s!"{expected} queues configured but {got} sinks/sources supplied"
  | .workerFault queue => s!"worker for {queue.text} panicked"

/-- What a run has acquired on an open device, queues in the order of opening. -/
structure Session where
  queues : List Queue := []
  component : Option Component := none

namespace Session

def stopAll : List Queue → Card → List Queue × Card
  | [], card => ([], card)
  | q :: qs, card =>
    let (qs, card) := stopAll qs card
    let (q, card) := q.stop card
    (q :: qs, card)

def closeAll : List Queue → Card → Card
  | [], card => card
  | q :: qs, card => (q.close (closeAll qs card)).2

/-- Gives everything back in the reverse order of acquisition, the device last. -/
def teardown (s : Session) (card : Card) : Card :=
  let (queues, card) := stopAll s.queues card
  let card := closeAll queues card
  let card := s.component.elim card card.closeComponent
  card.closeDevice

def openComponent (reset : ResetConfig) (s : Session) (card : Card) :
    Except DeviceError (Session × Card) := do
  let offset ← card.findComponent reset.compatible reset.index
  let (component, card) ← card.openComponent offset
  return ({ s with component := some component }, card)

def openQueues (direction : Direction) :
    List Nat → Session → Card → Except DeviceError Unit × Session × Card
  | [], s, card => (.ok (), s, card)
  | index :: rest, s, card =>
    match Queue.openOn ⟨direction, index⟩ card with
    | .error e => (.error e, s, card)
    | .ok (q, card) => openQueues direction rest { s with queues := s.queues ++ [q] } card

def startAll : List Queue → Card → Except QueueError Unit × List Queue × Card
  | [], card => (.ok (), [], card)
  | q :: qs, card =>
    match q.start card with
    | .error e => (.error e, q :: qs, card)
    | .ok (q, card) =>
      let (answer, qs, card) := startAll qs card
      (answer, q :: qs, card)

/-- Opens the reset component, if any, and then opens and starts `count` queues. -/
def acquire (direction : Direction) (count : Nat) (reset : Option ResetConfig) (card : Card) :
    Except RunError Unit × Session × Card :=
  match reset.elim (.ok ({}, card)) fun reset => openComponent reset {} card with
  | .error e => (.error (.device e), {}, card)
  | .ok (s, card) =>
    match openQueues direction (List.range count) s card with
    | (.error e, s, card) => (.error (.device e), s, card)
    | (.ok (), s, card) =>
      let (answer, queues, card) := startAll s.queues card
      (answer.mapError fun e => .worker (.queue e), { s with queues }, card)

/-- Opens the device and acquires a session on it. What a failed setup has acquired is given back. -/
def setup (device : String) (direction : Direction) (count : Nat) (reset : Option ResetConfig)
    (card : Card) : Except RunError Session × Card :=
  match card.openDevice device with
  | .error e => (.error (.device e), card)
  | .ok card =>
    let available := card.spec.queueCount direction
    if available < count then
      (.error (.queueOutOfRange direction count available), card.closeDevice)
    else
      match acquire direction count reset card with
      | (.ok (), s, card) => (.ok s, card)
      | (.error e, s, card) => (.error e, s.teardown card)

def pulse (reset : ResetConfig) (s : Session) (card : Card) : Card :=
  s.component.elim card fun component => card.write component reset.address reset.value

end Session

end DmaBurst
