import DmaBurst.Card.Error
import DmaBurst.PacketRing.Basic

namespace DmaBurst

/-- Compatible string of the component that receives the reset pulse unless another is named. -/
def defaultResetTarget : String :=
  "ziti,minimal,multicore_debug_core"

/-- What a card is built like, and which of its queues fail. -/
structure CardSpec where
  identifier : String := "0"
  rxQueues : Nat
  txQueues : Nat
  ringCapacity : Nat := 1024
  capacityOverrides : List (QueueId × Nat) := []
  slotSize : Nat := 2048
  headerSize : Nat := 0
  components : List String := [defaultResetTarget]
  registersPerComponent : Nat := 16
  refusesOpen : List QueueId := []
  refusesStart : List QueueId := []
  deriving DecidableEq, Repr

namespace CardSpec

def queueCount (s : CardSpec) : Direction → Nat
  | .rx => s.rxQueues
  | .tx => s.txQueues

/-- Of several overrides for one queue the last one counts. -/
def capacityOf (s : CardSpec) (q : QueueId) : Nat :=
  (s.capacityOverrides.reverse.lookup q).getD s.ringCapacity

end CardSpec

inductive Event where
  | deviceOpened
  | componentOpened (offset : Nat)
  | queueOpened (queue : QueueId)
  | queueStarted (queue : QueueId)
  | queueStopped (queue : QueueId)
  | queueClosed (queue : QueueId)
  | registerWrite (offset : Nat) (addr value : UInt32)
  | componentClosed (offset : Nat)
  | deviceClosed
  deriving DecidableEq, Repr

/-- One queue of the card: its ring, and whether the driver's and the hardware's end are taken. -/
structure Line where
  ring : PacketRing
  bound : Bool := false
  endTaken : Bool := false
  deriving Inhabited

structure Card where
  spec : CardSpec
  rx : Array Line
  tx : Array Line
  registers : Array (Array UInt32)
  events : Array Event
  deviceOpen : Bool

namespace Card

def createLines (spec : CardSpec) (direction : Direction) : Except Fault (List Line) :=
  (List.range (spec.queueCount direction)).mapM fun index => do
    let capacity := spec.capacityOf ⟨direction, index⟩
    return { ring := ← PacketRing.create capacity spec.slotSize spec.headerSize }

def create (spec : CardSpec) : Except Fault Card := do
  let rx ← createLines spec .rx
  let tx ← createLines spec .tx
  let file := Array.replicate spec.registersPerComponent 0
  return {
    spec, rx := rx.toArray, tx := tx.toArray
    registers := Array.replicate spec.components.length file
    events := #[], deviceOpen := false }

def journal (card : Card) : List Event :=
  card.events.toList

def record (e : Event) (card : Card) : Card :=
  { card with events := card.events.push e }

theorem journal_record (e : Event) (card : Card) :
    (card.record e).journal = card.journal ++ [e] := by
  simp only [journal, record, Array.toList_push]

def lines (card : Card) : Direction → Array Line
  | .rx => card.rx
  | .tx => card.tx

def line? (card : Card) (q : QueueId) : Option Line :=
  (card.lines q.direction)[q.index]?

/-- Takes entry `index` out and leaves a blank one, so that the array does not share what is
worked on. -/
@[noinline]
def detach (index : Nat) (lines : Array Line) : Line × Array Line :=
  if h : index < lines.size then (lines[index], lines.set index default) else (default, lines)

/-- Lends entry `index` to `f` and puts back what `f` makes of it. -/
def lend {α : Type} (index : Nat) (f : Line → α × Line) (lines : Array Line) : α × Array Line :=
  let (line, rest) := detach index lines
  let (a, line) := f line
  (a, rest.setIfInBounds index line)

def withLine {α : Type} (q : QueueId) (f : Line → α × Line) (card : Card) : α × Card :=
  match q.direction with
  | .rx =>
    let { spec, rx, tx, registers, events, deviceOpen } := card
    let (a, rx) := lend q.index f rx
    (a, { spec, rx, tx, registers, events, deviceOpen })
  | .tx =>
    let { spec, rx, tx, registers, events, deviceOpen } := card
    let (a, tx) := lend q.index f tx
    (a, { spec, rx, tx, registers, events, deviceOpen })

def withRing {α : Type} (q : QueueId) (f : PacketRing → α × PacketRing) (card : Card) : α × Card :=
  card.withLine q fun { ring, bound, endTaken } =>
    let (a, ring) := f ring
    (a, { ring, bound, endTaken })

def setBound (q : QueueId) (bound : Bool) (card : Card) : Card :=
  (card.withLine q fun line => ((), { line with bound })).2

def openDevice (identifier : String) (card : Card) : Except DeviceError Card :=
  if identifier ≠ card.spec.identifier then
    .error (.unavailable (.device identifier) .noSuchDevice)
  else if card.deviceOpen then .error (.unavailable (.device identifier) .alreadyOpen)
  else .ok ({ card with deviceOpen := true }.record .deviceOpened)

def closeDevice (card : Card) : Card :=
  { card.record .deviceClosed with deviceOpen := false }

/-- The hardware's end of a queue can be taken once. -/
def takeEnd (q : QueueId) (card : Card) : Option Card := do
  let line ← card.line? q
  if line.endTaken then none
  else some (card.withLine q fun line => ((), { line with endTaken := true })).2

/-- Delivers one packet from the hardware; `false` when the ring is full. -/
def push (q : QueueId) (data header : Bytes) (flags : UInt16) (card : Card) : Bool × Card :=
  card.withRing q (·.push data header flags)

def pop (q : QueueId) (card : Card) : Option Packet × Card :=
  card.withRing q (·.pop)

def drain (q : QueueId) (card : Card) : List Packet × Card :=
  card.withRing q (·.drain)

end Card

end DmaBurst
