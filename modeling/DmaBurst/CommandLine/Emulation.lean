import DmaBurst.CommandLine.Options
import DmaBurst.Run.Drive

namespace DmaBurst.CommandLine

/-- The hardware side of a receive queue: how many packets it has delivered, and how many are
left. -/
structure Feed where
  queue : Nat
  packetLen : Nat
  delivered : Nat := 0
  left : Nat
  deriving DecidableEq, Repr

namespace Feed

/-- Packet `seq` is filled with the queue's index and starts with its own number. -/
def payload (queue packetLen seq : Nat) : Bytes :=
  Bytes.overlay (Bytes.littleEndian seq) (List.replicate packetLen (UInt8.ofNat queue))

def deliver (queue packetLen : Nat) : (left delivered : Nat) → Card → Feed × Card
  | 0, delivered, card => ({ queue, packetLen, delivered, left := 0 }, card)
  | left + 1, delivered, card =>
    match card.push ⟨.rx, queue⟩ (payload queue packetLen delivered) [] 0 with
    | (true, card) => deliver queue packetLen left (delivered + 1) card
    | (false, card) => ({ queue, packetLen, delivered, left := left + 1 }, card)

def act (f : Feed) (card : Card) : Feed × Card :=
  deliver f.queue f.packetLen f.left f.delivered card

def actAll : List Feed → Card → List Feed × Card
  | [], card => ([], card)
  | f :: fs, card =>
    let (f, card) := f.act card
    let (fs, card) := actAll fs card
    (f :: fs, card)

end Feed

instance : Hardware (List Feed) where
  act := Feed.actAll

/-- The hardware side of the transmit queues: it takes off whatever was sent. -/
structure Drain where
  queues : Nat
  deriving DecidableEq, Repr

instance : Hardware Drain where
  act d card := (d, d.queues.fold (fun index _ card => (card.drain ⟨.tx, index⟩).2) card)

def feeds (e : Emulation) (budgets : List Int) : List Feed :=
  budgets.zipIdx.map fun (budget, queue) =>
    { queue, packetLen := e.rxPacketLen, left := budget.toNat - e.withhold }

def minSlotSize : Nat := 2048

def rxSpec (s : Settings) : CardSpec where
  identifier := s.config.device
  rxQueues := s.config.rx.queueCount
  txQueues := 0
  ringCapacity := s.emulation.ringCapacity
  slotSize := max minSlotSize s.emulation.rxPacketLen

def txSpec (s : Settings) : CardSpec where
  identifier := s.config.device
  rxQueues := 0
  txQueues := s.config.tx.queues
  ringCapacity := s.emulation.ringCapacity
  slotSize := max minSlotSize s.config.tx.packetLen

end DmaBurst.CommandLine
