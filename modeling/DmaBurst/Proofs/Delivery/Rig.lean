import DmaBurst.Proofs.Queue.Burst
import DmaBurst.Proofs.Queue.Lifecycle

namespace DmaBurst

/-- A queue in the hands of a driver, and the size of the burst that it holds on it. Closing stands
also for dropping the queue: nothing more comes of it. -/
structure Handle where
  queue : Queue
  burst : Option Nat := none

/-- What a driver can do with a queue. The burst that is held can be given up in the middle of its
use, as when the use fails; `edit` is for the slots of a transmit burst. -/
inductive HandleOp where
  | start
  | stop
  | close
  | acquire (max : Nat)
  | edit (offset : Nat) (change : SlotEdit)
  | release
  | commit (count : Nat)
  | abandon

namespace Handle

def finish (f : Queue → PacketRing → Except Fault Unit × Queue × PacketRing) (q : Queue)
    (card : Card) : Handle × Card :=
  let (queue, card) := card.withRing q.channel.id fun r => (f q r).2
  (⟨queue, none⟩, card)

/-- A queue that has lent a burst is out of reach until the burst is over, and without a burst there
is nothing to edit or to end: what cannot be written changes nothing. -/
def act : HandleOp → Handle → Card → Handle × Card
  | .start, ⟨q, none⟩, card =>
    match q.start card with
    | .ok (q, card) => (⟨q, none⟩, card)
    | .error _ => (⟨q, none⟩, card)
  | .stop, ⟨q, none⟩, card => (⟨(q.stop card).1, none⟩, (q.stop card).2)
  | .close, ⟨q, none⟩, card => (⟨(q.close card).1, none⟩, (q.close card).2)
  | .acquire max, ⟨q, none⟩, card =>
    let ((answer, q), card) := card.withRing q.channel.id fun r =>
      let (answer, q, r) := q.acquire max r
      ((answer, q), r)
    (⟨q, answer.toOption⟩, card)
  | .edit offset change, ⟨q, some len⟩, card =>
    if q.channel.id.direction = .tx then
      (⟨q, some len⟩, (card.withRing q.channel.id fun r =>
        ((), (q.editSlot len offset change.apply r).toOption.getD r)).2)
    else (⟨q, some len⟩, card)
  | .release, ⟨q, some len⟩, card => finish (Queue.release len) q card
  | .commit count, ⟨q, some len⟩, card =>
    if q.channel.id.direction = .tx then finish (Queue.commit len count) q card
    else (⟨q, some len⟩, card)
  | .abandon, ⟨q, some len⟩, card => finish (Queue.abandon len) q card
  | _, h, card => (h, card)

/-- The first `count` entries of the burst that is held, as its holder sees them. -/
def view (count : Nat) (h : Handle) (card : Card) : List Packet :=
  match h.burst, card.ring? h.queue.channel.id with
  | some len, some r => (List.range count).filterMap fun k => (h.queue.visible len k r).toOption
  | _, _ => []

def sent (op : HandleOp) (h : Handle) (card : Card) : List Packet :=
  match h.queue.channel.id.direction, op, h.burst with
  | .tx, .release, some len => h.view len card
  | .tx, .commit count, some len => if count ≤ len then h.view count card else []
  | _, _, _ => []

def received (op : HandleOp) (h : Handle) (card : Card) : List Packet :=
  match h.queue.channel.id.direction, op, h.burst with
  | .rx, .release, some len => h.view len card
  | .rx, .abandon, some len => h.view len card
  | _, _, _ => []

def Owns (q : QueueId) (h : Handle) : Prop :=
  h.queue.channel.id = q ∧ h.queue.channel.bound = true

end Handle

/-- A card, and the queues that drivers hold under names of their own. -/
structure Rig where
  card : Card
  handles : Nat → Option Handle := fun _ => none

/-- What can happen: drivers open the device and its queues and work with them; the hardware
delivers to receive rings and takes from transmit rings. -/
inductive RigOp where
  | openDevice (identifier : String)
  | closeDevice
  | openQueue (name : Nat) (q : QueueId)
  | onQueue (name : Nat) (op : HandleOp)
  | push (index : Nat) (data header : Bytes) (flags : UInt16)
  | pop (index : Nat)
  | drain (index : Nat)

namespace Rig

def ofCard (card : Card) : Rig :=
  { card }

def step : RigOp → Rig → Rig
  | .openDevice identifier, rig =>
    { rig with card := (rig.card.openDevice identifier).toOption.getD rig.card }
  | .closeDevice, rig => { rig with card := rig.card.closeDevice }
  | .openQueue name q, rig =>
    match rig.handles name, Queue.openOn q rig.card with
    | none, .ok (queue, card) =>
      { card, handles := Function.update rig.handles name (some ⟨queue, none⟩) }
    | _, _ => rig
  | .onQueue name op, rig =>
    match rig.handles name with
    | none => rig
    | some h =>
      let (h, card) := h.act op rig.card
      { card, handles := Function.update rig.handles name (some h) }
  | .push index data header flags, rig =>
    { rig with card := (rig.card.push ⟨.rx, index⟩ data header flags).2 }
  | .pop index, rig => { rig with card := (rig.card.pop ⟨.tx, index⟩).2 }
  | .drain index, rig => { rig with card := (rig.card.drain ⟨.tx, index⟩).2 }

/-- The packets that enter queue `q`: those that the hardware delivers with success, cut to the
slots, and the slots that drivers send. -/
def entering (q : QueueId) : RigOp → Rig → List Packet
  | .push index data header flags, rig =>
    if q = ⟨.rx, index⟩ ∧ (rig.card.push q data header flags).1 then
      [⟨data.take rig.card.spec.slotSize, header.take rig.card.spec.headerSize, flags⟩]
    else []
  | .onQueue name op, rig =>
    match rig.handles name with
    | none => []
    | some h => if h.queue.channel.id = q then h.sent op rig.card else []
  | _, _ => []

/-- The packets that leave queue `q`: those of bursts that end, and those that the hardware takes. -/
def leaving (q : QueueId) : RigOp → Rig → List Packet
  | .pop index, rig => if q = ⟨.tx, index⟩ then (rig.card.pop q).1.toList else []
  | .drain index, rig => if q = ⟨.tx, index⟩ then (rig.card.drain q).1 else []
  | .onQueue name op, rig =>
    match rig.handles name with
    | none => []
    | some h => if h.queue.channel.id = q then h.received op rig.card else []
  | _, _ => []

def run : List RigOp → Rig → Rig
  | [], rig => rig
  | op :: ops, rig => run ops (step op rig)

def entered (q : QueueId) : List RigOp → Rig → List Packet
  | [], _ => []
  | op :: ops, rig => entering q op rig ++ entered q ops (step op rig)

def left (q : QueueId) : List RigOp → Rig → List Packet
  | [], _ => []
  | op :: ops, rig => leaving q op rig ++ left q ops (step op rig)

def lent (q : QueueId) (rig : Rig) : Nat :=
  (rig.card.ring? q).elim 0 (·.reserved)

/-- How many slots of queue `q` have been filled or lent to be filled at most, counting all that
have entered and those lent at the time. -/
def handedOut (q : QueueId) : List RigOp → Rig → Nat
  | [], rig => rig.lent q
  | op :: ops, rig => max (rig.lent q) ((entering q op rig).length + handedOut q ops (step op rig))

end Rig

/-- Whether an operation edits or ends the burst that is held under this name. -/
def RigOp.touches (name : Nat) : RigOp → Bool
  | .onQueue other (.edit ..) => other == name
  | .onQueue other .release => other == name
  | .onQueue other (.commit _) => other == name
  | .onQueue other .abandon => other == name
  | _ => false

end DmaBurst
