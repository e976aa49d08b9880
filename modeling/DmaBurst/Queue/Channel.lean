import DmaBurst.Card.Basic

namespace DmaBurst

/-- The driver's end of one queue. It is bound until it is closed, and its window is the size of
the burst that is lent out. -/
structure Channel where
  id : QueueId
  bound : Bool := true
  started : Bool := false
  window : Option Nat := none
  deriving DecidableEq, Repr

def Card.bindRefusal (q : QueueId) (card : Card) : Option Denial :=
  if card.spec.queueCount q.direction ≤ q.index then
    some (.tooFewQueues (card.spec.queueCount q.direction) q.direction)
  else if q ∈ card.spec.refusesOpen then some .openRefused
  else if (card.line? q).any (·.bound) then some .alreadyBound
  else none

def Card.bindChannel (q : QueueId) (card : Card) : Except DeviceError (Channel × Card) :=
  match card.bindRefusal q with
  | some reason => .error (.unavailable (.queue q) reason)
  | none => .ok ({ id := q }, (card.setBound q true).record (.queueOpened q))

namespace Channel

def start (c : Channel) (card : Card) : Except DeviceError (Channel × Card) :=
  if c.id ∈ card.spec.refusesStart then .error (.activationFailed c.id)
  else .ok ({ c with started := true }, card.record (.queueStarted c.id))

def stop (c : Channel) (card : Card) : Channel × Card :=
  if c.started then ({ c with started := false }, card.record (.queueStopped c.id))
  else (c, card)

def close (c : Channel) (card : Card) : Channel × Card :=
  let (c, card) := c.stop card
  if c.bound then
    ({ c with bound := false }, (card.setBound c.id false).record (.queueClosed c.id))
  else (c, card)

/-- Starts a burst of up to `max` packets, or of `max` free slots, and returns its size. -/
def get (max : Nat) (c : Channel) (r : PacketRing) : Except Fault Nat × Channel × PacketRing :=
  if c.window.isSome then (.error (.burstHeld c.id), c, r)
  else if !c.bound then (.error (.channelClosed c.id), c, r)
  else
    let (count, r) := match c.id.direction with
      | .rx => r.peek max
      | .tx => r.reserve max
    (.ok count, { c with window := some count }, r)

def packet (offset : Nat) (c : Channel) (r : PacketRing) : Except Fault Packet :=
  if c.bound then Slot.packet <$> r.exposedSlot offset else .error (.channelClosed c.id)

def slot (offset : Nat) (c : Channel) (r : PacketRing) : Except Fault Slot :=
  if c.bound then r.reservedSlot offset else .error (.channelClosed c.id)

def editSlot (offset : Nat) (f : Slot → Slot) (c : Channel) (r : PacketRing) :
    Except Fault PacketRing :=
  if c.bound then r.editReserved offset f else .error (.channelClosed c.id)

/-- Hands back `count` slots of a burst of `granted`: received ones go back to the hardware, filled
ones are sent. -/
def settle (count granted : Nat) (c : Channel) (r : PacketRing) : Except Fault PacketRing :=
  match c.id.direction with
  | .rx => if c.bound then r.retire granted else .error (.channelClosed c.id)
  | .tx =>
    if granted < count then .error (.overPut c.id count granted)
    else if c.bound then r.publish count
    else .error (.channelClosed c.id)

/-- Ends the current burst. The window is given up before anything can fail. A receive channel
returns the whole burst, whatever the count. -/
def put (count : Nat) (c : Channel) (r : PacketRing) : Except Fault Unit × Channel × PacketRing :=
  match c.window with
  | none => (.error (.noBurst c.id), c, r)
  | some granted =>
    let c := { c with window := none }
    match c.settle count granted r with
    | .ok r => (.ok (), c, r)
    | .error e => (.error e, c, r)

end Channel

end DmaBurst
