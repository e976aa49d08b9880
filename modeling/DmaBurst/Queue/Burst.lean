import DmaBurst.Queue.Basic

namespace DmaBurst.Queue

def acquire (capacity : Nat) (q : Queue) (r : PacketRing) :
    Except (Halt QueueError) Nat × Queue × PacketRing :=
  if q.state = .started then
    match q.channel.get capacity r with
    | (.error f, channel, r) => (.error (.fault f), { q with channel }, r)
    | (.ok len, channel, r) =>
      (.ok len, { q with channel, stats := q.stats.countAcquire capacity len }, r)
  else
    (.error (.refused (.protocolViolation q.id (.acquire q.channel.id.direction) q.state)), q, r)

def packet (len offset : Nat) (q : Queue) (r : PacketRing) : Except Fault Packet :=
  if offset < len then q.channel.packet offset r else .error (.packetOutsideBurst offset len)

def slot (len offset : Nat) (q : Queue) (r : PacketRing) : Except Fault Slot :=
  if offset < len then q.channel.slot offset r else .error (.slotOutsideBurst offset len)

def editSlot (len offset : Nat) (f : Slot → Slot) (q : Queue) (r : PacketRing) :
    Except Fault PacketRing :=
  if offset < len then q.channel.editSlot offset f r else .error (.slotOutsideBurst offset len)

def lengthAt (offset : Nat) (q : Queue) (r : PacketRing) : Except Fault Nat :=
  match q.channel.id.direction with
  | .rx => (·.data.length) <$> q.channel.packet offset r
  | .tx => (·.dataLen) <$> q.channel.slot offset r

def bytesOf (count : Nat) (q : Queue) (r : PacketRing) : Except Fault Nat :=
  (List.range count).foldlM (fun sum offset => (sum + ·) <$> q.lengthAt offset r) 0

def put (count : Nat) (q : Queue) (r : PacketRing) : Except Fault Unit × Queue × PacketRing :=
  match q.bytesOf count r with
  | .error f => (.error f, q, r)
  | .ok bytes =>
    match q.channel.put count r with
    | (.error f, channel, r) => (.error f, { q with channel }, r)
    | (.ok (), channel, r) =>
      (.ok (), { q with channel, stats := q.stats.countRelease count bytes }, r)

/-- Sends the first `count` slots of a burst of `len`. A count beyond the burst is a fault, and the
slots go back unused. -/
def commit (len count : Nat) (q : Queue) (r : PacketRing) :
    Except Fault Unit × Queue × PacketRing :=
  if count ≤ len then q.put count r
  else
    let (_, q, r) := q.put 0 r
    (.error (.overCommit count len), q, r)

/-- Ends a burst of `len` that is given up: a receive burst goes back read, transmit slots go back
unused. -/
def abandon (len : Nat) (q : Queue) (r : PacketRing) : Except Fault Unit × Queue × PacketRing :=
  match q.channel.id.direction with
  | .rx => q.put len r
  | .tx => q.put 0 r

def release (len : Nat) (q : Queue) (r : PacketRing) : Except Fault Unit × Queue × PacketRing :=
  q.put len r

end DmaBurst.Queue
