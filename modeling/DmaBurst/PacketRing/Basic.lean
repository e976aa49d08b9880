import DmaBurst.Fault
import DmaBurst.Slot

namespace DmaBurst

/-- A ring of packet slots between one writer and one reader. `head` is one past the last published
slot and `tail` the oldest unretired one; both count on for ever and wrap at 64 bits. Each side
keeps a copy of the other side's index and the size of the window it works in. -/
structure PacketRing where
  slots : Array Slot
  head : UInt64
  tail : UInt64
  cachedTail : UInt64
  cachedHead : UInt64
  reserved : Nat
  exposed : Nat
  slots_pos : 0 < slots.size

namespace PacketRing

def create (capacity dataSize headerSize : Nat) : Except Fault PacketRing :=
  if h : 0 < capacity then
    .ok {
      slots := Array.replicate capacity (Slot.blank dataSize headerSize)
      head := 0, tail := 0, cachedTail := 0, cachedHead := 0
      reserved := 0, exposed := 0
      slots_pos := by simpa using h }
  else .error .emptyRing

instance : Inhabited PacketRing :=
  ⟨⟨#[default], 0, 0, 0, 0, 0, 0, by simp⟩⟩

def capacity (r : PacketRing) : Nat :=
  r.slots.size

def position (r : PacketRing) (base : UInt64) (offset : Nat) : Nat :=
  (base + UInt64.ofNat offset).toNat % r.slots.size

theorem position_lt (r : PacketRing) (base : UInt64) (offset : Nat) :
    r.position base offset < r.slots.size :=
  Nat.mod_lt _ r.slots_pos

def slotAt (r : PacketRing) (base : UInt64) (offset : Nat) : Slot :=
  have := r.position_lt base offset
  r.slots[r.position base offset]

def modifyAt (base : UInt64) (offset : Nat) (f : Slot → Slot) (r : PacketRing) : PacketRing :=
  { r with
    slots := r.slots.modify (r.position base offset) f
    slots_pos := by simpa using r.slots_pos }

def freeSeeing (r : PacketRing) (seen : UInt64) : Nat :=
  r.capacity - (r.head - seen).toNat

def readySeeing (r : PacketRing) (seen : UInt64) : Nat :=
  (seen - r.tail).toNat

/-- The writer looks at the reader again, and sees `seen`, only when its copy of the index does not
promise `max` free slots. -/
def refreshTail (max : Nat) (seen : UInt64) (r : PacketRing) : PacketRing :=
  if r.freeSeeing r.cachedTail < max then { r with cachedTail := seen } else r

def refreshHead (max : Nat) (seen : UInt64) (r : PacketRing) : PacketRing :=
  if r.readySeeing r.cachedHead < max then { r with cachedHead := seen } else r

def clearAhead (count : Nat) (r : PacketRing) : PacketRing :=
  count.fold (fun k _ r => r.modifyAt r.head k Slot.clear) r

/-- Reserves up to `max` free slots while the reader is seen at `seen`. -/
def reserveSeeing (seen : UInt64) (max : Nat) (r : PacketRing) : Nat × PacketRing :=
  let r := r.refreshTail max seen
  let granted := min (r.freeSeeing r.cachedTail) max
  (granted, { r.clearAhead granted with reserved := granted })

def reserve (max : Nat) (r : PacketRing) : Nat × PacketRing :=
  r.reserveSeeing r.tail max

def reservedSlot (offset : Nat) (r : PacketRing) : Except Fault Slot :=
  if offset < r.reserved then .ok (r.slotAt r.head offset)
  else .error (.outsideReservation offset r.reserved)

def editReserved (offset : Nat) (f : Slot → Slot) (r : PacketRing) : Except Fault PacketRing :=
  if offset < r.reserved then .ok (r.modifyAt r.head offset f)
  else .error (.outsideReservation offset r.reserved)

def replaceReserved (offset : Nat) (slot : Slot) (r : PacketRing) : PacketRing :=
  r.modifyAt r.head offset fun _ => slot

/-- Publishes the first `count` reserved slots and gives up the rest. -/
def publish (count : Nat) (r : PacketRing) : Except Fault PacketRing :=
  if count ≤ r.reserved then
    .ok { r with head := r.head + UInt64.ofNat count, reserved := 0 }
  else .error (.overPublish count r.reserved)

/-- Exposes up to `max` published slots while the writer is seen at `seen`. -/
def peekSeeing (seen : UInt64) (max : Nat) (r : PacketRing) : Nat × PacketRing :=
  let r := r.refreshHead max seen
  let exposed := min (r.readySeeing r.cachedHead) max
  (exposed, { r with exposed })

def peek (max : Nat) (r : PacketRing) : Nat × PacketRing :=
  r.peekSeeing r.head max

def exposedSlot (offset : Nat) (r : PacketRing) : Except Fault Slot :=
  if offset < r.exposed then .ok (r.slotAt r.tail offset)
  else .error (.outsideWindow offset r.exposed)

def retire (count : Nat) (r : PacketRing) : Except Fault PacketRing :=
  if count ≤ r.exposed then
    .ok { r with tail := r.tail + UInt64.ofNat count, exposed := 0 }
  else .error (.overRetire count r.exposed)

/-- Publishes one packet, cut to the slot; `false` when no slot is free. -/
def push (data header : Bytes) (flags : UInt16) (r : PacketRing) : Bool × PacketRing :=
  match r.reserve 1 with
  | (0, r) => (false, r)
  | (_ + 1, r) =>
    let r := r.modifyAt r.head 0 (Slot.load data header flags)
    (true, { r with head := r.head + 1, reserved := 0 })

def pop (r : PacketRing) : Option Packet × PacketRing :=
  match r.peek 1 with
  | (0, r) => (none, r)
  | (_ + 1, r) =>
    (some (r.slotAt r.tail 0).packet, { r with tail := r.tail + 1, exposed := 0 })

def occupied (r : PacketRing) : Nat :=
  r.readySeeing r.head

def popAtMost : Nat → PacketRing → List Packet × PacketRing
  | 0, r => ([], r)
  | fuel + 1, r =>
    match r.pop with
    | (none, r) => ([], r)
    | (some p, r) =>
      let (ps, r) := r.popAtMost fuel
      (p :: ps, r)

def drain (r : PacketRing) : List Packet × PacketRing :=
  r.popAtMost (r.occupied + 1)

def contents (r : PacketRing) : List Packet :=
  (List.range r.occupied).map fun k => (r.slotAt r.tail k).packet

end PacketRing

end DmaBurst
