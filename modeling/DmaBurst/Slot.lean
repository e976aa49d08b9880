import DmaBurst.Bytes

namespace DmaBurst

structure Packet where
  data : Bytes
  header : Bytes
  flags : UInt16
  deriving DecidableEq, Repr

structure TooLarge where
  len : Nat
  max : Nat
  deriving DecidableEq, Repr

def TooLarge.message (e : TooLarge) : String :=
  s!"length of {e.len} bytes exceeds slot size of {e.max}"

/-- One packet slot: two fixed areas, and how much of each is valid. -/
structure Slot where
  data : Bytes
  dataLen : Nat
  header : Bytes
  headerLen : Nat
  flags : UInt16
  deriving DecidableEq, Repr, Inhabited

namespace Slot

def blank (dataSize headerSize : Nat) : Slot :=
  ⟨List.replicate dataSize 0, 0, List.replicate headerSize 0, 0, 0⟩

/-- Forgets lengths and flags; the bytes stay. -/
def clear (s : Slot) : Slot :=
  { s with dataLen := 0, headerLen := 0, flags := 0 }

def payload (s : Slot) : Bytes :=
  s.data.take s.dataLen

def metadata (s : Slot) : Bytes :=
  s.header.take s.headerLen

def packet (s : Slot) : Packet :=
  ⟨s.payload, s.metadata, s.flags⟩

def copyData (bytes : Bytes) (s : Slot) : Slot :=
  { s with data := Bytes.overlay bytes s.data }

def copyHeader (bytes : Bytes) (s : Slot) : Slot :=
  { s with header := Bytes.overlay bytes s.header }

def clampDataLen (len : Nat) (s : Slot) : Slot :=
  { s with dataLen := min len s.data.length }

def clampHeaderLen (len : Nat) (s : Slot) : Slot :=
  { s with headerLen := min len s.header.length }

def setFlags (flags : UInt16) (s : Slot) : Slot :=
  { s with flags }

def load (data header : Bytes) (flags : UInt16) (s : Slot) : Slot :=
  s |>.copyData data |>.clampDataLen data.length
    |>.copyHeader header |>.clampHeaderLen header.length |>.setFlags flags

def setDataLen (len : Nat) (s : Slot) : Except TooLarge Slot :=
  if len ≤ s.data.length then .ok { s with dataLen := len }
  else .error ⟨len, s.data.length⟩

def write (bytes : Bytes) (s : Slot) : Except TooLarge Slot :=
  (·.copyData bytes) <$> s.setDataLen bytes.length

def writeHeader (bytes : Bytes) (s : Slot) : Except TooLarge Slot :=
  if bytes.length ≤ s.header.length then
    .ok { s.copyHeader bytes with headerLen := bytes.length }
  else .error ⟨bytes.length, s.header.length⟩

end Slot

end DmaBurst
