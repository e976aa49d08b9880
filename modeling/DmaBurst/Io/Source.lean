import DmaBurst.Bytes
import DmaBurst.Fault

namespace DmaBurst

/-- Where transmitted payloads come from. A source works on the whole payload area of a slot and
leaves it changed; its answer is the length of the packet, or nothing once it has run dry. -/
class PacketSource (σ : Type) where
  next : Bytes → σ → Except (Halt IoError) (Option Nat) × Bytes × σ

instance {α β : Type} [PacketSource α] [PacketSource β] : PacketSource (α ⊕ β) where
  next area
    | .inl a => let (answer, area, a) := PacketSource.next area a; (answer, area, .inl a)
    | .inr b => let (answer, area, b) := PacketSource.next area b; (answer, area, .inr b)

/-- Zero-filled packets of one length, marked as frames of the internet protocol. -/
structure PatternSource where
  packetLen : Nat
  remaining : Option Nat := none
  deriving DecidableEq, Repr

namespace PatternSource

/-- The low byte of the type field of a frame. -/
def markerOffset : Nat := 13

def marker : UInt8 := 8

def payload (len : Nat) : Bytes :=
  (List.replicate len 0).set markerOffset marker

def next (area : Bytes) (s : PatternSource) : Option Nat × Bytes × PatternSource :=
  if s.remaining = some 0 then (none, area, s)
  else
    let len := min s.packetLen area.length
    (some len, Bytes.overlay (payload len) area, { s with remaining := s.remaining.map (· - 1) })

end PatternSource

instance : PacketSource PatternSource where
  next area s := let (len, area, s) := s.next area; (.ok len, area, s)

/-- What one read returned; no bytes mean the end of the stream. -/
inductive ReadResult where
  | data (bytes : Bytes)
  | interrupted
  | failed (e : IoError)
  deriving DecidableEq, Repr

/-- A byte stream. `patience` bounds the interruptions that may follow one another. -/
class ByteReader (ρ : Type) where
  read : Nat → ρ → ReadResult × ρ
  patience : ρ → Nat

variable {ρ : Type} [ByteReader ρ]

/-- Reads until `want` bytes are there or the stream ends. The bytes read so far are returned with a
failure too. -/
def gather (want : Nat) (s : ρ) : Except (Halt IoError) Unit × Bytes × ρ :=
  if want = 0 then (.ok (), [], s)
  else
    match ByteReader.read want s with
    | (.data [], t) => (.ok (), [], t)
    | (.data (b :: bytes), t) =>
      let piece := b :: bytes.take (want - 1)
      let (answer, more, t) := gather (want - piece.length) t
      (answer, piece ++ more, t)
    | (.interrupted, t) =>
      if ByteReader.patience t < ByteReader.patience s then gather want t
      else (.error .stuck, [], t)
    | (.failed e, t) => (.error (.refused e), [], t)
termination_by (want, ByteReader.patience s)
decreasing_by
  · left
    simp only [List.length_cons]
    omega
  · right; assumption

/-- Cuts a stream into packets of `packetLen` bytes; the last one may be shorter. -/
structure ReaderSource (ρ : Type) where
  reader : ρ
  packetLen : Nat
  deriving DecidableEq, Repr

namespace ReaderSource

def next (area : Bytes) (s : ReaderSource ρ) :
    Except (Halt IoError) (Option Nat) × Bytes × ReaderSource ρ :=
  let (answer, bytes, reader) := gather (min s.packetLen area.length) s.reader
  let len := if bytes.isEmpty then none else some bytes.length
  (answer.map fun _ => len, Bytes.overlay bytes area, { s with reader })

end ReaderSource

instance : PacketSource (ReaderSource ρ) where
  next area s := s.next area

end DmaBurst
