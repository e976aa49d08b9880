import DmaBurst.Io.Sink
import DmaBurst.Io.Source

namespace DmaBurst

def interrupts (period : Option Nat) (calls : Nat) : Bool :=
  period.any fun p => calls % p == 0

def cutTo (chunk : Option Nat) (n : Nat) : Nat :=
  chunk.elim n (min n)

def reached (mark : Option Nat) (position : Nat) : Bool :=
  mark.any (· ≤ position)

/-- A sink in memory that misbehaves on demand: short writes, interruptions, failures from a given
size on. The last piece that was written stands first. -/
structure ScriptedSink where
  chunk : Option Nat := none
  interrupt : Option Nat := none
  failAt : Option Nat := none
  zeroAt : Option Nat := none
  faultAt : Option Nat := none
  flushFails : Bool := false
  calls : Nat := 0
  stored : Nat := 0
  pieces : List Bytes := []
  flushes : Nat := 0
  deriving DecidableEq, Repr

namespace ScriptedSink

def write (bytes : Bytes) (sink : ScriptedSink) : WriteResult × ScriptedSink :=
  let s := { sink with calls := sink.calls + 1 }
  if interrupts s.interrupt s.calls then (.interrupted, s)
  else if reached s.faultAt s.stored then (.fault (.collaborator "sink panicked"), s)
  else if reached s.failAt s.stored then (.failed (.other "disk full"), s)
  else if reached s.zeroAt s.stored then (.wrote 0, s)
  else
    let piece := s.chunk.elim bytes bytes.take
    (.wrote piece.length,
      { s with stored := s.stored + piece.length, pieces := piece :: s.pieces })

def data (s : ScriptedSink) : Bytes :=
  s.pieces.reverse.flatten

def flush (sink : ScriptedSink) : Except (Halt IoError) Unit × ScriptedSink :=
  let s := { sink with flushes := sink.flushes + 1 }
  (if s.flushFails then .error (.refused (.other "flush refused")) else .ok (), s)

end ScriptedSink

instance : ByteSink ScriptedSink where
  write bytes s := s.write bytes
  flush s := s.flush
  patience s := if interrupts s.interrupt (s.calls + 1) then 1 else 0

/-- A stream in memory with short reads, interruptions and a bad place. -/
structure ScriptedReader where
  rest : Bytes
  chunk : Option Nat := none
  interrupt : Option Nat := none
  failAt : Option Nat := none
  calls : Nat := 0
  position : Nat := 0
  deriving DecidableEq, Repr

namespace ScriptedReader

def read (want : Nat) (reader : ScriptedReader) : ReadResult × ScriptedReader :=
  let s := { reader with calls := reader.calls + 1 }
  if interrupts s.interrupt s.calls then (.interrupted, s)
  else if reached s.failAt s.position then (.failed (.other "bad sector"), s)
  else
    let bytes := s.rest.take (cutTo s.chunk want)
    (.data bytes, { s with rest := s.rest.drop bytes.length, position := s.position + bytes.length })

end ScriptedReader

instance : ByteReader ScriptedReader where
  read want s := s.read want
  patience s := if interrupts s.interrupt (s.calls + 1) then 1 else 0

inductive Cue where
  | fill (len : Nat)
  | dry
  | fault
  | fail
  deriving DecidableEq, Repr

/-- A source that plays a list of answers and is dry after the last one. Call `k` fills with the
byte `k`. -/
structure ScriptedSource where
  cues : List Cue
  calls : Nat := 0
  deriving DecidableEq, Repr

namespace ScriptedSource

def next (area : Bytes) (source : ScriptedSource) :
    Except (Halt IoError) (Option Nat) × Bytes × ScriptedSource :=
  let s := { source with cues := source.cues.tail, calls := source.calls + 1 }
  match source.cues.headD .dry with
  | .fill len =>
    let bytes := List.replicate (min len area.length) (UInt8.ofNat s.calls)
    (.ok (some len), Bytes.overlay bytes area, s)
  | .dry => (.ok none, area, s)
  | .fault => (.error (.fault (.collaborator "source panicked")), area, s)
  | .fail => (.error (.refused (.other "source failed")), area, s)

end ScriptedSource

instance : PacketSource ScriptedSource where
  next area s := s.next area

end DmaBurst
