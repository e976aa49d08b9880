import DmaBurst.Bytes
import DmaBurst.Fault

namespace DmaBurst

inductive WriteResult where
  | wrote (count : Nat)
  | interrupted
  | failed (e : IoError)
  | fault (f : Fault)
  deriving DecidableEq, Repr

/-- Where received payloads go. `patience` bounds the interruptions that may follow one another
before the sink takes a byte or fails. -/
class ByteSink (σ : Type) where
  write : Bytes → σ → WriteResult × σ
  flush : σ → Except (Halt IoError) Unit × σ
  patience : σ → Nat

variable {σ : Type} [ByteSink σ]

/-- Writes until every byte is taken. An interruption is retried as long as it uses up patience; a
sink that is interrupted without end leaves the writer stuck. -/
def writeAll (bytes : Bytes) (s : σ) : Except (Halt IoError) Unit × σ :=
  match bytes with
  | [] => (.ok (), s)
  | b :: rest =>
    match ByteSink.write (b :: rest) s with
    | (.wrote 0, t) => (.error (.refused .writeZero), t)
    | (.wrote (n + 1), t) => writeAll (rest.drop n) t
    | (.interrupted, t) =>
      if ByteSink.patience t < ByteSink.patience s then writeAll (b :: rest) t
      else (.error .stuck, t)
    | (.failed e, t) => (.error (.refused e), t)
    | (.fault f, t) => (.error (.fault f), t)
termination_by (bytes.length, ByteSink.patience s)
decreasing_by
  · left
    simp only [List.length_drop, List.length_cons]
    omega
  · right; assumption

end DmaBurst
