namespace DmaBurst

/-- Receive moves packets from the card to the host, transmit the other way. -/
inductive Direction where
  | rx
  | tx
  deriving DecidableEq, Repr

def Direction.text : Direction → String
  | .rx => "rx"
  | .tx => "tx"

structure QueueId where
  direction : Direction
  index : Nat
  deriving DecidableEq, Repr

def QueueId.text (q : QueueId) : String :=
  q.direction.text ++ toString q.index

inductive IoError where
  | notFound
  | notDirectory
  | isDirectory
  | nameTooLong
  | nulInName
  | notUtf8
  | writeZero
  | other (text : String)
  deriving DecidableEq, Repr

def IoError.message : IoError → String
  | .notFound => "No such file or directory (os error 2)"
  | .notDirectory => "Not a directory (os error 20)"
  | .isDirectory => "Is a directory (os error 21)"
  | .nameTooLong => "File name too long (os error 36)"
  | .nulInName => "file name contained an unexpected NUL byte"
  | .notUtf8 => "stream did not contain valid UTF-8"
  | .writeZero => "failed to write whole buffer"
  | .other text => text

/-- A broken precondition. It ends the operation that met it. -/
inductive Fault where
  | emptyRing
  | outsideReservation (offset reserved : Nat)
  | overPublish (count reserved : Nat)
  | outsideWindow (offset exposed : Nat)
  | overRetire (count exposed : Nat)
  | burstHeld (channel : QueueId)
  | noBurst (channel : QueueId)
  | channelClosed (channel : QueueId)
  | overPut (channel : QueueId) (count granted : Nat)
  | packetOutsideBurst (offset len : Nat)
  | slotOutsideBurst (offset len : Nat)
  | overCommit (count len : Nat)
  | multiplyOverflow
  | subtractOverflow
  | collaborator (text : String)
  deriving DecidableEq, Repr

def Fault.message : Fault → String
  | .emptyRing => "slot ring capacity must be greater than 0"
  | .outsideReservation offset reserved => s!"slot {offset} outside reserved window of {reserved}"
  | .overPublish count reserved => s!"publishing {count} slots of a {reserved}-slot reservation"
  | .outsideWindow offset exposed => s!"slot {offset} outside exposed window of {exposed}"
  | .overRetire count exposed => s!"retiring {count} slots of a {exposed}-slot window"
  | .burstHeld c => s!"{c.text}: {c.direction.text} burst acquired twice without release"
  | .noBurst c => s!"{c.text}: {c.direction.text} burst released without acquire"
  | .channelClosed c => s!"{c.text}: burst operation on a closed channel"
  | .overPut c count granted => s!"{c.text}: committing {count} of {granted} granted slots"
  | .packetOutsideBurst offset len => s!"packet {offset} outside burst of {len}"
  | .slotOutsideBurst offset len => s!"slot {offset} outside burst of {len}"
  | .overCommit count len => s!"committing {count} slots of a {len}-slot burst"
  | .multiplyOverflow => "attempt to multiply with overflow"
  | .subtractOverflow => "attempt to subtract with overflow"
  | .collaborator text => text

/-- Why an operation did not return a value: it was refused, it hit a fault, or it would wait for
ever. -/
inductive Halt (ε : Type) where
  | refused (e : ε)
  | fault (f : Fault)
  | stuck
  deriving DecidableEq, Repr

def Halt.map {ε ε' : Type} (f : ε → ε') : Halt ε → Halt ε'
  | .refused e => .refused (f e)
  | .fault e => .fault e
  | .stuck => .stuck

end DmaBurst
