import DmaBurst.Text.Basic
import DmaBurst.Text.Quoted

namespace DmaBurst

inductive BackoffPolicy where
  | spin
  | yield
  | sleep (micros : UInt64)
  | exponential (maxMicros : UInt64)
  deriving DecidableEq, Repr

namespace BackoffPolicy

def text : BackoffPolicy → String
  | .spin => "spin"
  | .yield => "yield"
  | .sleep micros => s!"sleep:{micros.toNat}"
  | .exponential maxMicros => s!"exp:{maxMicros.toNat}"

def micros? (s : List Char) : Option UInt64 :=
  (Text.unsigned? UInt64.size s).map UInt64.ofNat

/-- Reads `spin`, `yield`, `sleep:` or `exp:` with a number of microseconds. The keyword ends at the
first colon. -/
def parse? (s : String) : Option BackoffPolicy :=
  let (keyword, rest) := s.toList.span (· ≠ ':')
  match String.ofList keyword, rest with
  | "spin", [] => some .spin
  | "yield", [] => some .yield
  | "sleep", _ :: micros => .sleep <$> micros? micros
  | "exp", _ :: micros => .exponential <$> micros? micros
  | _, _ => none

def parseRefusal (s : String) : String :=
  s!"invalid backoff {Text.quoted s} (expected spin, yield, sleep:<us> or exp:<max-us>)"

end BackoffPolicy

/-- A policy at work. `current` is the next exponential sleep, in microseconds. -/
structure Backoff where
  policy : BackoffPolicy
  current : Nat := 1
  deriving DecidableEq, Repr

namespace Backoff

/-- The longest sleep of an exponential policy is at least one microsecond. -/
def ceiling (maxMicros : UInt64) : Nat :=
  max maxMicros.toNat 1

/-- Microseconds that the next idle call sleeps. -/
def pause (b : Backoff) : Nat :=
  match b.policy with
  | .spin | .yield => 0
  | .sleep micros => micros.toNat
  | .exponential maxMicros => min b.current (ceiling maxMicros)

def idle (b : Backoff) : Backoff :=
  match b.policy with
  | .exponential maxMicros => { b with current := min (b.current * 2) (ceiling maxMicros) }
  | _ => b

def reset (b : Backoff) : Backoff :=
  { b with current := 1 }

end Backoff

end DmaBurst
