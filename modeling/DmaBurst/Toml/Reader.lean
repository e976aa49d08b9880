namespace DmaBurst.Toml

abbrev Reader := StateT (List Char) Option

namespace Reader

def peek : Reader (Option Char) := do
  return (← get).head?

def char : Reader Char
  | [] => none
  | c :: cs => some (c, cs)

def accept (s : String) : Reader Bool := fun cs =>
  if s.toList.isPrefixOf cs then some (true, cs.drop s.length) else some (false, cs)

def expect (s : String) : Reader Unit := do
  guard (← accept s)

def spanOf (p : Char → Bool) : Reader (List Char) := fun cs =>
  some (cs.takeWhile p, cs.dropWhile p)

def many1 (p : Char → Bool) : Reader (List Char) := do
  let cs ← spanOf p
  guard (cs ≠ [])
  return cs

/-- Repeats a step until it returns nothing, at most once for each character of a text and once at
its end. -/
def repeatAlong {α : Type} (step : Reader (Option α)) : List Char → Reader (List α)
  | [] => do return (← step).toList
  | _ :: text => do
    match ← step with
    | none => pure []
    | some a => return a :: (← repeatAlong step text)

def repeated {α : Type} (step : Reader (Option α)) : Reader (List α) := do
  repeatAlong step (← get)

end Reader

def isBlank (c : Char) : Bool :=
  c == ' ' || c == '\t'

/-- Characters of comments and strings: no control but the tab. -/
def isText (c : Char) : Bool :=
  c == '\t' || ' ' ≤ c && c ≠ '\x7f'

def skipBlanks : Reader Unit := do
  let _ ← Reader.spanOf isBlank

def newline : Reader Bool := do
  if ← Reader.accept "\n" then return true
  Reader.accept "\r\n"

def skipComment : Reader Unit := do
  if (← Reader.peek) = some '#' then
    let _ ← Reader.spanOf isText

def lineEnd : Reader Unit := do
  skipBlanks
  skipComment
  unless ← newline do
    guard ((← Reader.peek) = none)

def skipLayout : Reader Unit := do
  let _ ← Reader.repeated do
    skipBlanks
    skipComment
    return if ← newline then some () else none

end DmaBurst.Toml
