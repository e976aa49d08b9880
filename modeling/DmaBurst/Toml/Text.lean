import DmaBurst.Toml.Reader

namespace DmaBurst.Toml

def isHexDigit (c : Char) : Bool :=
  '0' ≤ c && c ≤ '9' || 'a' ≤ c && c ≤ 'f' || 'A' ≤ c && c ≤ 'F'

def hexDigitValue (c : Char) : Nat :=
  if c ≤ '9' then c.toNat - '0'.toNat
  else if c ≤ 'F' then c.toNat - 'A'.toNat + 10
  else c.toNat - 'a'.toNat + 10

def valueIn (base : Nat) (digits : List Char) : Nat :=
  digits.foldl (fun n c => base * n + hexDigitValue c) 0

def codePoint (width : Nat) : Reader Char := fun cs =>
  let digits := cs.take width
  let n := valueIn 16 digits
  if digits.length = width ∧ digits.all isHexDigit ∧ n.isValidChar then
    some (Char.ofNat n, cs.drop width)
  else none

def escape : Reader Char := do
  match ← Reader.char with
  | 'b' => return '\x08'
  | 't' => return '\t'
  | 'n' => return '\n'
  | 'f' => return '\x0c'
  | 'r' => return '\r'
  | '"' => return '"'
  | '\\' => return '\\'
  | 'u' => codePoint 4
  | 'U' => codePoint 8
  | _ => failure

def plainChar (quote : Char) : Reader (Option Char) := do
  match ← Reader.peek with
  | none => return none
  | some c =>
    if c = quote || !isText c then return none
    else return some (← Reader.char)

def escapedChar : Reader (Option Char) := do
  if ← Reader.accept "\\" then return some (← escape)
  plainChar '"'

def basicString : Reader String := do
  Reader.expect "\""
  let cs ← Reader.repeated escapedChar
  Reader.expect "\""
  return .ofList cs

def literalString : Reader String := do
  Reader.expect "'"
  let cs ← Reader.repeated (plainChar '\'')
  Reader.expect "'"
  return .ofList cs

def quoteRun (quote : Char) : Reader Nat := do
  return ((← get).takeWhile (· = quote)).length

def brokenLine : Reader Unit := do
  Reader.expect "\\"
  skipBlanks
  guard (← newline)

def emptyLines : Reader Unit := do
  let _ ← Reader.repeated do
    skipBlanks
    return if ← newline then some () else none

/-- A backslash at the end of a line takes the line end and all blanks and line ends after it. -/
def continuation : Reader Bool :=
  (brokenLine *> emptyLines *> pure true) <|> pure false

def multilinePiece (quote : Char) (single : Reader (Option Char)) : Reader (Option (List Char)) := do
  let run ← quoteRun quote
  if 3 ≤ run then return none
  if 0 < run then return some (← Reader.spanOf (· = quote))
  if ← newline then return some ['\n']
  return (← single).map ([·])

/-- The closing quotes; up to two more before them belong to the string. -/
def multilineEnd (quote : Char) : Reader (List Char) := do
  let run ← Reader.spanOf (· = quote)
  guard (3 ≤ run.length ∧ run.length ≤ 5)
  return run.drop 3

def multiline (quote : Char) (piece : Reader (Option (List Char))) : Reader String := do
  Reader.expect (.ofList [quote, quote, quote])
  let _ ← newline
  let body ← Reader.repeated piece
  let last ← multilineEnd quote
  return .ofList (body.flatten ++ last)

def multilineBasicPiece : Reader (Option (List Char)) := do
  if ← continuation then return some []
  multilinePiece '"' escapedChar

def anyString : Reader String := fun cs =>
  match cs with
  | '"' :: '"' :: '"' :: _ => multiline '"' multilineBasicPiece cs
  | '"' :: _ => basicString cs
  | '\'' :: '\'' :: '\'' :: _ => multiline '\'' (multilinePiece '\'' (plainChar '\'')) cs
  | _ => literalString cs

def isBareKeyChar (c : Char) : Bool :=
  c.isAlphanum || c = '-' || c = '_'

def simpleKey : Reader String := do
  match ← Reader.peek with
  | some '"' => basicString
  | some '\'' => literalString
  | _ => return .ofList (← Reader.many1 isBareKeyChar)

def blankedKey : Reader String := do
  skipBlanks
  let k ← simpleKey
  skipBlanks
  return k

def depthLimit : Nat := 80

def dottedKey : Reader (List String × String) := do
  let first ← blankedKey
  let more ← Reader.repeated do
    if ← Reader.accept "." then return some (← blankedKey) else return none
  guard (more.length + 1 < depthLimit)
  let parts := first :: more
  return (parts.dropLast, parts.getLastD first)

end DmaBurst.Toml
