import DmaBurst.Toml.Number
import DmaBurst.Toml.Tree

namespace DmaBurst.Toml

abbrev Pair := (List String × String) × Value

/-- The items of an array after its bracket, with a comma between two and perhaps after the last.
There are no more of them than characters in the text. -/
def arrayItems (item : Reader Value) : List Char → Reader (List Value)
  | [] => failure
  | _ :: text => do
    skipLayout
    if ← Reader.accept "]" then return []
    let v ← item
    skipLayout
    if ← Reader.accept "," then return v :: (← arrayItems item text)
    Reader.expect "]"
    return [v]

def array (item : Reader Value) : Reader Value := do
  Reader.expect "["
  return .array (← arrayItems item (← get))

def pair (item : Reader Value) : Reader Pair := do
  let key ← dottedKey
  Reader.expect "="
  skipBlanks
  return (key, ← item)

def inlinePairs (item : Reader Value) : Reader (List Pair) := do
  skipBlanks
  if (← Reader.peek) = some '\x7d' then return []
  let first ← pair item
  skipBlanks
  let more ← Reader.repeated do
    if ← Reader.accept "," then
      let p ← pair item
      skipBlanks
      return some p
    return none
  return first :: more

def inlineTable (item : Reader Value) : Reader Value := do
  Reader.expect "\x7b"
  let pairs ← inlinePairs item
  Reader.expect "\x7d"
  return .table (closeEntries (← Entries.addAll pairs []))

def scalar : Reader Value := do
  match ← Reader.peek with
  | some '"' | some '\'' => return .string (← anyString)
  | some 't' => Reader.expect "true"; return .boolean true
  | some 'f' => Reader.expect "false"; return .boolean false
  | _ => number

/-- A value that nests arrays and inline tables at most `depth` deep. -/
def valueUpTo : (depth : Nat) → Reader Value
  | 0 => scalar
  | depth + 1 => do
    match ← Reader.peek with
    | some '[' => array (valueUpTo depth)
    | some '\x7b' => inlineTable (valueUpTo depth)
    | _ => scalar

def value : Reader Value :=
  valueUpTo (depthLimit - 1)

inductive Statement where
  | pair (p : Pair)
  | table (path : List String) (key : String)
  | arrayItem (path : List String) (key : String)

def header : Reader Statement := do
  if ← Reader.accept "[[" then
    let (path, key) ← dottedKey
    Reader.expect "]]"
    return .arrayItem path key
  Reader.expect "["
  let (path, key) ← dottedKey
  Reader.expect "]"
  return .table path key

def statement : Reader Statement := do
  if (← Reader.peek) = some '[' then header else return .pair (← pair value)

/-- One line; a blank line and a comment say nothing, and the end of the text ends the lines. -/
def line : Reader (Option (Option Statement)) := do
  skipBlanks
  match ← Reader.peek with
  | none => return none
  | some '#' | some '\n' | some '\r' =>
    lineEnd
    return some none
  | some _ =>
    let s ← statement
    lineEnd
    return some (some s)

def statements : Reader (List Statement) := do
  let _ ← Reader.accept "\ufeff"
  let lines ← Reader.repeated line
  guard ((← Reader.peek) = none)
  return lines.filterMap id

def leadingPairs : List Statement → List Pair × List Statement
  | .pair p :: rest =>
    let (pairs, rest) := leadingPairs rest
    (p :: pairs, rest)
  | rest => ([], rest)

def addSections : List Statement → Entries → Option Entries
  | [], es => some es
  | .pair _ :: rest, es => addSections rest es
  | .table path key :: rest, es => do
    addSections rest (← es.addTable path key (leadingPairs rest).1)
  | .arrayItem path key :: rest, es => do
    addSections rest (← es.addToArray path key (leadingPairs rest).1)

def assemble (statements : List Statement) : Option Entries := do
  addSections statements (← Entries.addAll (leadingPairs statements).1 [])

def parse (text : String) : Option Value := do
  let (lines, _) ← statements text.toList
  return .table (closeEntries (← assemble lines))

end DmaBurst.Toml
