import DmaBurst.Toml.Text
import DmaBurst.Toml.Tree

namespace DmaBurst.Toml

def isDecimal (c : Char) : Bool :=
  '0' ≤ c && c ≤ '9'

def isOctal (c : Char) : Bool :=
  '0' ≤ c && c ≤ '7'

def isBinary (c : Char) : Bool :=
  c = '0' || c = '1'

def grouped (isDigit : Char → Bool) : Reader (List Char) := do
  let first ← Reader.many1 isDigit
  let more ← Reader.repeated do
    if ← Reader.accept "_" then return some (← Reader.many1 isDigit) else return none
  return first ++ more.flatten

def wholeDigits : Reader (List Char) := do
  match ← Reader.peek with
  | some '0' => return [← Reader.char]
  | _ => grouped isDecimal

def fits (n : Int) : Bool :=
  -9223372036854775808 ≤ n && n ≤ 9223372036854775807

def integer (n : Int) : Reader Value := do
  guard (fits n)
  return .integer n

def radix (base : Nat) (isDigit : Char → Bool) : Reader Value := do
  integer (valueIn base (← grouped isDigit))

/-- The least number that rounds to infinity in 64-bit floating point. It has 309 digits. -/
def infinityBound : Nat :=
  (1 <<< 54 - 1) <<< 970

def leading (width : Nat) (digits : List Char) : Nat :=
  valueIn 10 (digits.take width ++ List.replicate (width - digits.length) '0')

/-- Whether `digits * 10 ^ exponent` rounds to infinity in 64-bit floating point. The bound is whole,
so only the digits before the point count. -/
def overflows (digits : List Char) (exponent : Int) : Bool :=
  let digits := digits.dropWhile (· = '0')
  let size := digits.length + exponent
  digits ≠ [] && (309 < size || size = 309 && infinityBound ≤ leading 309 digits)

def sign : Reader Bool := do
  if ← Reader.accept "-" then return true
  let _ ← Reader.accept "+"
  return false

def exponent : Reader (Option Int) := do
  if (← Reader.accept "e") || (← Reader.accept "E") then
    let negative ← sign
    let n : Int := valueIn 10 (← grouped isDecimal)
    return some (if negative then -n else n)
  return none

def decimal : Reader Value := do
  let negative ← sign
  if (← Reader.accept "inf") || (← Reader.accept "nan") then return .float
  let whole ← wholeDigits
  let fraction ← if ← Reader.accept "." then some <$> grouped isDecimal else pure none
  let power ← exponent
  if fraction.isNone ∧ power.isNone then
    let n : Int := valueIn 10 whole
    integer (if negative then -n else n)
  else
    let fraction := fraction.getD []
    guard (negative || !overflows (whole ++ fraction) (power.getD 0 - fraction.length))
    return .float

def fixedDigits (width low high : Nat) : Reader Nat := fun cs =>
  let digits := cs.take width
  let n := valueIn 10 digits
  if digits.length = width ∧ digits.all isDecimal ∧ low ≤ n ∧ n ≤ high then
    some (n, cs.drop width)
  else none

def daysIn (year month : Nat) : Nat :=
  if month = 2 then
    if year % 4 = 0 ∧ (year % 100 ≠ 0 ∨ year % 400 = 0) then 29 else 28
  else if month ∈ [4, 6, 9, 11] then 30
  else 31

def calendarDay : Reader Unit := do
  let year ← fixedDigits 4 0 9999
  Reader.expect "-"
  let month ← fixedDigits 2 1 12
  Reader.expect "-"
  let _ ← fixedDigits 2 1 (daysIn year month)

def timeOfDay : Reader Unit := do
  let _ ← fixedDigits 2 0 23
  Reader.expect ":"
  let _ ← fixedDigits 2 0 59
  Reader.expect ":"
  let _ ← fixedDigits 2 0 60
  if ← Reader.accept "." then
    let _ ← Reader.many1 isDecimal

def timeOffset : Reader Unit := do
  if (← Reader.accept "Z") || (← Reader.accept "z") then return
  match ← Reader.peek with
  | some '+' | some '-' =>
    let _ ← Reader.char
    let _ ← fixedDigits 2 0 23
    Reader.expect ":"
    let _ ← fixedDigits 2 0 59
  | _ => return

def startsTime : List Char → Bool
  | a :: b :: ':' :: _ => isDecimal a && isDecimal b
  | _ => false

def startsDay : List Char → Bool
  | a :: b :: c :: d :: '-' :: _ => [a, b, c, d].all isDecimal
  | _ => false

/-- A day, a day with a time and perhaps an offset, or a time. -/
def date : Reader Value := do
  if startsTime (← get) then
    timeOfDay
  else
    calendarDay
    match ← get with
    | c :: rest =>
      if (c = 'T' || c = 't' || c = ' ') && startsTime rest then
        set rest
        timeOfDay
        timeOffset
    | [] => return .date
  return .date

def number : Reader Value := do
  let cs ← get
  if startsTime cs || startsDay cs then date
  else if ← Reader.accept "0x" then radix 16 isHexDigit
  else if ← Reader.accept "0o" then radix 8 isOctal
  else if ← Reader.accept "0b" then radix 2 isBinary
  else decimal

end DmaBurst.Toml
