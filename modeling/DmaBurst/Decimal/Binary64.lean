namespace DmaBurst.Decimal

structure Binary64 where
  mantissa : Nat
  exponent : Int
  deriving DecidableEq, Repr

/-- The quotient rounded to the nearest integer, a tie to the even one. -/
def roundDiv (num den : Nat) : Nat :=
  let q := num / den
  let twice := 2 * (num % den)
  if den < twice ∨ twice = den ∧ q % 2 = 1 then q + 1 else q

namespace Binary64

def ratio (x : Binary64) : Nat × Nat :=
  (x.mantissa <<< x.exponent.toNat, 1 <<< (-x.exponent).toNat)

def roughExponent (num den : Nat) : Int :=
  (num.log2 : Int) - den.log2 - 53

def atExponent (num den : Nat) (e : Int) : Binary64 :=
  ⟨roundDiv (num <<< (-e).toNat) (den <<< e.toNat), e⟩

/-- The nearest number with a mantissa of 53 bits, a tie to the even one. Numbers so small that they
have fewer bits are not met here. -/
def ofRatio (num den : Nat) : Binary64 :=
  if num = 0 then ⟨0, 0⟩
  else
    let e := roughExponent num den
    if (num <<< (-e).toNat) / (den <<< e.toNat) < 1 <<< 53 then atExponent num den e
    else atExponent num den (e + 1)

def ofNat (n : Nat) : Binary64 :=
  ofRatio n 1

def add (x y : Binary64) : Binary64 :=
  let (a, b) := x.ratio
  let (c, d) := y.ratio
  ofRatio (a * d + c * b) (b * d)

def mul (x y : Binary64) : Binary64 :=
  let (a, b) := x.ratio
  let (c, d) := y.ratio
  ofRatio (a * c) (b * d)

def div (x y : Binary64) : Binary64 :=
  let (a, b) := x.ratio
  let (c, d) := y.ratio
  ofRatio (a * d) (b * c)

/-- Decimal text with `places` digits after the point, rounded from the exact value. -/
def fixed (places : Nat) (x : Binary64) : String :=
  let (num, den) := x.ratio
  let unit := Nat.pow 10 places
  let scaled := roundDiv (num * unit) den
  let fraction := toString (scaled % unit)
  toString (scaled / unit) ++ "." ++
    String.ofList (List.replicate (places - fraction.length) '0') ++ fraction

end Binary64

def nanosPerSecond : Nat := 1000000000

/-- A duration in milliseconds with three places. Seconds, and then milliseconds, are computed in
floating point. -/
def milliseconds (nanos : Nat) : String :=
  let whole := Binary64.ofNat (nanos / nanosPerSecond)
  let part := (Binary64.ofNat (nanos % nanosPerSecond)).div (Binary64.ofNat nanosPerSecond)
  ((whole.add part).mul (Binary64.ofNat 1000)).fixed 3

end DmaBurst.Decimal
