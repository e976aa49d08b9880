import DmaBurst.Fault

namespace DmaBurst

/-- Budgets are counted in 64 signed bits. -/
def budgetMin : Int := -9223372036854775808

def budgetMax : Int := 9223372036854775807

def checked (f : Fault) (n : Int) : Except Fault Int :=
  if budgetMin ≤ n ∧ n ≤ budgetMax then .ok n else .error f

/-- Packets that a receive queue still owes. A burst larger than what is left drives it below
zero. -/
structure Budget where
  initial : Int
  remaining : Int
  deriving DecidableEq, Repr

namespace Budget

def new (initial : Int) : Budget :=
  ⟨initial, initial⟩

def isMet (b : Budget) : Bool :=
  b.remaining ≤ 0

/-- Charges `packets`; the subtraction stops at the least budget. -/
def consume (packets : Nat) (b : Budget) : Budget :=
  { b with remaining := max budgetMin (b.remaining - min (packets : Int) budgetMax) }

end Budget

end DmaBurst
