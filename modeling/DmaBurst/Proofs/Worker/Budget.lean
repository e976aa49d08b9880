import DmaBurst.Worker.Budget
import Mathlib

namespace DmaBurst

namespace Budget

variable {b : Budget}

def consumeAll (counts : List Nat) (b : Budget) : Budget :=
  counts.foldl (fun b n => b.consume n) b

/-- What a row of counts amounts to, each of them cut to the greatest word. -/
def total (counts : List Nat) : Int :=
  (counts.map fun n : Nat => min (n : Int) budgetMax).sum

theorem total_nonneg (counts : List Nat) : 0 ≤ total counts := by
  induction counts with
  | nil => exact Int.le_refl 0
  | cons n counts ih =>
    rw [total, List.map_cons, List.sum_cons, ← total]
    simp only [budgetMax]
    omega

/-- Once the subtraction has stopped at the least word it stays there, so stopping at each step and
stopping at the end come to the same. -/
theorem consumeAll_eq (h : budgetMin ≤ b.remaining) (counts : List Nat) :
    b.consumeAll counts = { b with remaining := max budgetMin (b.remaining - total counts) } := by
  induction counts generalizing b with
  | nil =>
    obtain ⟨initial, remaining⟩ := b
    simp only [consumeAll, List.foldl_nil, total, List.map_nil, List.sum_nil, Int.sub_zero,
      Int.max_eq_right h]
  | cons n counts ih =>
    have hnext : budgetMin ≤ (b.consume n).remaining := Int.le_max_left _ _
    have htotal : total (n :: counts) = min (n : Int) budgetMax + total counts := rfl
    have hrest := total_nonneg counts
    rw [consumeAll, List.foldl_cons, ← consumeAll, ih hnext, htotal, consume]
    congr 1
    dsimp only
    omega

theorem consumeAll_append (counts more : List Nat) (b : Budget) :
    b.consumeAll (counts ++ more) = (b.consumeAll counts).consumeAll more :=
  List.foldl_append

theorem le_remaining_consumeAll (h : budgetMin ≤ b.remaining) (counts : List Nat) :
    budgetMin ≤ (b.consumeAll counts).remaining := by
  rw [consumeAll_eq h]
  exact Int.le_max_left _ _

theorem remaining_consumeAll_le (h : budgetMin ≤ b.remaining) (counts : List Nat) :
    (b.consumeAll counts).remaining ≤ b.remaining := by
  have htotal := total_nonneg counts
  rw [consumeAll_eq h]
  dsimp only
  omega

theorem isMet_consumeAll (h : budgetMin ≤ b.remaining) (counts : List Nat)
    (hmet : b.isMet = true) : (b.consumeAll counts).isMet = true :=
  decide_eq_true (Int.le_trans (remaining_consumeAll_le h counts) (of_decide_eq_true hmet))

end Budget

/-- `a - b`, or the word on the side to which it leaves the range. -/
def saturatingSub (a b : Int64) : Int64 :=
  if 0 ≤ b ∧ a < a - b then Int64.minValue
  else if b < 0 ∧ a - b < a then Int64.maxValue
  else a - b

theorem toInt_saturatingSub (a b : Int64) :
    (saturatingSub a b).toInt = max budgetMin (min (a.toInt - b.toInt) budgetMax) := by
  have ha := a.le_toInt
  have ha' := a.toInt_lt
  have hb := b.le_toInt
  have hb' := b.toInt_lt
  have hd := Int64.toInt_sub a b
  rw [saturatingSub]
  simp only [Int64.le_iff_toInt_le, Int64.lt_iff_toInt_lt, Int64.toInt_zero, budgetMin, budgetMax]
  generalize hdv : (a - b).toInt = d at *
  simp only [Int.bmod_def] at hd
  split
  · rw [Int64.toInt_minValue]
    omega
  · split
    · rw [Int64.toInt_maxValue]
      omega
    · omega

def signedCount (n : UInt64) : Int64 :=
  if (n.toNat : Int) ≤ budgetMax then n.toInt64 else Int64.maxValue

theorem toInt_signedCount (n : UInt64) : (signedCount n).toInt = min (n.toNat : Int) budgetMax := by
  rw [signedCount]
  split
  · next h =>
    have hword : n.toInt64.toInt = n.toNat := by
      rw [← Int64.toInt_toBitVec, UInt64.toBitVec_toInt64, BitVec.toInt_eq_toNat_of_lt]
      · rfl
      · change 2 * n.toNat < 2 ^ 64
        rw [budgetMax] at h
        omega
    rw [hword, Int.min_eq_left h]
  · next h =>
    rw [Int64.toInt_maxValue, Int.min_eq_right (Int.le_of_lt (Int.not_le.mp h))]
    rfl

structure WordBudget where
  initial : Int64
  remaining : Int64

namespace WordBudget

variable {b : WordBudget}

def new (initial : Int64) : WordBudget :=
  ⟨initial, initial⟩

def isMet (b : WordBudget) : Bool :=
  b.remaining ≤ 0

def consume (packets : UInt64) (b : WordBudget) : WordBudget :=
  { b with remaining := saturatingSub b.remaining (signedCount packets) }

def consumeAll (counts : List UInt64) (b : WordBudget) : WordBudget :=
  counts.foldl (fun b n => b.consume n) b

def value (b : WordBudget) : Budget :=
  ⟨b.initial.toInt, b.remaining.toInt⟩

theorem le_remaining_value (b : WordBudget) : budgetMin ≤ b.value.remaining :=
  b.remaining.le_toInt

theorem isMet_value (b : WordBudget) : b.value.isMet = b.isMet := by
  rw [Budget.isMet, isMet, decide_eq_decide, Int64.le_iff_toInt_le, Int64.toInt_zero]
  rfl

theorem value_consume (packets : UInt64) (b : WordBudget) :
    (b.consume packets).value = b.value.consume packets.toNat := by
  have hb := b.remaining.toInt_lt
  simp only [consume, value, Budget.consume, toInt_saturatingSub, toInt_signedCount]
  congr 1
  rw [Int.min_eq_left]
  simp only [budgetMax]
  omega

theorem value_consumeAll (counts : List UInt64) (b : WordBudget) :
    (b.consumeAll counts).value = b.value.consumeAll (counts.map UInt64.toNat) := by
  induction counts generalizing b with
  | nil => rfl
  | cons n counts ih => exact (ih (b.consume n)).trans (by rw [value_consume]; rfl)

end WordBudget

end DmaBurst
