import DmaBurst.Text.Basic

namespace DmaBurst.Text

/-- One or more decimal digits, of which any number of leading ones may be zero, and their value. -/
structure Decimal (digits : List Char) (n : Nat) : Prop where
  ne_nil : digits ≠ []
  isDigit : ∀ c ∈ digits, c.isDigit = true
  value : Nat.ofDigitChars 10 digits 0 = n

inductive Numeral : List Char → Nat → Prop where
  | unsigned {digits : List Char} {n : Nat} : Decimal digits n → Numeral digits n
  | signed {digits : List Char} {n : Nat} : Decimal digits n → Numeral ('+' :: digits) n

theorem isDigit_eq (c : Char) : isDigit c = c.isDigit := by
  simp only [isDigit, Char.isDigit, Char.le_def, ge_iff_le]

theorem decimal_iff {digits : List Char} {n : Nat} :
    Decimal digits n ↔ (digits ≠ [] ∧ digits.all isDigit) ∧ digitsValue digits = n := by
  constructor
  · rintro ⟨hne, hdigit, hvalue⟩
    refine ⟨⟨hne, List.all_eq_true.mpr fun c hc => ?_⟩, hvalue⟩
    rw [isDigit_eq]
    exact hdigit c hc
  · rintro ⟨⟨hne, hdigit⟩, hvalue⟩
    refine ⟨hne, fun c hc => ?_, hvalue⟩
    rw [← isDigit_eq]
    exact List.all_eq_true.mp hdigit c hc

theorem decimal_toDigits (n : Nat) : Decimal (Nat.toDigits 10 n) n where
  ne_nil := Nat.toDigits_ne_nil
  isDigit _ hc := Nat.isDigit_of_mem_toDigits (by decide) (by decide) hc
  value := Nat.ofDigitChars_ten_toDigits

theorem Decimal.head_ne_plus {digits : List Char} {n : Nat} (h : Decimal ('+' :: digits) n) :
    False := by
  have hplus := h.isDigit '+' List.mem_cons_self
  contradiction

def afterSign (s : List Char) : List Char :=
  match s with
  | '+' :: rest => rest
  | _ => s

theorem unsigned?_eq (bound : Nat) (s : List Char) :
    unsigned? bound s =
      if afterSign s ≠ [] ∧ (afterSign s).all isDigit ∧ digitsValue (afterSign s) < bound then
        some (digitsValue (afterSign s)) else none :=
  rfl

theorem numeral_iff {s : List Char} {n : Nat} : Numeral s n ↔ Decimal (afterSign s) n := by
  constructor
  · intro h
    cases h with
    | unsigned h =>
      unfold afterSign
      split
      · exact h.head_ne_plus.elim
      · exact h
    | signed h => exact h
  · intro h
    unfold afterSign at h
    split at h
    · exact .signed h
    · exact .unsigned h

theorem unsigned?_eq_some_iff {bound : Nat} {s : List Char} {n : Nat} :
    unsigned? bound s = some n ↔ Numeral s n ∧ n < bound := by
  rw [numeral_iff, decimal_iff, unsigned?_eq, Option.ite_none_right_eq_some, Option.some_inj]
  constructor
  · rintro ⟨⟨hne, hdigit, hbound⟩, rfl⟩
    exact ⟨⟨⟨hne, hdigit⟩, rfl⟩, hbound⟩
  · rintro ⟨⟨⟨hne, hdigit⟩, rfl⟩, hbound⟩
    exact ⟨⟨hne, hdigit, hbound⟩, rfl⟩

example : unsigned? 256 "+0255".toList = some 255 ∧ unsigned? 256 "256".toList = none ∧
    unsigned? 256 "+".toList = none := by
  decide

end DmaBurst.Text
