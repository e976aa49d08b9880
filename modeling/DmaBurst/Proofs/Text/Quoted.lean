import DmaBurst.Text.Quoted
import DmaBurst.Toml.Text
import Mathlib.Data.Nat.Init

namespace DmaBurst

theorem Toml.hexDigitValue_digitChar {n : Nat} (h : n < 16) :
    Toml.hexDigitValue n.digitChar = n := by
  have hall : ∀ n < 16, Toml.hexDigitValue n.digitChar = n := by decide
  exact hall n h

namespace Text

theorem hexDigits_eq (n : Nat) :
    hexDigits n = (if n < 16 then [] else hexDigits (n / 16)) ++ [(n % 16).digitChar] := by
  rw [hexDigits, Nat.toDigits_eq_if (by decide)]
  split
  · next h => rw [Nat.mod_eq_of_lt h, List.nil_append]
  · rfl

theorem valueIn_hexDigits (n : Nat) : Toml.valueIn 16 (hexDigits n) = n := by
  induction n using Nat.strong_induction_on with
  | _ n ih =>
    have hlast := Toml.hexDigitValue_digitChar (Nat.mod_lt n (by decide : 0 < 16))
    rw [hexDigits_eq]
    split
    · next h =>
      simp only [Toml.valueIn, List.nil_append, List.foldl_cons, List.foldl_nil, hlast]
      omega
    · next h =>
      have hfront := ih (n / 16) (by omega)
      rw [Toml.valueIn] at hfront ⊢
      rw [List.foldl_append, hfront]
      simp only [List.foldl_cons, List.foldl_nil, hlast]
      omega

theorem brace_notMem_hexDigits (n : Nat) : '\x7d' ∉ hexDigits n := by
  induction n using Nat.strong_induction_on with
  | _ n ih =>
    rw [hexDigits_eq]
    split
    · simp
    · next h => simp [ih (n / 16) (by omega)]

/-- The first character that a quoted text shows, and what is left of it. -/
def unquoteChar : List Char → Option (Char × List Char)
  | '\\' :: '0' :: rest => some ('\x00', rest)
  | '\\' :: 't' :: rest => some ('\t', rest)
  | '\\' :: 'n' :: rest => some ('\n', rest)
  | '\\' :: 'r' :: rest => some ('\r', rest)
  | '\\' :: '"' :: rest => some ('"', rest)
  | '\\' :: '\\' :: rest => some ('\\', rest)
  | '\\' :: 'u' :: '\x7b' :: rest =>
    some (.ofNat (Toml.valueIn 16 (rest.takeWhile (· ≠ '\x7d'))),
      (rest.dropWhile (· ≠ '\x7d')).tail)
  | c :: rest => some (c, rest)
  | [] => none

theorem takeWhile_ne_append {stop : Char} {front : List Char} (h : stop ∉ front)
    (rest : List Char) :
    (front ++ stop :: rest).takeWhile (· ≠ stop) = front ∧
      (front ++ stop :: rest).dropWhile (· ≠ stop) = stop :: rest := by
  have hall : ∀ c ∈ front, decide (c ≠ stop) = true := by
    intro c hc
    have hne : c ≠ stop := fun he => h (he ▸ hc)
    simpa using hne
  rw [List.takeWhile_append_of_pos hall, List.dropWhile_append_of_pos hall]
  simp

theorem unquoteChar_quoteChar (c : Char) (rest : List Char) :
    unquoteChar (quoteChar c ++ rest) = some (c, rest) := by
  unfold quoteChar
  split
  case h_7 =>
    split
    · obtain ⟨htake, hdrop⟩ := takeWhile_ne_append (brace_notMem_hexDigits c.toNat) rest
      have hread : unquoteChar ('\\' :: 'u' :: '\x7b' :: (hexDigits c.toNat ++ '\x7d' :: rest)) =
          some (c, rest) := by
        rw [unquoteChar, htake, hdrop, valueIn_hexDigits, Char.ofNat_toNat, List.tail_cons]
      simpa using hread
    · rw [List.singleton_append, unquoteChar] <;> rintro - <;> simp_all
  all_goals rfl

theorem flatMap_quoteChar_injective {s t : List Char}
    (h : s.flatMap quoteChar = t.flatMap quoteChar) : s = t := by
  induction s generalizing t with
  | nil =>
    cases t with
    | nil => rfl
    | cons d t =>
      have hread := congrArg unquoteChar h
      rw [List.flatMap_cons, unquoteChar_quoteChar] at hread
      cases hread
  | cons c s ih =>
    have hread := congrArg unquoteChar h
    rw [List.flatMap_cons, unquoteChar_quoteChar] at hread
    cases t with
    | nil => cases hread
    | cons d t =>
      rw [List.flatMap_cons, unquoteChar_quoteChar] at hread
      obtain ⟨rfl, hrest⟩ := Prod.mk.inj (Option.some.inj hread)
      rw [ih hrest]

theorem quoted_injective {s t : String} (h : quoted s = quoted t) : s = t := by
  have hlist := String.ofList_injective h
  have hbody := List.append_cancel_right (List.cons.inj hlist).2
  exact String.toList_injective (flatMap_quoteChar_injective hbody)

end Text

end DmaBurst
