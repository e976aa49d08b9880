import DmaBurst.CommandLine.Options
import DmaBurst.Proofs.Text.Numeral
import DmaBurst.Proofs.Text.Quoted
import Mathlib.Data.List.TakeDrop
import Mathlib.Data.List.TakeWhile

namespace DmaBurst.BackoffPolicy

open CommandLine (readBackoff)
open Text (Numeral)

/-- The written forms of a policy. The number is one of microseconds and has 64 bits. -/
inductive Form : BackoffPolicy → String → Prop where
  | spin : Form .spin "spin"
  | yield : Form .yield "yield"
  | sleep {micros : UInt64} {number : String} :
    Numeral number.toList micros.toNat → Form (.sleep micros) ("sleep:" ++ number)
  | exponential {maxMicros : UInt64} {number : String} :
    Numeral number.toList maxMicros.toNat → Form (.exponential maxMicros) ("exp:" ++ number)

theorem micros?_eq_some_iff {s : List Char} {micros : UInt64} :
    micros? s = some micros ↔ Numeral s micros.toNat := by
  rw [micros?, Option.map_eq_some_iff]
  constructor
  · rintro ⟨n, hn, rfl⟩
    obtain ⟨hnumeral, hbound⟩ := Text.unsigned?_eq_some_iff.mp hn
    rwa [UInt64.toNat_ofNat_of_lt' hbound]
  · intro h
    exact ⟨micros.toNat, Text.unsigned?_eq_some_iff.mpr ⟨h, micros.toNat_lt_size⟩,
      UInt64.ofNat_toNat⟩

def ofWord (word : String) : Option BackoffPolicy :=
  match word with
  | "spin" => some .spin
  | "yield" => some .yield
  | _ => none

def ofKeyword (keyword : String) (number : List Char) : Option BackoffPolicy :=
  match keyword with
  | "sleep" => .sleep <$> micros? number
  | "exp" => .exponential <$> micros? number
  | _ => none

theorem parse?_word {word : String} (h : ':' ∉ word.toList) : parse? word = ofWord word := by
  have hall : ∀ c ∈ word.toList, decide (c ≠ ':') = true := by
    intro c hc
    have hne : c ≠ ':' := fun he => h (he ▸ hc)
    simpa using hne
  have hspan : word.toList.span (· ≠ ':') = (word.toList, []) := by
    rw [List.span_eq_takeWhile_dropWhile, List.takeWhile_eq_self_iff.mpr hall,
      List.dropWhile_eq_nil_iff.mpr hall]
  unfold parse? ofWord
  rw [hspan]
  simp only [String.ofList_toList]
  split <;> simp_all

theorem parse?_keyword (keyword number : String) (h : ':' ∉ keyword.toList) :
    parse? (keyword ++ ":" ++ number) = ofKeyword keyword number.toList := by
  have hlist : (keyword ++ ":" ++ number).toList = keyword.toList ++ ':' :: number.toList := by
    simp
  have hspan : (keyword.toList ++ ':' :: number.toList).span (· ≠ ':') =
      (keyword.toList, ':' :: number.toList) := by
    obtain ⟨htake, hdrop⟩ := Text.takeWhile_ne_append h number.toList
    rw [List.span_eq_takeWhile_dropWhile, htake, hdrop]
  unfold parse? ofKeyword
  rw [hlist, hspan]
  simp only [String.ofList_toList]
  split <;> simp_all

theorem word_or_keyword (s : String) :
    ':' ∉ s.toList ∨
      ∃ keyword number : String, ':' ∉ keyword.toList ∧ s = keyword ++ ":" ++ number := by
  by_cases h : ':' ∈ s.toList
  · obtain ⟨keyword, number, hs, hfirst⟩ := List.eq_append_cons_of_mem h
    refine .inr ⟨.ofList keyword, .ofList number, by rwa [String.toList_ofList], ?_⟩
    apply String.toList_injective
    simp [hs]
  · exact .inl h

theorem form_of_parse? {s : String} {p : BackoffPolicy} (h : parse? s = some p) : p.Form s := by
  obtain hword | ⟨keyword, number, hkeyword, rfl⟩ := word_or_keyword s
  · rw [parse?_word hword] at h
    unfold ofWord at h
    split at h
    · cases h
      exact .spin
    · cases h
      exact .yield
    · cases h
  · rw [parse?_keyword keyword number hkeyword] at h
    unfold ofKeyword at h
    split at h
    · obtain ⟨micros, hmicros, rfl⟩ := Option.map_eq_some_iff.mp h
      exact .sleep (micros?_eq_some_iff.mp hmicros)
    · obtain ⟨micros, hmicros, rfl⟩ := Option.map_eq_some_iff.mp h
      exact .exponential (micros?_eq_some_iff.mp hmicros)
    · cases h

theorem parse?_of_form {s : String} {p : BackoffPolicy} (h : p.Form s) : parse? s = some p := by
  cases h with
  | spin => decide
  | yield => decide
  | sleep hnumber =>
    have hread := micros?_eq_some_iff.mpr hnumber
    exact (parse?_keyword "sleep" _ (by decide)).trans (by rw [ofKeyword, hread]; rfl)
  | exponential hnumber =>
    have hread := micros?_eq_some_iff.mpr hnumber
    exact (parse?_keyword "exp" _ (by decide)).trans (by rw [ofKeyword, hread]; rfl)

theorem parse?_eq_some_iff {s : String} {p : BackoffPolicy} : parse? s = some p ↔ p.Form s :=
  ⟨form_of_parse?, parse?_of_form⟩

theorem form_text (p : BackoffPolicy) : p.Form p.text := by
  have hnumber : ∀ n : UInt64, Numeral (toString n.toNat).toList n.toNat := by
    intro n
    rw [Nat.toString_eq_ofList_toDigits, String.toList_ofList]
    exact .unsigned (Text.decimal_toDigits n.toNat)
  cases p with
  | spin => exact .spin
  | yield => exact .yield
  | sleep micros => exact .sleep (hnumber micros)
  | exponential maxMicros => exact .exponential (hnumber maxMicros)

theorem parseRefusal_eq (s : String) :
    parseRefusal s = "invalid backoff " ++ Text.quoted s ++
      " (expected spin, yield, sleep:<us> or exp:<max-us>)" :=
  rfl

theorem parseRefusal_injective {s t : String} (h : parseRefusal s = parseRefusal t) : s = t := by
  rw [parseRefusal_eq, parseRefusal_eq] at h
  have hlist := congrArg String.toList h
  simp only [String.toList_append] at hlist
  have hquoted := List.append_cancel_left (List.append_cancel_right hlist)
  exact Text.quoted_injective (String.toList_injective hquoted)

theorem readBackoff_eq_ok_iff {s : String} {p : BackoffPolicy} :
    readBackoff s = .ok p ↔ p.Form s := by
  rw [← parse?_eq_some_iff, readBackoff]
  cases parse? s <;> simp

theorem readBackoff_eq_error {s : String} (h : ∀ p : BackoffPolicy, ¬ p.Form s) :
    readBackoff s = .error (.misuse (.invalidBackoff s)) := by
  have hnone : parse? s = none :=
    Option.eq_none_iff_forall_ne_some.mpr fun p hp => h p (form_of_parse? hp)
  rw [readBackoff, hnone]

/-- Every policy is read back from its text. A text is read just if it has the form of a policy,
and as that policy; any other is refused with an error that quotes it, so that the refused text can
be told from the error. -/
theorem policies_read_by_form :
    (∀ p : BackoffPolicy, parse? p.text = some p) ∧
      (∀ (s : String) (p : BackoffPolicy), parse? s = some p ↔ p.Form s) ∧
      ∀ s : String,
        (∃ p : BackoffPolicy, p.Form s ∧ readBackoff s = .ok p) ∨
        (∀ p : BackoffPolicy, ¬ p.Form s) ∧ ∃ e : CommandLine.Failure, readBackoff s = .error e ∧
          e.message = "invalid backoff " ++ Text.quoted s ++
            " (expected spin, yield, sleep:<us> or exp:<max-us>)" ∧
          ∀ t : String, parseRefusal t = e.message → t = s := by
  refine ⟨fun p => parse?_of_form p.form_text, fun s p => parse?_eq_some_iff, fun s => ?_⟩
  by_cases hform : ∃ p : BackoffPolicy, p.Form s
  · obtain ⟨p, hp⟩ := hform
    exact .inl ⟨p, hp, readBackoff_eq_ok_iff.mpr hp⟩
  · have hnot : ∀ p : BackoffPolicy, ¬ p.Form s := not_exists.mp hform
    exact .inr ⟨hnot, _, readBackoff_eq_error hnot, parseRefusal_eq s,
      fun t ht => parseRefusal_injective ht⟩

example : parse? "exp:+0018446744073709551615" = some (.exponential 18446744073709551615) ∧
    parse? "exp:18446744073709551616" = none ∧ parse? "sleep:" = none ∧ parse? "spin:" = none ∧
    parse? "sleep:1:2" = none := by
  decide

end DmaBurst.BackoffPolicy
