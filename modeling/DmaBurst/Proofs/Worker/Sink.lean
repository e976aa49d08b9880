import DmaBurst.Io.QueueFile
import DmaBurst.Io.Scripted
import Mathlib.Tactic.SplitIfs

namespace DmaBurst

/-- A sink that keeps what it takes: `stored` grows by the bytes that a write says it has taken, and
by nothing else. While it `accepts`, it takes at least one byte each time, or is interrupted with
less patience left. -/
class LawfulSink (σ : Type) [ByteSink σ] where
  stored : σ → Bytes
  accepts : σ → Prop
  write_wrote : ∀ {bytes : Bytes} {n : Nat} {s t : σ}, ByteSink.write bytes s = (.wrote n, t) →
    n ≤ bytes.length ∧ stored t = stored s ++ bytes.take n
  write_other : ∀ {bytes : Bytes} {answer : WriteResult} {s t : σ},
    ByteSink.write bytes s = (answer, t) → (∀ n, answer ≠ .wrote n) → stored t = stored s
  write_accepts : ∀ (b : UInt8) (rest : Bytes) {s : σ}, accepts s →
    accepts (ByteSink.write (b :: rest) s).2 ∧
      ((∃ n, (ByteSink.write (b :: rest) s).1 = .wrote (n + 1)) ∨
        (ByteSink.write (b :: rest) s).1 = .interrupted ∧
          ByteSink.patience (ByteSink.write (b :: rest) s).2 < ByteSink.patience s)

instance : LawfulSink FileSink where
  stored := FileSink.content
  accepts _ := True
  write_wrote h := by
    cases h
    simp [FileSink.write, FileSink.content]
  write_other h hn := by
    cases h
    exact absurd rfl (hn _)
  write_accepts _ _ _ _ := ⟨trivial, .inl ⟨_, rfl⟩⟩

theorem not_interrupts_succ {period : Option Nat} {calls : Nat} (hp : period ≠ some 1)
    (h : interrupts period calls = true) : ¬ interrupts period (calls + 1) = true := by
  cases period with
  | none => cases h
  | some p =>
    simp only [interrupts, Option.any_some, beq_iff_eq] at h ⊢
    intro hn
    have hone : p ∣ 1 := (Nat.dvd_add_right (Nat.dvd_of_mod_eq_zero h)).mp (Nat.dvd_of_mod_eq_zero hn)
    exact hp (congrArg some (Nat.dvd_one.mp hone))

/-- It accepts for good when no failure is set, no write is cut to nothing and not every call is
interrupted. -/
instance : LawfulSink ScriptedSink where
  stored := ScriptedSink.data
  accepts s := s.failAt = none ∧ s.zeroAt = none ∧ s.faultAt = none ∧ s.chunk ≠ some 0 ∧
    s.interrupt ≠ some 1
  write_wrote {bytes n s t} h := by
    change s.write bytes = (.wrote n, t) at h
    simp only [ScriptedSink.write] at h
    split_ifs at h
    · cases h
    · cases h
    · cases h
    · cases h
      simp [ScriptedSink.data]
    · cases h
      cases s.chunk with
      | none => simp [ScriptedSink.data]
      | some n => exact ⟨List.length_take_le' n bytes, by simp [ScriptedSink.data]⟩
  write_other {bytes answer s t} h hn := by
    change s.write bytes = (answer, t) at h
    simp only [ScriptedSink.write] at h
    split_ifs at h
    all_goals cases h
    · rfl
    · rfl
    · rfl
    · rfl
    · exact absurd rfl (hn _)
  write_accepts b rest s h := by
    obtain ⟨hfail, hzero, hfault, hchunk, hinter⟩ := h
    have hwrite : ByteSink.write (b :: rest) s = s.write (b :: rest) := rfl
    rw [hwrite]
    simp only [ScriptedSink.write, hfail, hzero, hfault, reached, Option.any_none,
      Bool.false_eq_true, if_false]
    by_cases hi : interrupts s.interrupt (s.calls + 1) = true
    · rw [if_pos hi]
      refine ⟨⟨rfl, rfl, rfl, hchunk, hinter⟩, .inr ⟨rfl, ?_⟩⟩
      have hnext := not_interrupts_succ hinter hi
      change (if interrupts s.interrupt (s.calls + 1 + 1) = true then 1 else 0) <
        if interrupts s.interrupt (s.calls + 1) = true then 1 else 0
      rw [if_pos hi, if_neg hnext]
      exact Nat.one_pos
    · rw [if_neg hi]
      refine ⟨⟨rfl, rfl, rfl, hchunk, hinter⟩, .inl ?_⟩
      cases hc : s.chunk with
      | none => exact ⟨rest.length, rfl⟩
      | some n =>
        cases n with
        | zero => exact absurd hc hchunk
        | succ n => exact ⟨(rest.take n).length, rfl⟩

open LawfulSink

variable {σ : Type} [ByteSink σ] [LawfulSink σ] {bytes : Bytes} {s t : σ}
  {answer : Except (Halt IoError) Unit}

/-- What is stored of a text is a part from its front, and all of it when nothing fails. -/
theorem writeAll_stored (h : writeAll bytes s = (answer, t)) :
    ∃ p, p <+: bytes ∧ stored t = stored s ++ p ∧ (answer = .ok () → p = bytes) := by
  fun_induction writeAll bytes s with
  | case1 s =>
    cases h
    exact ⟨[], List.prefix_rfl, (List.append_nil _).symm, fun _ => rfl⟩
  | case2 s b rest t' hw =>
    cases h
    obtain ⟨-, hs⟩ := write_wrote hw
    exact ⟨[], List.nil_prefix, by simpa using hs, fun hn => by cases hn⟩
  | case3 s b rest n t' hw ih =>
    obtain ⟨p, hp, hs, hall⟩ := ih h
    obtain ⟨hn, hs'⟩ := write_wrote hw
    have hcut : b :: rest = b :: rest.take n ++ rest.drop n := by simp
    refine ⟨b :: rest.take n ++ p, ?_, ?_, fun hok => ?_⟩
    · rw [hcut]
      exact (List.prefix_append_right_inj _).mpr hp
    · rw [hs, hs', List.take_succ_cons, List.append_assoc]
    · rw [hall hok]
      exact hcut.symm
  | case4 s b rest t' hw hlt ih =>
    have hs := write_other hw fun _ hn => by cases hn
    rw [hs] at ih
    exact ih h
  | case5 s b rest t' hw hlt =>
    cases h
    have hs := write_other hw fun _ hn => by cases hn
    exact ⟨[], List.nil_prefix, by simpa using hs, fun hn => by cases hn⟩
  | case6 s b rest e t' hw =>
    cases h
    have hs := write_other hw fun _ hn => by cases hn
    exact ⟨[], List.nil_prefix, by simpa using hs, fun hn => by cases hn⟩
  | case7 s b rest f t' hw =>
    cases h
    have hs := write_other hw fun _ hn => by cases hn
    exact ⟨[], List.nil_prefix, by simpa using hs, fun hn => by cases hn⟩

theorem writeAll_accepts (h : accepts s) (bytes : Bytes) :
    (writeAll bytes s).1 = .ok () ∧ accepts (writeAll bytes s).2 := by
  fun_induction writeAll bytes s with
  | case1 s => exact ⟨rfl, h⟩
  | case3 s b rest n t' hw ih =>
    have ha := write_accepts b rest h
    rw [hw] at ha
    exact ih ha.1
  | case4 s b rest t' hw hlt ih =>
    have ha := write_accepts b rest h
    rw [hw] at ha
    exact ih ha.1
  | case2 s b rest t' hw | case6 s b rest e t' hw | case7 s b rest f t' hw =>
    have ha := (write_accepts b rest h).2
    rw [hw] at ha
    simp at ha
  | case5 s b rest t' hw hlt =>
    have ha := (write_accepts b rest h).2
    rw [hw] at ha
    exact absurd (by simpa using ha) hlt

omit [LawfulSink σ] in
def writeEach : List Bytes → σ → Except (Halt IoError) Unit × σ
  | [], s => (.ok (), s)
  | text :: texts, s =>
    match writeAll text s with
    | (.ok (), s) => writeEach texts s
    | (.error e, s) => (.error e, s)

theorem writeEach_stored {texts : List Bytes} (h : writeEach texts s = (answer, t)) :
    ∃ p, p <+: texts.flatten ∧ stored t = stored s ++ p ∧ (answer = .ok () → p = texts.flatten) := by
  induction texts generalizing s with
  | nil =>
    cases h
    exact ⟨[], List.prefix_rfl, (List.append_nil _).symm, fun _ => rfl⟩
  | cons text texts ih =>
    rw [writeEach] at h
    split at h
    · next s' hw =>
      obtain ⟨p, -, hs, hall⟩ := writeAll_stored hw
      cases hall rfl
      obtain ⟨p', hp', hs', hall'⟩ := ih h
      refine ⟨text ++ p', ?_, ?_, fun hok => ?_⟩
      · exact (List.prefix_append_right_inj _).mpr hp'
      · rw [hs', hs, List.append_assoc]
      · rw [hall' hok, List.flatten_cons]
    · next e s' hw =>
      cases h
      obtain ⟨p, hp, hs, -⟩ := writeAll_stored hw
      exact ⟨p, hp.trans (List.prefix_append _ _), hs, fun hn => by cases hn⟩

theorem writeEach_accepts (h : accepts s) (texts : List Bytes) :
    (writeEach texts s).1 = .ok () ∧ accepts (writeEach texts s).2 := by
  induction texts generalizing s with
  | nil => exact ⟨rfl, h⟩
  | cons text texts ih =>
    obtain ⟨hok, ha⟩ := writeAll_accepts h text
    have hw : writeAll text s = (.ok (), (writeAll text s).2) := Prod.ext hok rfl
    rw [writeEach, hw]
    exact ih ha

theorem writeAll_file (bytes : Bytes) (s : FileSink) :
    writeAll bytes s = (.ok (), if bytes = [] then s else s.write bytes) := by
  cases bytes with
  | nil =>
    rw [writeAll]
    rfl
  | cons b rest =>
    have hw : ByteSink.write (b :: rest) s = (.wrote (rest.length + 1), s.write (b :: rest)) := rfl
    rw [writeAll, hw]
    dsimp only
    rw [List.drop_length, writeAll]
    rfl

theorem FileSink.place_writeEach (texts : List Bytes) (s : FileSink) :
    (writeEach texts s).2.place = s.place := by
  induction texts generalizing s with
  | nil => rfl
  | cons text texts ih =>
    rw [writeEach, writeAll_file]
    refine (ih _).trans ?_
    split <;> rfl

end DmaBurst
