import DmaBurst.Fault
import DmaBurst.Proofs.Backoff.Duration
import DmaBurst.Worker.Backoff
import Mathlib.Algebra.Group.Nat.Defs
import Mathlib.Data.List.Induction

namespace DmaBurst.Backoff

inductive Call where
  | idle
  | reset
  deriving DecidableEq, Repr

def call (b : Backoff) : Call → Backoff
  | .idle => b.idle
  | .reset => b.reset

def after (policy : BackoffPolicy) (calls : List Call) : Backoff :=
  calls.foldl call { policy }

/-- The idle calls since the last reset, or since the beginning. -/
def streak (calls : List Call) : Nat :=
  (calls.reverse.takeWhile (· = .idle)).length

variable {policy : BackoffPolicy} {calls : List Call}

@[simp] theorem streak_concat_idle : streak (calls ++ [.idle]) = streak calls + 1 := by
  simp [streak]

@[simp] theorem streak_concat_reset : streak (calls ++ [.reset]) = 0 := by
  simp [streak]

theorem after_concat (c : Call) : after policy (calls ++ [c]) = (after policy calls).call c := by
  simp [after]

@[simp] theorem policy_call (b : Backoff) (c : Call) : (b.call c).policy = b.policy := by
  cases c with
  | idle =>
    rw [call, idle]
    split <;> rfl
  | reset => rfl

@[simp] theorem policy_after : (after policy calls).policy = policy := by
  induction calls using List.reverseRecOn with
  | nil => rfl
  | append_singleton calls c ih => rw [after_concat, policy_call, ih]

theorem one_le_ceiling (maxMicros : UInt64) : 1 ≤ ceiling maxMicros :=
  Nat.le_max_right ..

theorem ceiling_lt (maxMicros : UInt64) : ceiling maxMicros < UInt64.size := by
  have h := maxMicros.toNat_lt_size
  simp only [ceiling, UInt64.size] at *
  omega

/-- The ceiling cuts a doubled sleep as if it had cut none before. -/
theorem min_doubled (n top : Nat) : min (min (2 ^ n) top * 2) top = min (2 ^ (n + 1)) top := by
  rw [Nat.pow_succ]
  omega

theorem current_exponential {maxMicros : UInt64} :
    (after (.exponential maxMicros) calls).current =
      min (2 ^ streak calls) (ceiling maxMicros) := by
  induction calls using List.reverseRecOn with
  | nil => exact (Nat.min_eq_left (one_le_ceiling maxMicros)).symm
  | append_singleton calls c ih =>
    rw [after_concat]
    cases c with
    | idle =>
      rw [call, idle, policy_after, streak_concat_idle, ← min_doubled, ← ih]
    | reset =>
      rw [streak_concat_reset]
      exact (Nat.min_eq_left (one_le_ceiling maxMicros)).symm

theorem current_constant (h : ∀ maxMicros, policy ≠ .exponential maxMicros) :
    (after policy calls).current = 1 := by
  induction calls using List.reverseRecOn with
  | nil => rfl
  | append_singleton calls c ih =>
    rw [after_concat]
    cases c with
    | idle =>
      rw [call, idle, policy_after]
      split
      · next maxMicros => exact absurd rfl (h maxMicros)
      · exact ih
    | reset => rfl

/-- A backoff that keeps its next sleep as a span of time. -/
structure Timed where
  policy : BackoffPolicy
  current : Duration
  deriving DecidableEq, Repr

inductive Rest where
  | spin
  | yield
  | sleep (span : Duration)
  deriving DecidableEq, Repr

def Rest.toNanos : Rest → Nat
  | .spin | .yield => 0
  | .sleep span => span.toNanos

namespace Timed

def new (policy : BackoffPolicy) : Timed :=
  ⟨policy, .ofMicros 1⟩

/-- A span that doubles out of its range is a fault. -/
def idle (t : Timed) : Except Fault (Rest × Timed) :=
  match t.policy with
  | .spin => .ok (.spin, t)
  | .yield => .ok (.yield, t)
  | .sleep micros => .ok (.sleep (.ofMicros micros), t)
  | .exponential maxMicros =>
    let top := Duration.ofMicros (max maxMicros 1)
    match t.current.times? 2 with
    | some doubled => .ok (.sleep (min t.current top), { t with current := min doubled top })
    | none => .error (.collaborator "overflow when multiplying duration by scalar")

def reset (t : Timed) : Timed :=
  { t with current := .ofMicros 1 }

def call (t : Timed) : Call → Except Fault Timed
  | .idle => Prod.snd <$> t.idle
  | .reset => .ok t.reset

def run (calls : List Call) (t : Timed) : Except Fault Timed :=
  calls.foldlM call t

/-- The span is the sleep in microseconds, of which 64 bits hold the number. -/
structure Shows (t : Timed) (b : Backoff) : Prop where
  policy : t.policy = b.policy
  current : t.current.toNanos = b.current * 1000
  short : b.current < UInt64.size

variable {t : Timed} {b : Backoff}

theorem shows_new (policy : BackoffPolicy) : (new policy).Shows { policy } :=
  ⟨rfl, by simp [new], by simp [UInt64.size]⟩

theorem Shows.reset (h : t.Shows b) : t.reset.Shows b.reset :=
  ⟨h.policy, by simp [Timed.reset, Backoff.reset], by simp [Backoff.reset, UInt64.size]⟩

theorem toNanos_ceiling (maxMicros : UInt64) :
    (Duration.ofMicros (max maxMicros 1)).toNanos = ceiling maxMicros * 1000 := by
  have hmax : (max maxMicros 1).toNat = max maxMicros.toNat 1 := by
    change (if maxMicros ≤ 1 then 1 else maxMicros).toNat = _
    split
    · next h => exact (Nat.max_eq_right (UInt64.le_iff_toNat_le.mp h)).symm
    · next h => exact (Nat.max_eq_left (Nat.le_of_not_le (mt UInt64.le_iff_toNat_le.mpr h))).symm
  rw [Duration.toNanos_ofMicros, hmax, ceiling]

theorem Shows.exists_doubled (h : t.Shows b) :
    ∃ doubled : Duration, t.current.times? 2 = some doubled ∧
      doubled.toNanos = b.current * 2 * 1000 := by
  have hshort := h.short
  have hlt : b.current * 2 * 1000 < Duration.bound := by
    simp only [Duration.bound, UInt64.size] at *
    omega
  obtain ⟨doubled, hdoubled⟩ := Duration.exists_toNanos_eq hlt
  refine ⟨doubled, Duration.times?_eq_some_iff.mpr ?_, hdoubled⟩
  rw [hdoubled, h.current]
  exact Nat.mul_right_comm ..

theorem Shows.idle_exponential (h : t.Shows b) {maxMicros : UInt64}
    (hp : b.policy = .exponential maxMicros) :
    ∃ (rest : Rest) (t' : Timed), t.idle = .ok (rest, t') ∧ rest.toNanos = b.pause * 1000 ∧
      t'.Shows b.idle := by
  obtain ⟨doubled, hdoubled, hnanos⟩ := h.exists_doubled
  have hceiling := ceiling_lt maxMicros
  simp only [Timed.idle, h.policy, hp, hdoubled, Backoff.idle, pause]
  refine ⟨_, _, rfl, ?_, rfl, ?_, ?_⟩
  · rw [Rest.toNanos, Duration.toNanos_min, h.current, toNanos_ceiling]
    exact Nat.mul_min_mul_right ..
  · rw [Duration.toNanos_min, hnanos, toNanos_ceiling]
    exact Nat.mul_min_mul_right ..
  · exact Nat.lt_of_le_of_lt (Nat.min_le_right ..) hceiling

theorem Shows.idle (h : t.Shows b) :
    ∃ (rest : Rest) (t' : Timed), t.idle = .ok (rest, t') ∧ rest.toNanos = b.pause * 1000 ∧
      t'.Shows b.idle := by
  cases hp : b.policy with
  | exponential maxMicros => exact h.idle_exponential hp
  | spin | yield =>
    simp only [Timed.idle, h.policy, hp, Backoff.idle, pause]
    exact ⟨_, _, rfl, rfl, h⟩
  | sleep micros =>
    simp only [Timed.idle, h.policy, hp, Backoff.idle, pause]
    exact ⟨_, _, rfl, by rw [Rest.toNanos, Duration.toNanos_ofMicros], h⟩

theorem Shows.call (h : t.Shows b) (c : Call) :
    ∃ t' : Timed, t.call c = .ok t' ∧ t'.Shows (b.call c) := by
  cases c with
  | idle =>
    obtain ⟨rest, t', hidle, -, hshows⟩ := h.idle
    exact ⟨t', by rw [Timed.call, hidle]; rfl, hshows⟩
  | reset => exact ⟨_, rfl, h.reset⟩

theorem Shows.run (h : t.Shows b) (calls : List Call) :
    ∃ t' : Timed, Timed.run calls t = .ok t' ∧ t'.Shows (calls.foldl Backoff.call b) := by
  induction calls generalizing t b with
  | nil => exact ⟨t, rfl, h⟩
  | cons c calls ih =>
    obtain ⟨u, hcall, hu⟩ := h.call c
    obtain ⟨t', hrun, ht⟩ := ih hu
    exact ⟨t', by rw [Timed.run, List.foldlM_cons, hcall]; exact hrun, ht⟩

end Timed

/-- Since the last reset each idle call has doubled the sleep of an exponential backoff, up to its
ceiling. Counted in spans of time the calls run without a fault and come to the same. -/
theorem sleeps_double (policy : BackoffPolicy) (calls : List Call) :
    (∀ maxMicros, policy = .exponential maxMicros →
      (after policy calls).current = min (2 ^ streak calls) (max maxMicros.toNat 1) ∧
      (after policy calls).pause = min (2 ^ streak calls) (max maxMicros.toNat 1)) ∧
    ((∀ maxMicros, policy ≠ .exponential maxMicros) → (after policy calls).current = 1) ∧
    ∃ (t t' : Timed) (rest : Rest), Timed.run calls (.new policy) = .ok t ∧
      t.current.toNanos = (after policy calls).current * 1000 ∧
      t.idle = .ok (rest, t') ∧ rest.toNanos = (after policy calls).pause * 1000 ∧
      t'.current.toNanos = (after policy (calls ++ [.idle])).current * 1000 := by
  refine ⟨?_, current_constant, ?_⟩
  · rintro maxMicros rfl
    have hcurrent : (after (.exponential maxMicros) calls).current =
        min (2 ^ streak calls) (ceiling maxMicros) := current_exponential
    refine ⟨hcurrent, ?_⟩
    rw [pause, policy_after]
    simp only [hcurrent, ceiling, Nat.min_assoc, Nat.min_self]
  · obtain ⟨t, hrun, ht⟩ := (Timed.shows_new policy).run calls
    obtain ⟨rest, t', hidle, hrest, ht'⟩ := ht.idle
    refine ⟨t, t', rest, hrun, ht.current, hidle, hrest, ?_⟩
    rw [after_concat]
    exact ht'.current

/-- The highest ceiling is reached after 64 idle calls, and is no power of two. -/
theorem longest_sleeps_double :
    (after (.exponential 18446744073709551615) (.replicate 70 .idle)).current =
        18446744073709551615 ∧
      ∃ t : Timed, Timed.run (.replicate 70 .idle) (.new (.exponential 18446744073709551615)) =
          .ok t ∧ t.current.toNanos = 18446744073709551615000 := by
  obtain ⟨hexponential, -, t, -, -, hrun, hcurrent, -⟩ :=
    sleeps_double (.exponential 18446744073709551615) (.replicate 70 .idle)
  obtain ⟨hsleep, -⟩ := hexponential _ rfl
  have htop : (after (.exponential 18446744073709551615) (.replicate 70 .idle)).current =
      18446744073709551615 := hsleep.trans (by decide)
  exact ⟨htop, t, hrun, by rw [hcurrent, htop]⟩

end DmaBurst.Backoff
