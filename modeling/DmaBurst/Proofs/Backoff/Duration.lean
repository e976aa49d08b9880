import Mathlib.Order.Basic

namespace DmaBurst

structure Duration where
  seconds : UInt64
  nanos : Fin 1000000000
  deriving DecidableEq, Repr

namespace Duration

variable {d e : Duration}

def toNanos (d : Duration) : Nat :=
  d.seconds.toNat * 1000000000 + d.nanos

def bound : Nat := UInt64.size * 1000000000

theorem toNanos_lt (d : Duration) : d.toNanos < bound := by
  have hseconds := d.seconds.toNat_lt_size
  have hnanos := d.nanos.isLt
  simp only [toNanos, bound, UInt64.size] at *
  omega

theorem toNanos_injective (h : d.toNanos = e.toNanos) : d = e := by
  obtain ⟨seconds, nanos⟩ := d
  obtain ⟨seconds', nanos'⟩ := e
  simp only [toNanos] at h
  have hs : seconds = seconds' := UInt64.toNat_inj.mp (by omega)
  have hn : nanos = nanos' := Fin.ext (by omega)
  rw [hs, hn]

theorem exists_toNanos_eq {n : Nat} (h : n < bound) : ∃ d : Duration, d.toNanos = n := by
  have hs : n / 1000000000 < UInt64.size := Nat.div_lt_of_lt_mul (by rwa [Nat.mul_comm])
  refine ⟨⟨.ofNat (n / 1000000000), .ofNat _ n⟩, ?_⟩
  rw [toNanos, UInt64.toNat_ofNat_of_lt' hs, Fin.val_ofNat, Nat.div_add_mod']

def ofMicros (micros : UInt64) : Duration where
  seconds := micros / 1000000
  nanos := .ofNat _ (micros.toNat % 1000000 * 1000)

@[simp] theorem toNanos_ofMicros (micros : UInt64) :
    (ofMicros micros).toNanos = micros.toNat * 1000 := by
  have hs : (micros / 1000000).toNat = micros.toNat / 1000000 := UInt64.toNat_div ..
  have hn : micros.toNat % 1000000 * 1000 % 1000000000 = micros.toNat % 1000000 * 1000 :=
    Nat.mod_eq_of_lt (by omega)
  simp only [toNanos, ofMicros, hs, Fin.val_ofNat, hn]
  omega

instance : LE Duration where
  le d e := d.seconds < e.seconds ∨ d.seconds = e.seconds ∧ d.nanos ≤ e.nanos

instance (d e : Duration) : Decidable (d ≤ e) :=
  inferInstanceAs (Decidable (d.seconds < e.seconds ∨ d.seconds = e.seconds ∧ d.nanos ≤ e.nanos))

instance : Min Duration := minOfLe

theorem le_iff : d ≤ e ↔ d.toNanos ≤ e.toNanos := by
  have hd := d.nanos.isLt
  have he := e.nanos.isLt
  change d.seconds < e.seconds ∨ d.seconds = e.seconds ∧ d.nanos ≤ e.nanos ↔ _
  rw [UInt64.lt_iff_toNat_lt, ← UInt64.toNat_inj, Fin.le_def, toNanos, toNanos]
  omega

@[simp] theorem toNanos_min (d e : Duration) : (min d e).toNanos = min d.toNanos e.toNanos := by
  change (if d ≤ e then d else e).toNanos = _
  split
  · next h => exact (Nat.min_eq_left (le_iff.mp h)).symm
  · next h => exact (Nat.min_eq_right (by rw [le_iff] at h; omega)).symm

/-- A multiple of a span, if its seconds have 64 bits. The nanoseconds carry over to the seconds. -/
def times? (count : UInt32) (d : Duration) : Option Duration :=
  let nanos := d.nanos * count.toNat
  let seconds := d.seconds.toNat * count.toNat + nanos / 1000000000
  if seconds < UInt64.size then some ⟨.ofNat seconds, .ofNat _ nanos⟩ else none

theorem carried (d : Duration) (count : Nat) :
    (d.seconds.toNat * count + d.nanos * count / 1000000000) * 1000000000 +
      d.nanos * count % 1000000000 = d.toNanos * count := by
  rw [toNanos, Nat.add_mul _ _ count, Nat.mul_right_comm _ _ count]
  omega

theorem times?_eq_some_iff {count : UInt32} :
    d.times? count = some e ↔ e.toNanos = d.toNanos * count.toNat := by
  have hcarried := d.carried count.toNat
  by_cases hfits : d.seconds.toNat * count.toNat + d.nanos * count.toNat / 1000000000 < UInt64.size
  · have hexact : ∀ p : Duration, d.times? count = some p →
        p.toNanos = d.toNanos * count.toNat := by
      intro p hp
      simp only [times?, hfits, if_true, Option.some_inj] at hp
      rw [← hp, toNanos, UInt64.toNat_ofNat_of_lt' hfits, Fin.val_ofNat, hcarried]
    refine ⟨hexact e, fun he => ?_⟩
    have hsome : ∃ p, d.times? count = some p := ⟨_, if_pos hfits⟩
    obtain ⟨p, hp⟩ := hsome
    rw [hp, toNanos_injective ((hexact p hp).trans he.symm)]
  · have hnone : d.times? count = none := if_neg hfits
    rw [hnone]
    refine ⟨fun h => (Option.some_ne_none _ h.symm).elim, fun he => ?_⟩
    have hlt := e.toNanos_lt
    simp only [bound] at hlt
    omega

end Duration

end DmaBurst
