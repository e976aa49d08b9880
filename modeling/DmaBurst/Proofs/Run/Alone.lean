import DmaBurst.Proofs.Run.Drive
import DmaBurst.Proofs.Worker.Pace
import Mathlib.Logic.Function.Iterate

namespace DmaBurst

open Function

def Station.id {ω : Type} [Worker ω] (s : Station ω) : QueueId :=
  (Worker.queue s.worker).channel.id

namespace Drive

variable {ω : Type} [Worker ω] {w w' : ω} {r r' : PacketRing} {x : Station ω × PacketRing}
  {report : WorkerReport} {m n : Nat}

/-- A poll of a worker on a ring that nothing else touches, unless the worker has ended. -/
def alone (x : Station ω × PacketRing) : Station ω × PacketRing :=
  if x.1.ended.isSome then x
  else
    let (answer, w, r) := Worker.poll undisturbed x.1.worker x.2
    ({ worker := w, ended := ending w answer }, r)

theorem alone_of_polled (h : x.1.ended = none) :
    alone x = ({
      worker := (Worker.poll undisturbed x.1.worker x.2).2.1
      ended := ending (Worker.poll undisturbed x.1.worker x.2).2.1
        (Worker.poll undisturbed x.1.worker x.2).1 },
      (Worker.poll undisturbed x.1.worker x.2).2.2) := by
  rw [alone, h]
  rfl

theorem alone_of_ended (h : x.1.ended.isSome) : alone x = x :=
  if_pos h

theorem iterate_alone_of_le (hle : m ≤ n) (h : (alone^[m] x).1.ended.isSome) :
    alone^[n] x = alone^[m] x := by
  obtain ⟨k, rfl⟩ := Nat.exists_eq_add_of_le' hle
  rw [iterate_add_apply]
  exact iterate_fixed (alone_of_ended h) k

theorem iterate_alone_eq (hm : (alone^[m] x).1.ended.isSome)
    (hn : (alone^[n] x).1.ended.isSome) : alone^[m] x = alone^[n] x := by
  rcases Nat.le_total m n with hle | hle
  · exact (iterate_alone_of_le hle hm).symm
  · exact iterate_alone_of_le hle hn

theorem iterate_alone_of_done (h : Worker.pollUntilDone undisturbed n w r = (.ok (), w', r')) :
    alone^[n] ({ worker := w }, r) =
      ({ worker := w', ended := some ((Worker.report w').mapError .fault) }, r') := by
  induction n generalizing w r with
  | zero => cases h
  | succ n ih =>
    rw [iterate_succ_apply, alone_of_polled rfl]
    rw [Worker.pollUntilDone_succ] at h
    rcases hpoll : Worker.poll undisturbed w r with ⟨_ | p, w₁, r₁⟩
    · rw [hpoll] at h
      cases h
    · rw [hpoll] at h
      cases p with
      | done status =>
        cases h
        exact iterate_fixed (alone_of_ended rfl) n
      | progress packets => exact ih h
      | idle => exact ih h

theorem done_of_iterate_alone
    (h : alone^[n] ({ worker := w }, r) = ({ worker := w', ended := some (.ok report) }, r')) :
    Worker.pollUntilDone undisturbed n w r = (.ok (), w', r') ∧ Worker.report w' = .ok report := by
  induction n generalizing w r with
  | zero => cases h
  | succ n ih =>
    rw [iterate_succ_apply, alone_of_polled rfl] at h
    rw [Worker.pollUntilDone_succ]
    rcases hpoll : Worker.poll undisturbed w r with ⟨e | p, w₁, r₁⟩
    · simp only [hpoll] at h
      rw [iterate_fixed (alone_of_ended rfl)] at h
      cases h
    · simp only [hpoll] at h
      cases p with
      | done status =>
        rw [iterate_fixed (alone_of_ended rfl)] at h
        simp only [ending, Prod.mk.injEq, Station.mk.injEq, Option.some.injEq] at h
        obtain ⟨⟨rfl, hreport⟩, rfl⟩ := h
        cases hr : Worker.report w₁ with
        | error e =>
          rw [hr] at hreport
          cases hreport
        | ok report' =>
          rw [hr] at hreport
          cases hreport
          exact ⟨rfl, rfl⟩
      | progress packets => exact ih h
      | idle => exact ih h

/-- A worker that comes to a report when it is polled often enough comes to the same report when it
is run alone, in no more polls than it had left. -/
theorem run_of_iterate_alone [PacedWorker ω]
    (h : alone^[n] ({ worker := w }, r) = ({ worker := w', ended := some (.ok report) }, r')) :
    Worker.run undisturbed w r = (.ok report, w', r') ∧
      (alone^[Worker.pollsLeft w + 1] ({ worker := w }, r)).1.ended.isSome := by
  obtain ⟨hdone, hreport⟩ := done_of_iterate_alone h
  have hdone' := Worker.pollUntilDone_pollsLeft hdone
  constructor
  · rw [Worker.run, hdone']
    simp only [hreport]
    rfl
  · rw [iterate_alone_of_done hdone']
    rfl

omit [Worker ω] in
theorem failed_of_report {s : Station ω} (h : s.ended = some (.ok report)) : failed s = false := by
  rw [failed, h]
  rfl

omit [Worker ω] in
theorem ended_of_failed {s : Station ω} (h : failed s = true) : s.ended.isSome := by
  cases hs : s.ended with
  | none =>
    rw [failed, hs] at h
    cases h
  | some answer => rfl

def EndsWell (x : Station ω × PacketRing) : Prop :=
  ∃ n report, (alone^[n] x).1.ended = some (.ok report)

theorem EndsWell.of_alone (h : EndsWell (alone x)) : EndsWell x := by
  obtain ⟨n, report, h⟩ := h
  exact ⟨n + 1, report, h⟩

theorem EndsWell.iterate (h : EndsWell x) (n : Nat) : EndsWell (alone^[n] x) := by
  obtain ⟨m, report, hm⟩ := h
  refine ⟨m, report, ?_⟩
  rw [← iterate_add_apply, iterate_alone_of_le (Nat.le_add_right m n) (by rw [hm]; rfl)]
  exact hm

theorem EndsWell.not_failed (h : EndsWell x) : failed x.1 = false := by
  obtain ⟨n, report, hn⟩ := h
  cases hx : x.1.ended with
  | none => rw [failed, hx]; rfl
  | some answer =>
    rw [iterate_fixed (alone_of_ended (by rw [hx]; rfl))] at hn
    exact failed_of_report hn

theorem id_alone [LawfulWorker ω] (x : Station ω × PacketRing) : (alone x).1.id = x.1.id := by
  cases h : x.1.ended with
  | none =>
    rw [alone_of_polled h]
    exact congrArg Standing.id (LawfulWorker.poll_standing undisturbed x.1.worker x.2)
  | some answer => rw [alone_of_ended (by rw [h]; rfl)]

theorem id_iterate_alone [LawfulWorker ω] (n : Nat) (x : Station ω × PacketRing) :
    (alone^[n] x).1.id = x.1.id := by
  induction n generalizing x with
  | zero => rfl
  | succ n ih => exact (ih (alone x)).trans (id_alone x)

end Drive

end DmaBurst
