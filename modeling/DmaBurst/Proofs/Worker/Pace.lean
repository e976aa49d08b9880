import DmaBurst.Proofs.Queue.Burst
import DmaBurst.Worker.Receive
import DmaBurst.Worker.Transmit

namespace DmaBurst

/-- What a poll reads of the run that it belongs to: neither is a shutdown asked for nor has another
worker failed. -/
def undisturbed : List Bool := [false, false]

/-- A worker whose polls are counted down: on a ring that nothing else touches, a poll that does not
end it brings it closer to its end, or it never ends. -/
class PacedWorker (ω : Type) [Worker ω] : Prop where
  closer : ∀ {w w' : ω} {r r' : PacketRing} {p : Poll},
    Worker.poll undisturbed w r = (.ok p, w', r') → (∀ status, p ≠ .done status) →
      Worker.pollsLeft w' < Worker.pollsLeft w ∨
        ∀ fuel, (Worker.pollUntilDone undisturbed fuel w' r').1 = .error .stuck

namespace Worker

variable {ω : Type} [Worker ω] {w w' : ω} {r r' : PacketRing} {flags : List Bool}

theorem pollUntilDone_succ (flags : List Bool) (fuel : Nat) (w : ω) (r : PacketRing) :
    pollUntilDone flags (fuel + 1) w r =
      match poll flags w r with
      | (.ok (.done _), w, r) => (.ok (), w, r)
      | (.ok _, w, r) => pollUntilDone flags fuel w r
      | (.error e, w, r) => (.error e, w, r) := rfl

theorem pollUntilDone_mono {fuel fuel' : Nat} (hle : fuel ≤ fuel')
    (h : pollUntilDone flags fuel w r = (.ok (), w', r')) :
    pollUntilDone flags fuel' w r = (.ok (), w', r') := by
  induction fuel generalizing fuel' w r with
  | zero => cases h
  | succ fuel ih =>
    obtain ⟨more, rfl⟩ := Nat.exists_eq_add_of_le' (Nat.zero_lt_of_lt hle)
    rw [pollUntilDone_succ] at h ⊢
    rcases hpoll : poll flags w r with ⟨_ | p, w₁, r₁⟩
    · rw [hpoll] at h
      cases h
    · rw [hpoll] at h
      cases p with
      | done status => exact h
      | progress packets => exact ih (Nat.le_of_succ_le_succ hle) h
      | idle => exact ih (Nat.le_of_succ_le_succ hle) h

/-- However long a worker takes to its end, the polls that it has left are enough. -/
theorem pollUntilDone_pollsLeft [PacedWorker ω] {fuel : Nat}
    (h : pollUntilDone undisturbed fuel w r = (.ok (), w', r')) :
    pollUntilDone undisturbed (pollsLeft w + 1) w r = (.ok (), w', r') := by
  induction fuel generalizing w r with
  | zero => cases h
  | succ fuel ih =>
    rw [pollUntilDone_succ] at h ⊢
    rcases hpoll : poll undisturbed w r with ⟨_ | p, w₁, r₁⟩
    · rw [hpoll] at h
      cases h
    · rw [hpoll] at h
      have hmore : (∀ status, p ≠ .done status) →
          pollUntilDone undisturbed fuel w₁ r₁ = (.ok (), w', r') →
          pollUntilDone undisturbed (pollsLeft w) w₁ r₁ = (.ok (), w', r') := by
        intro hp hend
        rcases PacedWorker.closer hpoll hp with hlt | hnever
        · exact pollUntilDone_mono hlt (ih hend)
        · have hstuck := hnever fuel
          rw [hend] at hstuck
          cases hstuck
      cases p with
      | done status => exact h
      | progress packets => exact hmore (fun _ hn => by cases hn) h
      | idle => exact hmore (fun _ hn => by cases hn) h

theorem pollUntilDone_along {P : Nat → ω → PacketRing → Prop} {n : Nat}
    (hstep : ∀ k < n, ∀ w r, P k w r → ∃ p w' r', poll flags w r = (.ok p, w', r') ∧
      (∀ status, p ≠ .done status) ∧ P (k + 1) w' r')
    (h : P 0 w r) : ∃ w' r', P n w' r' ∧
      ∀ fuel, pollUntilDone flags (n + fuel) w r = pollUntilDone flags fuel w' r' := by
  induction n with
  | zero => exact ⟨w, r, h, fun fuel => by rw [Nat.zero_add]⟩
  | succ n ih =>
    obtain ⟨w', r', hP, hcourse⟩ := ih fun k hk => hstep k (Nat.lt_succ_of_lt hk)
    obtain ⟨p, w'', r'', hpoll, hp, hP'⟩ := hstep n (Nat.lt_succ_self n) w' r' hP
    refine ⟨w'', r'', hP', fun fuel => ?_⟩
    rw [Nat.add_right_comm, Nat.add_assoc, hcourse, pollUntilDone_succ, hpoll]
    cases p with
    | done status => exact absurd rfl (hp status)
    | progress packets => rfl
    | idle => rfl

theorem run_of_course {n : Nat} (hn : n ≤ pollsLeft w)
    (hcourse : ∀ fuel, pollUntilDone flags (n + fuel) w r = pollUntilDone flags fuel w' r')
    {status : WorkerStatus} {w'' : ω} {r'' : PacketRing} {rep : WorkerReport}
    (hdone : poll flags w' r' = (.ok (.done status), w'', r'')) (hreport : report w'' = .ok rep) :
    run flags w r = (.ok rep, w'', r'') := by
  obtain ⟨more, hmore⟩ := Nat.exists_eq_add_of_le hn
  rw [run, hmore, Nat.add_assoc, hcourse, pollUntilDone_succ, hdone]
  simp only [Except.bind, hreport]
  rfl

theorem pollUntilDone_of_idle {Idles : ω → PacketRing → Prop}
    (hidle : ∀ w r, Idles w r → ∃ w' r', poll flags w r = (.ok .idle, w', r') ∧ Idles w' r')
    (h : Idles w r) (fuel : Nat) : (pollUntilDone flags fuel w r).1 = .error .stuck := by
  induction fuel generalizing w r with
  | zero => rfl
  | succ fuel ih =>
    obtain ⟨w', r', hpoll, h'⟩ := hidle w r h
    rw [pollUntilDone_succ, hpoll]
    exact ih h'

end Worker

theorem pollsLeft_of_cap {cap : Nat} {polls : Nat} (h : capReached (some cap) polls = false) :
    cap - (polls + 1) < cap - polls := by
  simp only [capReached, Option.any_some, decide_eq_false_iff_not] at h
  omega

namespace RxWorker

variable {σ : Type} {w w' : RxWorker σ} {r r' : PacketRing} {p : Poll}

structure Starved (w : RxWorker σ) (r : PacketRing) : Prop where
  finished_eq : w.finished = none
  maxPolls_eq : w.maxPolls = none
  owes : w.budget.isMet = false
  queue : w.queue.Starved w.batchSize r

theorem verdict_eq_none_iff {flags : List Bool} : w.verdict flags = none ↔
    w.budget.isMet = false ∧ flags.any id = false ∧ capReached w.maxPolls w.polls = false := by
  rw [verdict]
  cases w.budget.isMet <;> cases flags.any id <;> cases capReached w.maxPolls w.polls <;> simp

theorem verdict_eq_none :
    w.verdict undisturbed = none ↔
      w.budget.isMet = false ∧ capReached w.maxPolls w.polls = false := by
  rw [verdict_eq_none_iff]
  simp [undisturbed]

theorem toNat_remaining_consume {b : Budget} (h : b.isMet = false) {len : Nat} (hlen : len ≠ 0) :
    (b.consume len).remaining.toNat < b.remaining.toNat := by
  simp only [Budget.isMet, decide_eq_false_iff_not] at h
  simp only [Budget.consume, budgetMin, budgetMax]
  omega

variable [ByteSink σ]

theorem poll_eq_burst {flags : List Bool} (hf : w.finished = none) (hv : w.verdict flags = none)
    (r : PacketRing) : w.poll flags r = w.burst r := by
  rw [poll, hf]
  simp only [hv]

theorem burst_of_starved (h : w.queue.Starved w.batchSize r) :
    ∃ r', w.burst r = (.ok .idle, { w with
        queue := (w.queue.lent w.batchSize 0).ended 0 0
        polls := w.polls + 1
        backoff := w.backoff.idle }, r') ∧
      ((w.queue.lent w.batchSize 0).ended 0 0).Starved w.batchSize r' := by
  obtain ⟨s, r', hacquire, hrelease, h'⟩ := h.again
  refine ⟨r', ?_, h'⟩
  rw [burst]
  simp only [hacquire, drain, writeBurst, hrelease]
  rfl

theorem poll_of_starved (w : RxWorker σ) (r : PacketRing) (h : w.Starved r) :
    ∃ w' r', w.poll undisturbed r = (.ok .idle, w', r') ∧ w'.Starved r' := by
  obtain ⟨r', hburst, hqueue⟩ := burst_of_starved h.queue
  have hverdict : w.verdict undisturbed = none :=
    verdict_eq_none.mpr ⟨h.owes, by rw [h.maxPolls_eq]; rfl⟩
  have hpoll := poll_eq_burst h.finished_eq hverdict r
  exact ⟨_, r', hpoll.trans hburst, h.finished_eq, h.maxPolls_eq, h.owes, hqueue⟩

theorem burst_cases (h : w.burst r = (.ok p, w', r')) :
    w'.polls = w.polls + 1 ∧ w'.maxPolls = w.maxPolls ∧
      ((∃ len, len ≠ 0 ∧ w'.budget = w.budget.consume len) ∨
        (w'.budget = w.budget ∧ w'.finished = w.finished ∧
          w'.queue.Starved w'.batchSize r')) := by
  rw [burst] at h
  rcases hacquire : w.queue.acquire w.batchSize r with ⟨_ | len, q, s⟩
  · simp only [hacquire] at h
    cases h
  · by_cases hz : len = 0
    · subst hz
      have hready := Queue.ready_of_acquire hacquire
      have hnone := (Queue.acquire_ready hready w.batchSize r).symm.trans hacquire
      obtain ⟨r'', hburst, hqueue⟩ := burst_of_starved
        ⟨hready, Except.ok.inj (congrArg Prod.fst hnone)⟩
      rw [burst, h] at hburst
      cases hburst
      exact ⟨rfl, rfl, .inr ⟨rfl, rfl, hqueue⟩⟩
    · simp only [hacquire, drain] at h
      split at h
      · cases h
      · cases h
      · rw [if_neg hz] at h
        cases h
        exact ⟨rfl, rfl, .inl ⟨len, hz, rfl⟩⟩

theorem closer (h : w.poll undisturbed r = (.ok p, w', r')) (hp : ∀ status, p ≠ .done status) :
    Worker.pollsLeft w' < Worker.pollsLeft w ∨ w'.Starved r' := by
  rw [poll] at h
  split at h
  · cases h
    exact absurd rfl (hp _)
  · next hf =>
    split at h
    · cases h
      exact absurd rfl (hp _)
    · next hv =>
      obtain ⟨howes, hcap⟩ := verdict_eq_none.mp hv
      obtain ⟨hpolls, hmax, hmoved⟩ := burst_cases h
      simp only [Worker.pollsLeft, hpolls, hmax]
      cases hm : w.maxPolls with
      | some cap => exact .inl (Nat.succ_lt_succ (pollsLeft_of_cap (hm ▸ hcap)))
      | none =>
        rcases hmoved with ⟨len, hlen, hb⟩ | ⟨hb, hfinished, hqueue⟩
        · rw [hb]
          exact .inl (Nat.succ_lt_succ (toNat_remaining_consume howes hlen))
        · exact .inr ⟨hfinished.trans hf, hmax.trans hm, hb ▸ howes, hqueue⟩

instance : PacedWorker (RxWorker σ) where
  closer h hp := (closer h hp).imp_right (Worker.pollUntilDone_of_idle poll_of_starved)

end RxWorker

namespace TxWorker

variable {σ : Type} {w w' : TxWorker σ} {r r' : PacketRing} {p : Poll}

structure Starved (w : TxWorker σ) (r : PacketRing) : Prop where
  finished_eq : w.finished = none
  maxPolls_eq : w.maxPolls = none
  supplied : w.exhausted = false
  owes : w.roundsDone < w.rounds
  queue : w.queue.Starved w.batchSize r

theorem verdict_eq_none_iff {flags : List Bool} : w.verdict flags = none ↔ w.exhausted = false ∧
    w.roundsDone < w.rounds ∧ flags.any id = false ∧ capReached w.maxPolls w.polls = false := by
  rw [verdict, ← Nat.not_le]
  by_cases hrounds : w.rounds ≤ w.roundsDone <;> cases w.exhausted <;> cases flags.any id <;>
    cases capReached w.maxPolls w.polls <;> simp [hrounds]

theorem verdict_eq_none :
    w.verdict undisturbed = none ↔
      w.exhausted = false ∧ w.roundsDone < w.rounds ∧
        capReached w.maxPolls w.polls = false := by
  rw [verdict_eq_none_iff]
  simp [undisturbed]

variable [PacketSource σ]

theorem poll_eq_burst {flags : List Bool} (hf : w.finished = none) (hv : w.verdict flags = none)
    (r : PacketRing) : w.poll flags r = w.burst r := by
  rw [poll, hf]
  simp only [hv]

theorem burst_of_starved (h : w.queue.Starved w.batchSize r) :
    ∃ r', w.burst r = (.ok .idle, { w with
        queue := (w.queue.lent w.batchSize 0).ended 0 0
        polls := w.polls + 1
        backoff := w.backoff.idle }, r') ∧
      ((w.queue.lent w.batchSize 0).ended 0 0).Starved w.batchSize r' := by
  obtain ⟨s, r', hacquire, hrelease, h'⟩ := h.again
  refine ⟨r', ?_, h'⟩
  rw [burst]
  simp only [hacquire, rest, hrelease]

theorem poll_of_starved (w : TxWorker σ) (r : PacketRing) (h : w.Starved r) :
    ∃ w' r', w.poll undisturbed r = (.ok .idle, w', r') ∧ w'.Starved r' := by
  obtain ⟨r', hburst, hqueue⟩ := burst_of_starved h.queue
  have hverdict : w.verdict undisturbed = none :=
    verdict_eq_none.mpr ⟨h.supplied, h.owes, by rw [h.maxPolls_eq]; rfl⟩
  have hpoll := poll_eq_burst h.finished_eq hverdict r
  exact ⟨_, r', hpoll.trans hburst, h.finished_eq, h.maxPolls_eq, h.supplied, h.owes, hqueue⟩

theorem burst_cases (h : w.burst r = (.ok p, w', r')) :
    w'.polls = w.polls + 1 ∧ w'.maxPolls = w.maxPolls ∧ w'.rounds = w.rounds ∧
      (w'.roundsDone = w.roundsDone + 1 ∨
        (w'.roundsDone = w.roundsDone ∧ w'.exhausted = w.exhausted ∧
          w'.finished = w.finished ∧ w'.queue.Starved w'.batchSize r')) := by
  rw [burst] at h
  rcases hacquire : w.queue.acquire w.batchSize r with ⟨_ | _ | len, q, s⟩
  · simp only [hacquire] at h
    cases h
  · have hready := Queue.ready_of_acquire hacquire
    have hnone := (Queue.acquire_ready hready w.batchSize r).symm.trans hacquire
    obtain ⟨r'', hburst, hqueue⟩ := burst_of_starved
      ⟨hready, Except.ok.inj (congrArg Prod.fst hnone)⟩
    rw [burst, h] at hburst
    cases hburst
    exact ⟨rfl, rfl, rfl, .inr ⟨rfl, rfl, rfl, hqueue⟩⟩
  · simp only [hacquire, send] at h
    split at h
    · cases h
    · split at h
      · cases h
      · cases h
        exact ⟨rfl, rfl, rfl, .inl rfl⟩

theorem closer (h : w.poll undisturbed r = (.ok p, w', r')) (hp : ∀ status, p ≠ .done status) :
    Worker.pollsLeft w' < Worker.pollsLeft w ∨ w'.Starved r' := by
  rw [poll] at h
  split at h
  · cases h
    exact absurd rfl (hp _)
  · next hf =>
    split at h
    · cases h
      exact absurd rfl (hp _)
    · next hv =>
      obtain ⟨hsupplied, howes, hcap⟩ := verdict_eq_none.mp hv
      obtain ⟨hpolls, hmax, hrounds, hmoved⟩ := burst_cases h
      simp only [Worker.pollsLeft, hpolls, hmax, hrounds]
      cases hm : w.maxPolls with
      | some cap => exact .inl (Nat.succ_lt_succ (pollsLeft_of_cap (hm ▸ hcap)))
      | none =>
        rcases hmoved with hdone | ⟨hdone, hexhausted, hfinished, hqueue⟩
        · refine .inl (Nat.succ_lt_succ ?_)
          rw [Option.elim_none, Option.elim_none, hdone]
          omega
        · exact .inr ⟨hfinished.trans hf, hmax.trans hm, hexhausted.trans hsupplied,
            by rw [hdone, hrounds]; exact howes, hqueue⟩

instance : PacedWorker (TxWorker σ) where
  closer h hp := (closer h hp).imp_right (Worker.pollUntilDone_of_idle poll_of_starved)

end TxWorker

end DmaBurst
