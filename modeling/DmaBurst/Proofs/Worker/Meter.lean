import DmaBurst.Proofs.Worker.Pace
import DmaBurst.Proofs.Worker.TransmitStream

namespace DmaBurst

/-- What happens to a worker and its ring: polls, with the shutdown flags as they are at the time,
and whatever the hardware makes of the ring. -/
inductive Happening where
  | poll (flags : List Bool)
  | hardware (act : PacketRing → PacketRing)

def Happening.isPoll : Happening → Bool
  | .poll _ => true
  | .hardware _ => false

def Happening.ringAfter : List Happening → PacketRing → PacketRing
  | [], r => r
  | .poll _ :: rest, r => ringAfter rest r
  | .hardware act :: rest, r => ringAfter rest (act r)

structure Call (ω : Type) where
  flags : List Bool
  worker : ω
  ring : PacketRing

def Call.answer {ω : Type} [Worker ω] (c : Call ω) : Except (Halt WorkerError) Poll :=
  (Worker.poll c.flags c.worker c.ring).1

def Poll.isDone : Except (Halt WorkerError) Poll → Bool
  | .ok (.done _) => true
  | _ => false

namespace Worker

variable {ω : Type} [Worker ω]

def live : List Happening → ω → PacketRing → ω × PacketRing
  | [], w, r => (w, r)
  | .poll flags :: rest, w, r => live rest (poll flags w r).2.1 (poll flags w r).2.2
  | .hardware act :: rest, w, r => live rest w (act r)

def calls : List Happening → ω → PacketRing → List (Call ω)
  | [], _, _ => []
  | .poll flags :: rest, w, r =>
    ⟨flags, w, r⟩ :: calls rest (poll flags w r).2.1 (poll flags w r).2.2
  | .hardware act :: rest, w, r => calls rest w (act r)

end Worker

/-- A worker counts its bursts and keeps to its cap. A poll that works on no burst gives the worker
its status, and leaves everything else as it is; a worker with a status keeps it. -/
class MeteredWorker (ω : Type) [Worker ω] where
  polls : ω → Nat
  maxPolls : ω → Option Nat
  status? : ω → Option WorkerStatus
  works : List Bool → ω → Bool
  status?_of_works : ∀ {flags : List Bool} {w : ω}, works flags w = true →
    status? w = none ∧ flags.any id = false ∧ capReached (maxPolls w) (polls w) = false
  poll_of_works : ∀ {flags : List Bool} {w : ω}, works flags w = true → ∀ r,
    Poll.isDone (Worker.poll flags w r).1 = false ∧
      polls (Worker.poll flags w r).2.1 = polls w + 1 ∧
      maxPolls (Worker.poll flags w r).2.1 = maxPolls w ∧
      status? (Worker.poll flags w r).2.1 = none
  poll_of_rests : ∀ {flags : List Bool} {w : ω}, works flags w = false → ∃ status w',
    (∀ r, Worker.poll flags w r = (.ok (.done status), w', r)) ∧
      Worker.queue w' = Worker.queue w ∧ polls w' = polls w ∧ maxPolls w' = maxPolls w ∧
      status? w' = some status ∧ (status? w = none ∨ w' = w)

namespace RxWorker

variable {σ : Type} {flags : List Bool} {w : RxWorker σ}

def works (flags : List Bool) (w : RxWorker σ) : Bool :=
  w.finished.isNone && (w.verdict flags).isNone

theorem works_iff : w.works flags = true ↔ w.finished = none ∧ w.verdict flags = none := by
  rw [works, Bool.and_eq_true, Option.isNone_iff_eq_none, Option.isNone_iff_eq_none]

variable [ByteSink σ]

theorem burst_counts (w : RxWorker σ) (r : PacketRing) :
    Poll.isDone (w.burst r).1 = false ∧ (w.burst r).2.1.polls = w.polls + 1 ∧
      (w.burst r).2.1.maxPolls = w.maxPolls ∧ (w.burst r).2.1.finished = w.finished := by
  rw [burst]
  rcases w.queue.acquire w.batchSize r with ⟨_ | len, q, s⟩
  · exact ⟨rfl, rfl, rfl, rfl⟩
  · simp only [drain]
    split
    · exact ⟨rfl, rfl, rfl, rfl⟩
    · exact ⟨rfl, rfl, rfl, rfl⟩
    · split <;> exact ⟨rfl, rfl, rfl, rfl⟩

theorem poll_of_verdict {status : WorkerStatus} (hf : w.finished = none)
    (hv : w.verdict flags = some status) (r : PacketRing) :
    w.poll flags r = (.ok (.done status), { w with finished := some status }, r) := by
  rw [poll, hf]
  simp only [hv]

theorem poll_of_rests (h : w.works flags = false) :
    ∃ status, (∀ r, w.poll flags r = (.ok (.done status), { w with finished := some status }, r)) ∧
      (w.finished = none ∧ w.verdict flags = some status ∨
        { w with finished := some status } = w) := by
  cases hf : w.finished with
  | some status =>
    obtain ⟨queue, sink, budget, batchSize, maxPolls, polls, backoff, finished⟩ := w
    cases hf
    exact ⟨status, fun _ => rfl, .inr rfl⟩
  | none =>
    cases hv : w.verdict flags with
    | some status => exact ⟨status, poll_of_verdict hf hv, .inl ⟨rfl, rfl⟩⟩
    | none =>
      rw [works_iff.mpr ⟨hf, hv⟩] at h
      cases h

instance : MeteredWorker (RxWorker σ) where
  polls := RxWorker.polls
  maxPolls := RxWorker.maxPolls
  status? := RxWorker.finished
  works := works
  status?_of_works h := by
    obtain ⟨hf, hv⟩ := works_iff.mp h
    exact ⟨hf, (verdict_eq_none_iff.mp hv).2⟩
  poll_of_works {flags w} h r := by
    obtain ⟨hf, hv⟩ := works_iff.mp h
    have hp : Worker.poll flags w r = w.burst r := poll_eq_burst hf hv r
    rw [hp]
    obtain ⟨hd, hpolls, hmax, hfin⟩ := burst_counts w r
    exact ⟨hd, hpolls, hmax, hfin.trans hf⟩
  poll_of_rests {flags w} h := by
    obtain ⟨status, hp, hs⟩ := poll_of_rests h
    exact ⟨status, _, hp, rfl, rfl, rfl, rfl, hs.imp_left And.left⟩

end RxWorker

namespace TxWorker

variable {σ : Type} {flags : List Bool} {w : TxWorker σ}

theorem works_iff : w.works flags = true ↔ w.finished = none ∧ w.verdict flags = none := by
  rw [works, Bool.and_eq_true, Option.isNone_iff_eq_none, Option.isNone_iff_eq_none]

variable [PacketSource σ]

theorem burst_counts (w : TxWorker σ) (r : PacketRing) :
    Poll.isDone (w.burst r).1 = false ∧ (w.burst r).2.1.polls = w.polls + 1 ∧
      (w.burst r).2.1.maxPolls = w.maxPolls ∧ (w.burst r).2.1.finished = w.finished := by
  rw [burst]
  rcases w.queue.acquire w.batchSize r with ⟨_ | _ | len, q, s⟩
  · exact ⟨rfl, rfl, rfl, rfl⟩
  · simp only [rest]
    split <;> exact ⟨rfl, rfl, rfl, rfl⟩
  · simp only [send]
    split
    · exact ⟨rfl, rfl, rfl, rfl⟩
    · split <;> exact ⟨rfl, rfl, rfl, rfl⟩

theorem poll_of_verdict {status : WorkerStatus} (hf : w.finished = none)
    (hv : w.verdict flags = some status) (r : PacketRing) :
    w.poll flags r = (.ok (.done status), { w with finished := some status }, r) := by
  rw [poll, hf]
  simp only [hv]

theorem poll_of_rests (h : w.works flags = false) :
    ∃ status, (∀ r, w.poll flags r = (.ok (.done status), { w with finished := some status }, r)) ∧
      (w.finished = none ∧ w.verdict flags = some status ∨
        { w with finished := some status } = w) := by
  cases hf : w.finished with
  | some status =>
    obtain ⟨queue, source, batchSize, rounds, roundsDone, sent, exhausted, maxPolls, polls, backoff,
      finished⟩ := w
    cases hf
    exact ⟨status, fun _ => rfl, .inr rfl⟩
  | none =>
    cases hv : w.verdict flags with
    | some status => exact ⟨status, poll_of_verdict hf hv, .inl ⟨rfl, rfl⟩⟩
    | none =>
      rw [works_iff.mpr ⟨hf, hv⟩] at h
      cases h

instance : MeteredWorker (TxWorker σ) where
  polls := TxWorker.polls
  maxPolls := TxWorker.maxPolls
  status? := TxWorker.finished
  works := works
  status?_of_works h := by
    obtain ⟨hf, hv⟩ := works_iff.mp h
    exact ⟨hf, (verdict_eq_none_iff.mp hv).2.2⟩
  poll_of_works {flags w} h r := by
    obtain ⟨hf, hv⟩ := works_iff.mp h
    have hp : Worker.poll flags w r = w.burst r := poll_eq_burst hf hv r
    rw [hp]
    obtain ⟨hd, hpolls, hmax, hfin⟩ := burst_counts w r
    exact ⟨hd, hpolls, hmax, hfin.trans hf⟩
  poll_of_rests {flags w} h := by
    obtain ⟨status, hp, hs⟩ := poll_of_rests h
    exact ⟨status, _, hp, rfl, rfl, rfl, rfl, hs.imp_left And.left⟩

end TxWorker

namespace Worker

open MeteredWorker

variable {ω : Type} [Worker ω] [MeteredWorker ω] {flags : List Bool} {w w' : ω}
  {r r' : PacketRing} {status : WorkerStatus}

theorem isDone_poll (flags : List Bool) (w : ω) (r : PacketRing) :
    Poll.isDone (poll flags w r).1 = !works flags w := by
  cases hw : works flags w with
  | true => exact (poll_of_works hw r).1
  | false =>
    obtain ⟨status, w', hp, -⟩ := poll_of_rests hw
    rw [hp]
    rfl

theorem works_of_undone (h : Poll.isDone (poll flags w r).1 = false) : works flags w = true := by
  rw [isDone_poll] at h
  simpa using h

theorem poll_of_status (h : status? w = some status) (flags : List Bool) (r : PacketRing) :
    poll flags w r = (.ok (.done status), w, r) := by
  cases hw : works flags w with
  | true =>
    rw [(status?_of_works hw).1] at h
    cases h
  | false =>
    obtain ⟨status', w', hp, -, -, -, hs, hnone | rfl⟩ := poll_of_rests hw
    · rw [hnone] at h
      cases h
    · rw [h] at hs
      cases hs
      exact hp r

theorem live_of_status (h : status? w = some status) (later : List Happening) (r : PacketRing) :
    live later w r = (w, Happening.ringAfter later r) ∧
      ∀ c ∈ calls later w r, c.answer = .ok (.done status) := by
  induction later generalizing r with
  | nil => exact ⟨rfl, fun c hc => absurd hc List.not_mem_nil⟩
  | cons happening later ih =>
    cases happening with
    | poll flags =>
      have hp := poll_of_status h flags r
      rw [live, calls, Happening.ringAfter, hp]
      obtain ⟨hlive, hcalls⟩ := ih r
      exact ⟨hlive, List.forall_mem_cons.mpr ⟨congrArg Prod.fst hp, hcalls⟩⟩
    | hardware act => exact ih (act r)

/-- What a worker has counted over `bursts` bursts: the cap is kept to, unless it was passed before
the first of them. -/
structure Metered (w w' : ω) (bursts : Nat) : Prop where
  polls_eq : polls w' = polls w + bursts
  maxPolls_eq : maxPolls w' = maxPolls w
  capped : ∀ cap, maxPolls w = some cap → bursts = 0 ∨ polls w' ≤ cap

theorem Metered.refl (w : ω) : Metered w w 0 :=
  ⟨rfl, rfl, fun _ _ => .inl rfl⟩

theorem Metered.trans {w'' : ω} {m n : Nat} (h : Metered w w' m) (h' : Metered w' w'' n) :
    Metered w w'' (m + n) := by
  have hpolls := h'.polls_eq
  refine ⟨?_, h'.maxPolls_eq.trans h.maxPolls_eq, fun cap hcap => ?_⟩
  · rw [hpolls, h.polls_eq, Nat.add_assoc]
  · have hfirst := h.capped cap hcap
    have hrest := h'.capped cap (h.maxPolls_eq.trans hcap)
    omega

theorem Metered.bursts_le {bursts cap : Nat} (h : Metered w w' bursts)
    (hcap : maxPolls w = some cap) : bursts ≤ cap - polls w := by
  have hpolls := h.polls_eq
  have hcapped := h.capped cap hcap
  omega

theorem Metered.polls_le {bursts cap : Nat} (h : Metered w w' bursts)
    (hcap : maxPolls w = some cap) (hle : polls w ≤ cap) : polls w' ≤ cap := by
  have hpolls := h.polls_eq
  have hcapped := h.capped cap hcap
  omega

theorem metered_poll (flags : List Bool) (w : ω) (r : PacketRing) :
    Metered w (poll flags w r).2.1 (works flags w).toNat := by
  cases hw : works flags w with
  | true =>
    obtain ⟨-, hpolls, hmax, -⟩ := poll_of_works hw r
    refine ⟨hpolls, hmax, fun cap hcap => .inr ?_⟩
    have hreached := (status?_of_works hw).2.2
    rw [hcap] at hreached
    simp only [capReached, Option.any_some, decide_eq_false_iff_not] at hreached
    omega
  | false =>
    obtain ⟨status, w', hp, -, hpolls, hmax, -⟩ := poll_of_rests hw
    rw [hp]
    exact ⟨hpolls, hmax, fun _ _ => .inl rfl⟩

structure AtWork (w w' : ω) (bursts : Nat) : Prop extends Metered w w' bursts where
  status?_eq : status? w = none → status? w' = none

theorem AtWork.refl (w : ω) : AtWork w w 0 :=
  ⟨.refl w, id⟩

theorem AtWork.trans {w'' : ω} {m n : Nat} (h : AtWork w w' m) (h' : AtWork w' w'' n) :
    AtWork w w'' (m + n) :=
  ⟨h.toMetered.trans h'.toMetered, h'.status?_eq ∘ h.status?_eq⟩

theorem atWork_poll (h : works flags w = true) (r : PacketRing) :
    AtWork w (poll flags w r).2.1 1 := by
  have hmetered := metered_poll flags w r
  rw [h] at hmetered
  exact ⟨hmetered, fun _ => (poll_of_works h r).2.2.2⟩

def Undone (past : List Happening) (w : ω) (r : PacketRing) : Prop :=
  ∀ c ∈ calls past w r, Poll.isDone c.answer = false

theorem atWork_live {past : List Happening} (h : Undone past w r) :
    AtWork w (live past w r).1 (calls past w r).length := by
  induction past generalizing w r with
  | nil => exact .refl w
  | cons happening past ih =>
    cases happening with
    | poll flags =>
      obtain ⟨hfirst, hrest⟩ := List.forall_mem_cons.mp h
      have hworks : works flags w = true := works_of_undone hfirst
      rw [calls, List.length_cons, Nat.add_comm]
      exact (atWork_poll hworks r).trans (ih hrest)
    | hardware act => exact ih h

/-- The bursts among polls: each of them acquires once, and no other poll does. -/
def bursts (polled : List (Call ω)) : Nat :=
  polled.countP fun c => works c.flags c.worker

theorem bursts_cons (c : Call ω) (polled : List (Call ω)) :
    bursts (c :: polled) = (works c.flags c.worker).toNat + bursts polled := by
  rw [bursts, List.countP_cons, Nat.add_comm, ← bursts]
  cases works c.flags c.worker <;> rfl

/-- Polls a worker until it is done or fails, amid all this: the answer, if it comes to one, and the
polls that it has made. -/
def pollAmid : List Happening → ω → PacketRing →
    Option (Except (Halt WorkerError) Unit) × List (Call ω) × ω × PacketRing
  | [], w, r => (none, [], w, r)
  | .hardware act :: later, w, r => pollAmid later w (act r)
  | .poll flags :: later, w, r =>
    match poll flags w r with
    | (.ok (.done _), w', r') => (some (.ok ()), [⟨flags, w, r⟩], w', r')
    | (.error e, w', r') => (some (.error e), [⟨flags, w, r⟩], w', r')
    | (.ok _, w', r') =>
      let (answer, polled, w', r') := pollAmid later w' r'
      (answer, ⟨flags, w, r⟩ :: polled, w', r')

omit [MeteredWorker ω] in
theorem pollUntilDone_eq_pollAmid (flags : List Bool) (fuel : Nat) (w : ω) (r : PacketRing) :
    pollUntilDone flags fuel w r =
      let (answer, _, w', r') := pollAmid (List.replicate fuel (.poll flags)) w r
      (answer.getD (.error .stuck), w', r') := by
  induction fuel generalizing w r with
  | zero => rfl
  | succ fuel ih =>
    rw [pollUntilDone_succ, List.replicate_succ, pollAmid]
    rcases poll flags w r with ⟨_ | _ | _ | _, w', r'⟩
    · rfl
    · exact ih w' r'
    · exact ih w' r'
    · rfl

omit [MeteredWorker ω] in
theorem pollAmid_of_goes {p : Poll} {w₁ : ω} {r₁ : PacketRing}
    (hpoll : poll flags w r = (.ok p, w₁, r₁)) (hp : ∀ status, p ≠ .done status)
    (later : List Happening) :
    pollAmid (.poll flags :: later) w r = ((pollAmid later w₁ r₁).1,
      ⟨flags, w, r⟩ :: (pollAmid later w₁ r₁).2.1, (pollAmid later w₁ r₁).2.2) := by
  rw [pollAmid, hpoll]
  cases p with
  | done status => exact absurd rfl (hp status)
  | progress packets => rfl
  | idle => rfl

/-- Whatever happens around its polls, a worker is polled at most once more than it makes bursts,
and it is polled on and on only while it does. -/
theorem metered_pollAmid (later : List Happening) (w : ω) (r : PacketRing) :
    ∃ answer polled w' r', pollAmid later w r = (answer, polled, w', r') ∧
      Metered w w' (bursts polled) ∧ polled.length ≤ bursts polled + 1 ∧
      (answer = none →
        polled.length = bursts polled ∧ polled.length = later.countP (·.isPoll)) := by
  induction later generalizing w r with
  | nil => exact ⟨none, [], w, r, rfl, .refl w, Nat.zero_le _, fun _ => ⟨rfl, rfl⟩⟩
  | cons happening later ih =>
    cases happening with
    | hardware act =>
      obtain ⟨answer, polled, w', r', hrun, hmetered, hle, hnone⟩ := ih w (act r)
      refine ⟨answer, polled, w', r', hrun, hmetered, hle, ?_⟩
      rwa [List.countP_cons_of_neg (by simp [Happening.isPoll])]
    | poll flags =>
      have hfirst := metered_poll flags w r
      have hdone := isDone_poll flags w r
      have hend : bursts [⟨flags, w, r⟩] = (works flags w).toNat := bursts_cons ⟨flags, w, r⟩ []
      obtain ⟨answer, w₁, r₁, hpoll⟩ : ∃ answer w₁ r₁, poll flags w r = (answer, w₁, r₁) :=
        ⟨_, _, _, rfl⟩
      rw [hpoll] at hfirst hdone
      by_cases hgoes : ∃ p, answer = .ok p ∧ ∀ status, p ≠ .done status
      · obtain ⟨p, rfl, hp⟩ := hgoes
        have hworks : works flags w = true := by
          cases p with
          | done status => exact absurd rfl (hp status)
          | progress packets => simpa [Poll.isDone] using hdone
          | idle => simpa [Poll.isDone] using hdone
        obtain ⟨answer, polled, w', r', hrun, hmetered, hle, hnone⟩ := ih w₁ r₁
        rw [pollAmid_of_goes hpoll hp, hrun, List.countP_cons_of_pos rfl]
        refine ⟨answer, _, w', r', rfl, ?_⟩
        rw [bursts_cons, hworks, List.length_cons]
        rw [hworks] at hfirst
        refine ⟨hfirst.trans hmetered, by simp only [Bool.toNat_true]; omega, fun hn => ?_⟩
        obtain ⟨hbursts, hcount⟩ := hnone hn
        simp only [Bool.toNat_true]
        omega
      · have hends : ∃ result, pollAmid (.poll flags :: later) w r =
            (some result, [⟨flags, w, r⟩], w₁, r₁) := by
          rw [pollAmid, hpoll]
          rcases answer with _ | _ | _ | _
          · exact ⟨_, rfl⟩
          · exact absurd ⟨_, rfl, fun _ hn => by cases hn⟩ hgoes
          · exact absurd ⟨_, rfl, fun _ hn => by cases hn⟩ hgoes
          · exact ⟨_, rfl⟩
        obtain ⟨result, hrun⟩ := hends
        refine ⟨_, _, w₁, r₁, hrun, ?_, Nat.le_add_left _ _, fun hn => by cases hn⟩
        rwa [hend]

end Worker

end DmaBurst
