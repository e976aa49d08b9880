import DmaBurst.Proofs.Worker.Budget
import DmaBurst.Proofs.Worker.Meter
import DmaBurst.Proofs.Worker.ReceiveStream

namespace DmaBurst

def Poll.charge? : Except (Halt WorkerError) Poll → Option Nat
  | .ok (.progress packets) => some packets
  | _ => none

theorem Channel.openWindow_le (max : Nat) (c : Channel) (r : PacketRing) :
    (c.openWindow max r).1 ≤ max := by
  rw [openWindow]
  cases c.id.direction with
  | rx => exact Nat.min_le_right _ _
  | tx => exact Nat.min_le_right _ _

theorem Queue.acquire_le {q q' : Queue} {r r' : PacketRing} {max len : Nat}
    (h : q.acquire max r = (.ok len, q', r')) : len ≤ max := by
  rw [acquire_ready (ready_of_acquire h)] at h
  cases h
  exact q.channel.openWindow_le max r

namespace RxWorker

variable {σ : Type} [ByteSink σ] {w w' : RxWorker σ} {r : PacketRing} {initial : Int}

def charges (hs : List Happening) (w : RxWorker σ) (r : PacketRing) : List Nat :=
  (Worker.calls hs w r).filterMap fun c => Poll.charge? c.answer

theorem charges_poll (flags : List Bool) (hs : List Happening) (w : RxWorker σ) (r : PacketRing) :
    charges (.poll flags :: hs) w r = (Poll.charge? (w.poll flags r).1).toList ++
      charges hs (w.poll flags r).2.1 (w.poll flags r).2.2 := by
  have hanswer : (Call.mk flags w r).answer = (w.poll flags r).1 := rfl
  rw [charges, Worker.calls, List.filterMap_cons, hanswer]
  cases Poll.charge? (w.poll flags r).1 <;> rfl

/-- A poll charges what it says that it has moved, no more than a batch, and only while packets are
owed. -/
structure Charged (w : RxWorker σ) (answer : Except (Halt WorkerError) Poll) (w' : RxWorker σ) :
    Prop where
  budget_eq : w'.budget = w.budget.consumeAll (Poll.charge? answer).toList
  batchSize_eq : w'.batchSize = w.batchSize
  owed : ∀ packets ∈ Poll.charge? answer, 0 < w.budget.remaining ∧ packets ≤ w.batchSize

omit [ByteSink σ] in
theorem charged_of_none {answer : Except (Halt WorkerError) Poll} (ha : Poll.charge? answer = none)
    (hb : w'.budget = w.budget) (hs : w'.batchSize = w.batchSize) : Charged w answer w' := by
  refine ⟨?_, hs, fun n hn => ?_⟩
  · rw [ha]
    exact hb
  · rw [ha] at hn
    cases hn

theorem charged_burst (hb : 0 < w.budget.remaining) (r : PacketRing) :
    Charged w (w.burst r).1 (w.burst r).2.1 := by
  rw [burst]
  obtain ⟨answer, q, s, hacq⟩ : ∃ answer q s, w.queue.acquire w.batchSize r = (answer, q, s) :=
    ⟨_, _, _, rfl⟩
  simp only [hacq]
  cases answer with
  | error e => exact charged_of_none rfl rfl rfl
  | ok len =>
    have hlen : len ≤ w.batchSize := Queue.acquire_le hacq
    simp only [drain]
    split
    · exact charged_of_none rfl rfl rfl
    · exact charged_of_none rfl rfl rfl
    · split
      · exact charged_of_none rfl rfl rfl
      · refine ⟨rfl, rfl, fun n hn => ?_⟩
        cases hn
        exact ⟨hb, hlen⟩

theorem charged_poll (flags : List Bool) (w : RxWorker σ) (r : PacketRing) :
    Charged w (w.poll flags r).1 (w.poll flags r).2.1 := by
  obtain ⟨status, hp⟩ | ⟨hp, hb⟩ := poll_cases flags w r
  · rw [hp]
    exact charged_of_none rfl rfl rfl
  · rw [hp]
    exact charged_burst hb r

/-- The budget lacks what has been charged, which goes beyond it by less than a batch. -/
structure Account (initial : Int) (charged : Nat) (w : RxWorker σ) : Prop where
  budget_eq : w.budget = ⟨initial, initial - charged⟩
  charged_lt : charged = 0 ∨ charged < initial + w.batchSize

namespace Account

variable {charged : Nat}

omit [ByteSink σ] in
theorem new (h : w.budget = .new initial) : Account initial 0 w := by
  refine ⟨?_, .inl rfl⟩
  rw [h, Budget.new, Int.natCast_zero, Int.sub_zero]

omit [ByteSink σ] in
theorem step (h : Account initial charged w) (hmax : initial + w.batchSize ≤ budgetMax)
    {answer : Except (Halt WorkerError) Poll} (hc : Charged w answer w') :
    Account initial (charged + (Poll.charge? answer).toList.sum) w' := by
  obtain ⟨hbudget, hbatch, howed⟩ := hc
  cases ha : Poll.charge? answer with
  | none =>
    rw [ha] at hbudget
    refine ⟨hbudget.trans h.budget_eq, ?_⟩
    rw [hbatch]
    exact h.charged_lt
  | some n =>
    obtain ⟨hpos, hn⟩ := howed n ha
    rw [ha] at hbudget
    rw [h.budget_eq] at hpos hbudget
    dsimp only at hpos
    have hcount : (n : Int) ≤ budgetMax := by omega
    have hconsume : w'.budget = Budget.consume n ⟨initial, initial - charged⟩ := hbudget
    rw [Budget.consume_eq (Int.le_of_lt hpos) hcount] at hconsume
    rw [Option.toList_some, List.sum_singleton]
    refine ⟨?_, .inr ?_⟩
    · rw [hconsume]
      congr 1
      dsimp only
      omega
    · rw [hbatch]
      omega

/-- The account over all that happens to a worker and its ring. -/
theorem live (h : Account initial charged w) (hmax : initial + w.batchSize ≤ budgetMax)
    (hs : List Happening) (r : PacketRing) :
    (Worker.live hs w r).1.budget = w.budget.consumeAll (charges hs w r) ∧
      (Worker.live hs w r).1.batchSize = w.batchSize ∧
      Account initial (charged + (charges hs w r).sum) (Worker.live hs w r).1 := by
  induction hs generalizing w r charged with
  | nil => exact ⟨rfl, rfl, h⟩
  | cons happening hs ih =>
    cases happening with
    | hardware act => exact ih h hmax (act r)
    | poll flags =>
      have hc := charged_poll flags w r
      have hnext := ih (h.step hmax hc) (by rw [hc.batchSize_eq]; exact hmax)
        (w.poll flags r).2.2
      rw [charges_poll, List.sum_append, ← Nat.add_assoc, Budget.consumeAll_append,
        ← hc.budget_eq, ← hc.batchSize_eq]
      exact hnext

omit [ByteSink σ] in
theorem delivered (h : Account initial charged w) (hmax : initial + w.batchSize ≤ budgetMax) :
    w.report.delivered = .ok (charged : Int) := by
  have hlt := h.charged_lt
  have hdiff : w.report.initial - w.report.remaining = charged := by
    simp only [report, h.budget_eq]
    omega
  have hrange : budgetMin ≤ (charged : Int) ∧ (charged : Int) ≤ budgetMax := by
    simp only [budgetMin, budgetMax] at hmax ⊢
    omega
  rw [WorkerReport.delivered, hdiff, checked, if_pos hrange]

end Account

/-- Charging counts one after the other takes their sum off at once, and stops at the least word.
What a report counts as delivered is the sum of what the polls have charged. -/
theorem budget_exact (initial : Int64) :
    (∀ counts more : List UInt64,
      let b := (Budget.new initial.toInt).consumeAll (counts.map UInt64.toNat)
      let words := (WordBudget.new initial).consumeAll counts
      b = ⟨initial.toInt, max budgetMin
          (initial.toInt - (counts.map fun n => min (n.toNat : Int) budgetMax).sum)⟩ ∧
        words.value = b ∧ words.initial = initial ∧ words.isMet = b.isMet ∧
        (b.consumeAll (more.map UInt64.toNat)).remaining ≤ b.remaining ∧
        (b.isMet = true → (b.consumeAll (more.map UInt64.toNat)).isMet = true)) ∧
    ∀ {σ : Type} [ByteSink σ] (w : RxWorker σ), w.budget = .new initial.toInt →
      initial.toInt + w.batchSize ≤ budgetMax → ∀ (hs : List Happening) (r : PacketRing),
        (Worker.live hs w r).1.budget =
            (Budget.new initial.toInt).consumeAll (charges hs w r) ∧
          (Worker.live hs w r).1.report.delivered = .ok ((charges hs w r).sum : Int) := by
  have hleast : budgetMin ≤ (Budget.new initial.toInt).remaining := initial.le_toInt
  constructor
  · intro counts more
    have hvalue := WordBudget.value_consumeAll counts (.new initial)
    have hall := Budget.le_remaining_consumeAll hleast (counts.map UInt64.toNat)
    refine ⟨?_, hvalue, ?_, ?_, Budget.remaining_consumeAll_le hall _,
      Budget.isMet_consumeAll hall _⟩
    · rw [Budget.consumeAll_eq hleast, Budget.total, List.map_map]
      rfl
    · have hinitial := congrArg Budget.initial hvalue
      rw [Budget.consumeAll_eq (WordBudget.le_remaining_value _)] at hinitial
      exact Int64.toInt_inj.mp hinitial
    · rw [← WordBudget.isMet_value, hvalue]
      rfl
  · intro σ _ w hw hmax hs r
    obtain ⟨hbudget, hbatch, haccount⟩ := (Account.new hw).live hmax hs r
    rw [hw] at hbudget
    rw [Nat.zero_add] at haccount
    exact ⟨hbudget, haccount.delivered (by rw [hbatch]; exact hmax)⟩

def singleWorker : RxWorker ScriptedSink :=
  { shortSinkWorker with budget := .new 1 }

def overshooting : List Happening :=
  [.hardware fun r => (r.push [1] [] 0).2, .hardware fun r => (r.push [2, 3] [] 0).2, .poll [false],
    .poll [false]]

theorem overshooting_budget_exact :
    (Budget.new (Int64.toInt (-9223372036854775807))).consumeAll [3, 5] =
        ⟨-9223372036854775807, budgetMin⟩ ∧
      singleWorker.budget = .new (Int64.toInt 1) ∧
      Int64.toInt 1 + singleWorker.batchSize ≤ budgetMax ∧
      charges overshooting singleWorker shortSinkRing = [2] ∧
      (Worker.live overshooting singleWorker shortSinkRing).1.budget = ⟨1, -1⟩ ∧
      (Worker.live overshooting singleWorker shortSinkRing).1.report.delivered = .ok 2 := by
  have hleast := ((budget_exact (-9223372036854775807)).1 [3, 5] []).1
  have hcharges : charges overshooting singleWorker shortSinkRing = [2] := by cbv
  obtain ⟨hbudget, hdelivered⟩ :=
    (budget_exact 1).2 singleWorker rfl (by decide) overshooting shortSinkRing
  rw [hcharges] at hbudget hdelivered
  exact ⟨hleast.trans (by decide), rfl, by decide, hcharges, hbudget.trans (by decide), hdelivered⟩

end RxWorker

end DmaBurst
