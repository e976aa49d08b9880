import DmaBurst.Proofs.Worker.Status

namespace DmaBurst

theorem lt_ceilDiv_iff {count batch n : Nat} (hbatch : 1 ≤ batch) :
    n < count ⌈/⌉ batch ↔ n * batch < count := by
  rw [← Nat.not_le, ceilDiv_le_iff_le_mul hbatch, Nat.not_le, Nat.mul_comm]

theorem empties_succ {count batch : Nat} (hbatch : 1 ≤ batch) (n : Nat) :
    n + 1 - count ⌈/⌉ batch =
      n - count ⌈/⌉ batch + if min batch (count - n * batch) = 0 then 1 else 0 := by
  have hlt : n < count ⌈/⌉ batch ↔ n * batch < count := lt_ceilDiv_iff hbatch
  by_cases h : n * batch < count
  · have := hlt.mpr h
    rw [if_neg (by omega)]
    omega
  · have := mt hlt.mp h
    rw [if_pos (by omega)]
    omega

theorem shorts_succ {count batch : Nat} (hbatch : 1 ≤ batch) (n : Nat) :
    (if count ⌈/⌉ batch ≤ n + 1 ∧ ¬ batch ∣ count then 1 else 0) =
      (if count ⌈/⌉ batch ≤ n ∧ ¬ batch ∣ count then 1 else 0) +
        if 0 < min batch (count - n * batch) ∧ min batch (count - n * batch) < batch
          then 1 else 0 := by
  have hlt : n < count ⌈/⌉ batch ↔ n * batch < count := lt_ceilDiv_iff hbatch
  have hlt' : n + 1 < count ⌈/⌉ batch ↔ n * batch + batch < count := by
    rw [lt_ceilDiv_iff hbatch, Nat.succ_mul]
  by_cases h : n * batch < count
  · have hn := hlt.mpr h
    rw [if_neg (by omega : ¬ (count ⌈/⌉ batch ≤ n ∧ ¬ batch ∣ count)), Nat.zero_add]
    refine if_congr ⟨fun ⟨hle, hdvd⟩ => ?_, fun ⟨_, hshort⟩ => ⟨by omega, ?_⟩⟩ rfl rfl
    · have hne : count ≠ n * batch + batch := by
        rintro rfl
        exact hdvd ⟨n + 1, by ring⟩
      omega
    · refine Nat.not_dvd_of_lt_of_lt_mul_succ (k := n) ?_ ?_
      · rwa [Nat.mul_comm]
      · rw [Nat.mul_add, Nat.mul_comm]
        omega
  · have hn := mt hlt.mp h
    have hn' := mt hlt'.mp (by omega)
    rw [if_neg (by omega : ¬ (0 < min batch (count - n * batch) ∧ _)), Nat.add_zero]
    exact if_congr (and_congr_left fun _ => by omega) rfl rfl

namespace RxWorker

open LawfulSink

variable {σ : Type} [ByteSink σ] [LawfulSink σ] {w w' : RxWorker σ} {r r' : PacketRing} {n : Nat}
  {flags : List Bool}

structure AfterBursts (w w' : RxWorker σ) (r r' : PacketRing) (n : Nat) : Prop where
  steady : w'.Steady r'
  accepting : accepts w'.sink
  capacity_eq : r'.capacity = r.capacity
  contents_eq : r'.contents = r.contents.drop (n * w.batchSize)
  moved : w.Moved w' (r.contents.take (n * w.batchSize))
  polls_eq : w'.polls = w.polls + n
  maxPolls_eq : w'.maxPolls = w.maxPolls
  finished_eq : w'.finished = w.finished
  initial_eq : w'.budget.initial = w.budget.initial
  empty_eq : w'.queue.stats.emptyAcquires =
    w.queue.stats.emptyAcquires + (n - r.contents.length ⌈/⌉ w.batchSize)
  short_eq : w'.queue.stats.shortAcquires = w.queue.stats.shortAcquires +
    if r.contents.length ⌈/⌉ w.batchSize ≤ n ∧ ¬ w.batchSize ∣ r.contents.length then 1 else 0

namespace AfterBursts

theorem start (h : w.Steady r) (hbatch : 1 ≤ w.batchSize) (hsink : accepts w.sink) :
    w.AfterBursts w r r 0 := by
  have hshort : ¬ (r.contents.length ⌈/⌉ w.batchSize ≤ 0 ∧ ¬ w.batchSize ∣ r.contents.length) := by
    rw [ceilDiv_le_iff_le_mul hbatch, Nat.mul_zero, Nat.le_zero]
    rintro ⟨hz, hdvd⟩
    exact hdvd (hz ▸ Nat.dvd_zero _)
  refine ⟨h, hsink, rfl, ?_, ?_, rfl, rfl, rfl, rfl, ?_, ?_⟩
  · rw [Nat.zero_mul, List.drop_zero]
  · rw [Nat.zero_mul, List.take_zero]
    exact .refl w
  · rw [Nat.zero_sub, Nat.add_zero]
  · rw [if_neg hshort, Nat.add_zero]

theorem remaining_eq (h : w.AfterBursts w' r r' n) : w'.budget.remaining =
    w.budget.remaining - (min (n * w.batchSize) r.contents.length : Nat) := by
  have hr := h.moved.remaining_eq
  rw [List.length_take] at hr
  omega

theorem poll (h : w.AfterBursts w' r r' n) (hbatch : 1 ≤ w.batchSize)
    (hcap : (r.capacity : Int) ≤ budgetMax) (hf : w.finished = none)
    (hflags : true ∉ flags) (hpolls : capReached w.maxPolls (w.polls + n) = false)
    (howes : (min (n * w.batchSize) r.contents.length : Nat) < w.budget.remaining) :
    ∃ p w'' r'', w'.poll flags r' = (.ok p, w'', r'') ∧ (∀ status, p ≠ .done status) ∧
      w.AfterBursts w'' r r'' (n + 1) := by
  have hrem : 0 < w'.budget.remaining := by
    rw [h.remaining_eq]
    omega
  have hverdict : w'.verdict flags = none := by
    refine verdict_eq_none_iff.mpr ⟨?_, ?_, ?_⟩
    · simpa [Budget.isMet] using hrem
    · simpa using hflags
    · rw [h.maxPolls_eq, h.polls_eq, hpolls]
  have hsize : w'.batchSize = w.batchSize := h.moved.batchSize_eq
  have hdue : w'.due r' = (r.contents.drop (n * w.batchSize)).take w.batchSize := by
    rw [due, h.contents_eq, hsize]
  have hlen : (w'.due r').length = min w.batchSize (r.contents.length - n * w.batchSize) := by
    rw [hdue, List.length_take, List.length_drop]
  obtain ⟨hok, haccepts⟩ := writeEach_accepts h.accepting ((w'.due r').map Packet.data)
  have hwritten : writeEach ((w'.due r').map Packet.data) w'.sink =
      (.ok (), (writeEach ((w'.due r').map Packet.data) w'.sink).2) := Prod.ext hok rfl
  have hfits := h.steady.length_due_fits (h.capacity_eq.symm ▸ hcap)
  obtain ⟨backoff, hburst⟩ := h.steady.burst_of_written hwritten hfits hrem
  refine ⟨_, _, _, (poll_eq_burst (h.finished_eq.trans hf) hverdict r').trans hburst, ?_, ?_⟩
  · intro status
    split <;> exact fun hn => by cases hn
  · refine ⟨h.steady.served rfl, haccepts, ?_, ?_, ?_, ?_, h.maxPolls_eq, h.finished_eq,
      h.initial_eq, ?_, ?_⟩
    · rw [PacketRing.capacity, PacketRing.takeOff_slots, ← PacketRing.capacity, h.capacity_eq]
    · rw [h.steady.sound.contents_takeOff, h.contents_eq, hsize, List.drop_drop, Nat.succ_mul]
    · rw [Nat.succ_mul, List.take_add, ← hdue]
      exact h.moved.trans (moved_of_written hwritten rfl backoff)
    · rw [h.polls_eq, Nat.add_assoc]
    · rw [empties_succ hbatch, ← hlen, ← Nat.add_assoc, ← h.empty_eq]
      rfl
    · rw [shorts_succ hbatch, ← hlen, ← Nat.add_assoc, ← h.short_eq, ← hsize]
      rfl

end AfterBursts

/-- What a run comes to on a ring to which nothing is added, by the polls that it reports. -/
structure Receipt (w w' : RxWorker σ) (r : PacketRing) (rep : WorkerReport) : Prop where
  queue_eq : rep.queue = w.queue.id
  initial_eq : rep.initial = w.budget.initial
  remaining_eq : rep.remaining =
    w.budget.remaining - (min (rep.polls * w.batchSize) r.contents.length : Nat)
  stored_eq : stored w'.sink = stored w.sink ++
    ((r.contents.take (rep.initial - rep.remaining).toNat).map Packet.data).flatten
  acquires_eq : rep.stats.acquires = w.queue.stats.acquires + rep.polls
  empty_eq : rep.stats.emptyAcquires =
    w.queue.stats.emptyAcquires + (rep.polls - r.contents.length ⌈/⌉ w.batchSize)
  short_eq : rep.stats.shortAcquires = w.queue.stats.shortAcquires +
    if r.contents.length ⌈/⌉ w.batchSize ≤ rep.polls ∧ ¬ w.batchSize ∣ r.contents.length then 1
    else 0

theorem AfterBursts.receipt (h : w.AfterBursts w' r r' n) (hpolls : w.polls = 0)
    (hbudget : w.budget.initial = w.budget.remaining) (status : Option WorkerStatus) :
    w.Receipt { w' with finished := status } r { w' with finished := status }.report := by
  have hn : w'.polls = n := by rw [h.polls_eq, hpolls, Nat.zero_add]
  have hacquires := h.moved.acquires_eq
  have hcharged : (w'.budget.initial - w'.budget.remaining).toNat =
      min (n * w.batchSize) r.contents.length := by
    rw [h.initial_eq, h.remaining_eq]
    omega
  refine ⟨h.moved.id_eq, h.initial_eq, ?_, ?_, ?_, ?_, ?_⟩
  · exact hn ▸ h.remaining_eq
  · change stored w'.sink = stored w.sink ++
      ((r.contents.take (w'.budget.initial - w'.budget.remaining).toNat).map Packet.data).flatten
    rw [h.moved.stored_eq, hcharged, ← List.take_take, List.take_length]
  · rwa [hpolls, Nat.add_zero] at hacquires
  · exact hn ▸ h.empty_eq
  · exact hn ▸ h.short_eq

omit [LawfulSink σ] in
theorem le_pollsLeft (hnew : w.IsNew) (hpolls : ∀ m, w.maxPolls = some m → n ≤ m)
    (hn : w.maxPolls = none → n ≤ w.budget.remaining.toNat) : n ≤ Worker.pollsLeft w := by
  refine Nat.le_succ_of_le ?_
  change n ≤ w.maxPolls.elim w.budget.remaining.toNat (· - w.polls)
  rw [hnew.polls_eq]
  cases hm : w.maxPolls with
  | none => exact hn hm
  | some m => exact hpolls m hm

section Static

variable {b : Nat} {status : WorkerStatus} (hs : w.Steady r)
  (hcap : (r.capacity : Int) ≤ budgetMax) (hsink : accepts w.sink) (hnew : w.IsNew)
  (hbudget : w.budget = .new b) (hbatch : 1 ≤ w.batchSize) (hflags : true ∉ flags)

include hs hcap hsink hnew hbudget hbatch hflags

theorem exists_afterBursts (hpolls : ∀ m, w.maxPolls = some m → n ≤ m)
    (howes : ∀ k < n, min (k * w.batchSize) r.contents.length < b) :
    ∃ w' r', w.AfterBursts w' r r' n ∧ ∀ fuel, Worker.pollUntilDone flags (n + fuel) w r =
      Worker.pollUntilDone flags fuel w' r' := by
  refine Worker.pollUntilDone_along (P := fun k w' r' => w.AfterBursts w' r r' k)
    (fun k hk w' r' h => ?_) (.start hs hbatch hsink)
  refine h.poll hbatch hcap hnew.finished_eq hflags ?_ ?_
  · rw [hnew.polls_eq, Nat.zero_add]
    exact capReached_of_lt hpolls hk
  · rw [hbudget]
    exact Int.ofNat_lt.mpr (howes k hk)

theorem run_ends (hn : n ≤ Worker.pollsLeft w) (hpolls : ∀ m, w.maxPolls = some m → n ≤ m)
    (howes : ∀ k < n, min (k * w.batchSize) r.contents.length < b)
    (hearned : ∀ w' r', w.AfterBursts w' r r' n → w'.Earned flags status) :
    ∃ rep w' r', Worker.run flags w r = (.ok rep, w', r') ∧ rep.status = status ∧
      rep.polls = n ∧ w.Receipt w' r rep := by
  obtain ⟨w', r', h, hcourse⟩ :=
    exists_afterBursts hs hcap hsink hnew hbudget hbatch hflags hpolls howes
  have hcount : w'.polls = n := by rw [h.polls_eq, hnew.polls_eq, Nat.zero_add]
  have hverdict : w'.verdict flags = some status := by
    refine (verdict_eq_some_iff fun cap hc => ?_).mpr (hearned w' r' h)
    exact hcount ▸ hpolls cap (h.maxPolls_eq.symm.trans hc)
  have hdone := poll_of_verdict (h.finished_eq.trans hnew.finished_eq) hverdict r'
  exact ⟨_, _, _, Worker.run_of_course hn hcourse hdone rfl, rfl, hcount,
    h.receipt hnew.polls_eq (by rw [hbudget]; rfl) _⟩

end Static

/-- A new worker on a ring to which nothing is added is done after the bursts that its budget fills,
or goes on to its last poll, or for ever without a cap. -/
theorem static_receive_closed {b : Nat} (hs : w.Steady r) (hcap : (r.capacity : Int) ≤ budgetMax)
    (hsink : accepts w.sink) (hnew : w.IsNew) (hbudget : w.budget = .new b)
    (hbatch : 1 ≤ w.batchSize) (hflags : true ∉ flags) :
    (b ≤ r.contents.length → (∀ m, w.maxPolls = some m → b ⌈/⌉ w.batchSize ≤ m) →
      ∃ rep w' r', Worker.run flags w r = (.ok rep, w', r') ∧ rep.status = .complete ∧
        rep.polls = b ⌈/⌉ w.batchSize ∧ w.Receipt w' r rep) ∧
    (∀ m, w.maxPolls = some m → ¬ (b ≤ r.contents.length ∧ b ⌈/⌉ w.batchSize ≤ m) →
      ∃ rep w' r', Worker.run flags w r = (.ok rep, w', r') ∧ rep.status = .underDelivery ∧
        rep.polls = m ∧ w.Receipt w' r rep) ∧
    (r.contents.length < b → w.maxPolls = none →
      ∀ fuel, (Worker.pollUntilDone flags fuel w r).1 = .error .stuck) := by
  have hrem : ∀ {w' r' n}, w.AfterBursts w' r r' n → w'.budget.remaining =
      (b : Int) - (min (n * w.batchSize) r.contents.length : Nat) := by
    intro w' r' n h
    rw [h.remaining_eq, hbudget]
    rfl
  refine ⟨fun hle hpolls => ?_, fun m hm hshort => ?_, fun hlt hm fuel => ?_⟩
  · have hq : b ≤ (b ⌈/⌉ w.batchSize) * w.batchSize :=
      Nat.not_lt.mp (mt (lt_ceilDiv_iff hbatch).mpr (Nat.lt_irrefl _))
    refine run_ends hs hcap hsink hnew hbudget hbatch hflags (le_pollsLeft hnew hpolls fun _ => ?_)
      hpolls (fun k hk => ?_) fun w' r' h => ?_
    · rw [hbudget, ceilDiv_le_iff_le_mul hbatch]
      exact Nat.le_mul_of_pos_left b hbatch
    · exact Nat.lt_of_le_of_lt (Nat.min_le_left _ _) ((lt_ceilDiv_iff hbatch).mp hk)
    · change w'.budget.remaining ≤ 0
      rw [hrem h]
      omega
  · have hlast : ∀ k ≤ m, min (k * w.batchSize) r.contents.length < b := by
      intro k hk
      by_cases hle : b ≤ r.contents.length
      · have hlt : k < b ⌈/⌉ w.batchSize :=
          Nat.lt_of_le_of_lt hk (Nat.not_le.mp fun hn => hshort ⟨hle, hn⟩)
        exact Nat.lt_of_le_of_lt (Nat.min_le_left _ _) ((lt_ceilDiv_iff hbatch).mp hlt)
      · exact Nat.lt_of_le_of_lt (Nat.min_le_right _ _) (Nat.not_le.mp hle)
    have hpolls : ∀ m', w.maxPolls = some m' → m ≤ m' :=
      fun m' hm' => (Option.some.inj (hm.symm.trans hm')).le
    refine run_ends hs hcap hsink hnew hbudget hbatch hflags
      (le_pollsLeft hnew hpolls (by simp [hm])) hpolls (fun k hk => hlast k (Nat.le_of_lt hk))
      fun w' r' h => ⟨?_, hflags, ?_⟩
    · have howes := hlast m (Nat.le_refl m)
      rw [hrem h]
      omega
    · rw [h.maxPolls_eq, h.polls_eq, hnew.polls_eq, Nat.zero_add, hm]
  · obtain ⟨w', r', -, hcourse⟩ := exists_afterBursts hs hcap hsink hnew hbudget hbatch hflags
      (by simp [hm]) (fun k hk => Nat.lt_of_le_of_lt (Nat.min_le_right _ _) hlt)
    rw [← Nat.add_zero fuel, hcourse 0]
    rfl

def openSinkWorker (budget : Nat) (maxPolls : Option Nat) : RxWorker ScriptedSink :=
  { shortSinkWorker with sink := { chunk := some 2 }, budget := .new budget, maxPolls }

def threePacketRing : PacketRing :=
  (((shortSinkRing.push [1, 2, 3] [] 0).2.push [4] [] 0).2.push [5, 6] [] 0).2

theorem steady_openSinkWorker (budget : Nat) (maxPolls : Option Nat) :
    (openSinkWorker budget maxPolls).Steady threePacketRing := by
  have h := ((steady_shortSinkWorker.push [1, 2, 3] [] 0).push [4] [] 0).push [5, 6] [] 0
  exact ⟨h.ready, h.direction_eq, h.sound, h.fits⟩

/-- Three packets in batches of two: they make up a budget of three, but not one of ten. -/
theorem threePackets_received :
    (∃ rep w' r', Worker.run [false] (openSinkWorker 3 none) threePacketRing = (.ok rep, w', r') ∧
      rep.status = .complete ∧ rep.polls = 2 ∧ rep.remaining = 0 ∧ rep.stats.shortAcquires = 1 ∧
      stored w'.sink = [1, 2, 3, 4, 5, 6]) ∧
    (∃ rep w' r', Worker.run [false] (openSinkWorker 10 (some 4)) threePacketRing =
        (.ok rep, w', r') ∧
      rep.status = .underDelivery ∧ rep.polls = 4 ∧ rep.remaining = 7 ∧
      rep.stats.emptyAcquires = 2 ∧ rep.stats.shortAcquires = 1) ∧
    ∀ fuel, (Worker.pollUntilDone [false] fuel (openSinkWorker 10 none) threePacketRing).1 =
      .error .stuck := by
  have hcap : (threePacketRing.capacity : Int) ≤ budgetMax := by decide +kernel
  have hcount : threePacketRing.contents.length = 3 := by decide +kernel
  have hsink : ∀ budget maxPolls, accepts (openSinkWorker budget maxPolls).sink :=
    fun _ _ => ⟨rfl, rfl, rfl, by simp [openSinkWorker], by simp [openSinkWorker]⟩
  have hnew : ∀ budget maxPolls, (openSinkWorker budget maxPolls).IsNew := fun _ _ => ⟨rfl, rfl⟩
  have hflags : true ∉ [false] := by decide
  obtain ⟨hmet, -, -⟩ := static_receive_closed (steady_openSinkWorker 3 none) hcap (hsink 3 none)
    (hnew 3 none) rfl (by decide) hflags
  obtain ⟨-, hcapped, -⟩ := static_receive_closed (steady_openSinkWorker 10 (some 4)) hcap
    (hsink 10 (some 4)) (hnew 10 (some 4)) rfl (by decide) hflags
  obtain ⟨-, -, hendless⟩ := static_receive_closed (steady_openSinkWorker 10 none) hcap
    (hsink 10 none) (hnew 10 none) rfl (by decide) hflags
  rw [hcount] at hmet hcapped hendless
  refine ⟨?_, ?_, hendless (by decide) rfl⟩
  · obtain ⟨rep, w', r', hrun, hstatus, hpolls, hreceipt⟩ :=
      hmet (by decide) fun m hm => by cases hm
    have hrem := hreceipt.remaining_eq
    have hshort := hreceipt.short_eq
    have hstored := hreceipt.stored_eq
    rw [hreceipt.initial_eq] at hstored
    rw [hpolls, hcount] at hrem hshort
    rw [hrem] at hstored
    exact ⟨rep, w', r', hrun, hstatus, hpolls, hrem, hshort, hstored⟩
  · obtain ⟨rep, w', r', hrun, hstatus, hpolls, hreceipt⟩ := hcapped 4 rfl (by decide)
    have hrem := hreceipt.remaining_eq
    have hempty := hreceipt.empty_eq
    have hshort := hreceipt.short_eq
    rw [hpolls, hcount] at hrem hempty hshort
    exact ⟨rep, w', r', hrun, hstatus, hpolls, hrem, hempty, hshort⟩

end RxWorker

end DmaBurst
