import DmaBurst.Proofs.Worker.Pace
import DmaBurst.Proofs.Worker.ReceiveStream
import DmaBurst.Proofs.Worker.TransmitStream

namespace DmaBurst

namespace RxWorker

variable {σ : Type} [ByteSink σ] {w w' w'' : RxWorker σ} {r r' : PacketRing} {flags : List Bool}

theorem burst_of_poll_error {e : Halt WorkerError} (h : (w.poll flags r).1 = .error e) :
    w.finished = none ∧ w.verdict flags = none ∧ w.poll flags r = w.burst r := by
  cases hf : w.finished with
  | some status =>
    rw [poll, hf] at h
    cases h
  | none =>
    cases hv : w.verdict flags with
    | some status =>
      rw [poll, hf] at h
      simp only [hv] at h
      cases h
    | none => exact ⟨rfl, rfl, poll_eq_burst hf hv r⟩

theorem burst_refused {e : WorkerError} (h : (w.burst r).1 = .error (.refused e)) :
    ∃ queue sink r', w.burst r =
      (.error (.refused e), { w with polls := w.polls + 1, queue, sink }, r') := by
  rw [burst] at h ⊢
  rcases hacquire : w.queue.acquire w.batchSize r with ⟨_ | len, queue, s⟩
  · simp only [hacquire] at h ⊢
    exact ⟨queue, w.sink, s, Prod.ext h rfl⟩
  · simp only [hacquire, drain] at h ⊢
    split at h
    · exact ⟨_, _, _, Prod.ext h rfl⟩
    · cases h
    · split at h <;> cases h

/-- A failing poll changes the queue, the sink and the count of polls, so that the next poll works
on the next burst unless a flag is raised or the polls are used up. -/
theorem poll_after_refused {e : WorkerError} (h : (w.poll flags r).1 = .error (.refused e)) :
    ∃ queue sink r', w.poll flags r =
        (.error (.refused e), { w with polls := w.polls + 1, queue, sink }, r') ∧
      ∀ flags' s, flags'.any id = false → capReached w.maxPolls (w.polls + 1) = false →
        poll flags' { w with polls := w.polls + 1, queue, sink } s =
          burst { w with polls := w.polls + 1, queue, sink } s := by
  obtain ⟨hf, hv, hp⟩ := burst_of_poll_error h
  rw [hp] at h ⊢
  obtain ⟨queue, sink, r', hburst⟩ := burst_refused h
  refine ⟨queue, sink, r', hburst, fun flags' s hflags hcap => ?_⟩
  apply poll_eq_burst
  · exact hf
  · exact verdict_eq_none_iff.mpr ⟨(verdict_eq_none_iff.mp hv).1, hflags, hcap⟩

def polled : List StreamOp → RxWorker σ → PacketRing →
    List (Except (Halt WorkerError) Poll × List Packet)
  | [], _, _ => []
  | .poll flags :: ops, w, r =>
    ((w.poll flags r).1, r.retiredTo (w.poll flags r).2.2) ::
      polled ops (w.poll flags r).2.1 (w.poll flags r).2.2
  | .push data header flags :: ops, w, r => polled ops w (r.push data header flags).2

/-- A poll stores the payloads of its burst, or a piece from their front if it fails. -/
def Stores (row : Except (Halt WorkerError) Poll × List Packet) (piece : Bytes) : Prop :=
  piece <+: (row.2.map Packet.data).flatten ∧
    ∀ p, row.1 = .ok p → piece = (row.2.map Packet.data).flatten

open LawfulSink

variable [LawfulSink σ] {rows rows' : List (Except (Halt WorkerError) Poll × List Packet)}
  {pieces pieces' : List Bytes}

/-- The books of a worker over these polls: every burst is counted, and those that were drained to
the end are charged. -/
structure Drained (w w' : RxWorker σ) (rows : List (Except (Halt WorkerError) Poll × List Packet))
    (pieces : List Bytes) : Prop where
  stores : List.Forall₂ Stores rows pieces
  stored_eq : stored w'.sink = stored w.sink ++ pieces.flatten
  remaining_eq : w.budget.remaining - w'.budget.remaining = (rows.map (Poll.moved ·.1)).sum
  packets_eq : w'.queue.stats.packets =
    w.queue.stats.packets + (rows.map (·.2.length)).sum
  acquires_eq : w'.queue.stats.acquires + w.polls = w.queue.stats.acquires + w'.polls
  releases_eq : w'.queue.stats.releases + w.polls = w.queue.stats.releases + w'.polls

theorem Drained.refl (w : RxWorker σ) : w.Drained w [] [] :=
  ⟨.nil, (List.append_nil _).symm, by simp, rfl, rfl, rfl⟩

theorem Drained.trans (h : w.Drained w' rows pieces) (h' : w'.Drained w'' rows' pieces') :
    w.Drained w'' (rows ++ rows') (pieces ++ pieces') := by
  have hr := h.remaining_eq
  have hr' := h'.remaining_eq
  have ha := h.acquires_eq
  have ha' := h'.acquires_eq
  have hl := h.releases_eq
  have hl' := h'.releases_eq
  refine ⟨List.rel_append h.stores h'.stores, ?_, ?_, ?_, by omega, by omega⟩
  · rw [h'.stored_eq, h.stored_eq, List.flatten_append, List.append_assoc]
  · rw [List.map_append, List.sum_append_nat]
    omega
  · rw [h'.packets_eq, h.packets_eq, List.map_append, List.sum_append_nat, Nat.add_assoc]

namespace Steady

/-- One poll, whether it fails or not. -/
theorem poll_drained (h : w.Steady r) (hcap : (r.capacity : Int) ≤ budgetMax) (flags : List Bool) :
    ∃ piece, w.Drained (w.poll flags r).2.1
        [((w.poll flags r).1, r.retiredTo (w.poll flags r).2.2)] [piece] ∧
      (w.poll flags r).2.1.Steady (w.poll flags r).2.2 ∧
      (w.poll flags r).2.2.capacity = r.capacity := by
  cases hanswer : (w.poll flags r).1 with
  | ok answer =>
    obtain ⟨hm, hcount, hs, hc, -⟩ := h.poll_moved hcap flags hanswer
    rw [hanswer] at hcount
    refine ⟨_, ⟨.cons ⟨List.prefix_rfl, fun _ _ => rfl⟩ .nil, ?_, ?_, ?_, hm.acquires_eq,
      hm.releases_eq⟩, hs, hc⟩
    · rw [hm.stored_eq]
      simp
    · rw [hm.remaining_eq, ← hcount]
      simp
    · rw [hm.packets_eq]
      simp
  | error e =>
    obtain ⟨-, hv, hp⟩ := burst_of_poll_error hanswer
    rw [hp] at hanswer ⊢
    obtain ⟨written, s, hw⟩ : ∃ written s,
        writeEach ((w.due r).map Packet.data) w.sink = (written, s) := ⟨_, _, rfl⟩
    cases written with
    | ok done =>
      have howes : 0 < w.budget.remaining := by
        have := (verdict_eq_none_iff.mp hv).1
        simpa [Budget.isMet] using this
      obtain ⟨backoff, hburst⟩ := h.burst_of_written hw (h.length_due_fits hcap) howes
      rw [hburst] at hanswer
      cases hanswer
    | error e' =>
      obtain ⟨piece, hpre, hstored, -⟩ := writeEach_stored hw
      rw [h.burst_of_refused hw, h.retiredTo_takeOff]
      refine ⟨piece, ⟨.cons ⟨hpre, fun p hn => by cases hn⟩ .nil, ?_, ?_, ?_, ?_, ?_⟩,
        h.served rfl, ?_⟩
      · simpa using hstored
      · simp [Poll.moved]
      · rfl
      · exact Nat.add_right_comm _ _ _
      · exact Nat.add_right_comm _ _ _
      · rw [PacketRing.capacity, PacketRing.takeOff_slots, PacketRing.capacity]

theorem stream_drained (h : w.Steady r) (hcap : (r.capacity : Int) ≤ budgetMax)
    (ops : List StreamOp) :
    ∃ pieces, w.Drained (stream ops w r).1 (polled ops w r) pieces ∧
      (stream ops w r).1.Steady (stream ops w r).2 := by
  induction ops generalizing w r with
  | nil => exact ⟨[], .refl w, h⟩
  | cons op ops ih =>
    cases op with
    | poll flags =>
      obtain ⟨piece, hd, hs, hc⟩ := h.poll_drained hcap flags
      obtain ⟨pieces, hd', hs'⟩ := ih hs (hc.symm ▸ hcap)
      exact ⟨piece :: pieces, hd.trans hd', hs'⟩
    | push data header flags =>
      exact ih (h.push data header flags) (by rwa [PacketRing.capacity_push])

end Steady

end RxWorker

open PacketSource

namespace TransmitOp

variable {σ : Type} [PacketSource σ]

/-- The packets that go through the ring: those pulled by a poll that does not fail. -/
def passed : TransmitOp → TxWorker σ → PacketRing → List Packet
  | .poll flags, w, r =>
    match (w.poll flags r).1 with
    | .ok _ => (w.pollPulls flags r).filterMap Pull.packet?
    | .error _ => []
  | _, _, _ => []

theorem length_passed_le (op : TransmitOp) (w : TxWorker σ) (r : PacketRing) :
    (op.passed w r).length ≤ ((op.pulls w r).filterMap Pull.packet?).length := by
  cases op with
  | poll flags =>
    rw [passed, pulls]
    split
    · exact Nat.le_refl _
    · exact Nat.zero_le _
  | pop | drain => exact Nat.zero_le _

end TransmitOp

namespace TxWorker

variable {σ : Type} [PacketSource σ] {w w' : TxWorker σ} {r r' : PacketRing}
  {c : PacketRing.Counts} {f : Fifo} {bound : Nat} {flags : List Bool}

theorem burst_of_poll_error {e : Halt WorkerError} (h : (w.poll flags r).1 = .error e) :
    w.finished = none ∧ w.verdict flags = none ∧ w.poll flags r = w.burst r := by
  cases hf : w.finished with
  | some status =>
    rw [poll, hf] at h
    cases h
  | none =>
    cases hv : w.verdict flags with
    | some status =>
      rw [poll, hf] at h
      simp only [hv] at h
      cases h
    | none => exact ⟨rfl, rfl, poll_eq_burst hf hv r⟩

theorem burst_refused {e : WorkerError} (h : (w.burst r).1 = .error (.refused e)) :
    ∃ queue source r', w.burst r =
      (.error (.refused e), { w with polls := w.polls + 1, queue, source }, r') := by
  rw [burst] at h ⊢
  rcases hacquire : w.queue.acquire w.batchSize r with ⟨_ | _ | len, queue, s⟩
  · simp only [hacquire] at h ⊢
    exact ⟨queue, w.source, s, Prod.ext h rfl⟩
  · simp only [hacquire, rest] at h
    split at h <;> cases h
  · simp only [hacquire, send] at h ⊢
    split at h
    · exact ⟨_, _, _, Prod.ext h rfl⟩
    · split at h <;> cases h

/-- A failing poll changes the queue, the source and the count of polls, so that the next poll works
on the next burst unless a flag is raised or the polls are used up. -/
theorem poll_after_refused {e : WorkerError} (h : (w.poll flags r).1 = .error (.refused e)) :
    ∃ queue source r', w.poll flags r =
        (.error (.refused e), { w with polls := w.polls + 1, queue, source }, r') ∧
      ∀ flags' s, flags'.any id = false → capReached w.maxPolls (w.polls + 1) = false →
        poll flags' { w with polls := w.polls + 1, queue, source } s =
          burst { w with polls := w.polls + 1, queue, source } s := by
  obtain ⟨hf, hv, hp⟩ := burst_of_poll_error h
  rw [hp] at h ⊢
  obtain ⟨queue, source, r', hburst⟩ := burst_refused h
  obtain ⟨hsupplied, howes, -⟩ := verdict_eq_none_iff.mp hv
  refine ⟨queue, source, r', hburst, fun flags' s hflags hcap => ?_⟩
  apply poll_eq_burst
  · exact hf
  · exact verdict_eq_none_iff.mpr ⟨hsupplied, howes, hflags, hcap⟩

def passed : List TransmitOp → TxWorker σ → PacketRing → List Packet
  | [], _, _ => []
  | op :: ops, w, r => op.passed w r ++ passed ops (op.run w r).1 (op.run w r).2

namespace Steady

theorem step_passed (h : w.Steady r c f) (ha : PacketRing.Addresses r.capacity bound)
    (op : TransmitOp) (hb : c.head + op.granted w r ≤ bound) :
    ∃ c' f', w.Passed (op.run w r).1 c c' f f' (op.pulls w r) (op.passed w r) (op.taken r) ∧
      (op.run w r).1.Steady (op.run w r).2 c' f' := by
  by_cases hok : ∀ answer ∈ op.answers w r, ∃ p, answer = .ok p
  · have hpassed : op.passed w r = (op.pulls w r).filterMap Pull.packet? := by
      cases op with
      | poll flags =>
        obtain ⟨p, hp⟩ := hok _ List.mem_cons_self
        rw [TransmitOp.passed, hp, TransmitOp.pulls]
      | pop | drain => rfl
    rw [hpassed]
    exact h.step ha op hb hok
  · cases op with
    | pop | drain => exact absurd (fun answer hm => by cases hm) hok
    | poll flags =>
      obtain ⟨packets, answer, w', r', hpoll, hworked⟩ := h.poll ha flags hb
      rw [TransmitOp.answers, hpoll] at hok
      obtain ⟨p, hm, e, he⟩ : ∃ p ∈ w.pollPulls flags r, ∃ e, p.refusal? w.queue.id = some e := by
        by_contra hn
        have hgood : ∀ p ∈ w.pollPulls flags r, p.refusal? w.queue.id = none := by
          simpa [Option.eq_none_iff_forall_ne_some] using hn
        exact hok (by simpa using (hworked.ok_eq hgood).1)
      obtain ⟨rfl, rfl, -⟩ := hworked.error_eq p hm e he
      obtain ⟨c', hc, hs⟩ := hworked.steady
      rw [TransmitOp.run, TransmitOp.pulls, TransmitOp.passed, hpoll]
      refine ⟨c', { f with queue := f.queue ++ [], reservation := [] }, ?_, hs⟩
      exact ⟨hworked.asked, hworked.sent, hc, rfl, rfl, rfl⟩

theorem stream_passed {ops : List TransmitOp} (h : w.Steady r c f)
    (ha : PacketRing.Addresses r.capacity bound) (hb : c.head + handedOut ops w r ≤ bound) :
    ∃ c' f', w.Passed (TxWorker.stream ops w r).1 c c' f f' (pulled ops w r) (passed ops w r)
        (taken ops w r) ∧
      (TxWorker.stream ops w r).1.Steady (TxWorker.stream ops w r).2 c' f' ∧ c'.head ≤ bound := by
  induction ops generalizing w r c f with
  | nil => exact ⟨c, f, .refl w c f, h, Nat.le_of_add_right_le hb⟩
  | cons op ops ih =>
    rw [handedOut] at hb
    obtain ⟨c₁, f₁, hp₁, h₁⟩ := h.step_passed ha op (by omega)
    have hhead := hp₁.head_eq
    have hle := op.length_passed_le w r
    obtain ⟨c₂, f₂, hp₂, h₂, hb₂⟩ := ih h₁ (h.capacity_eq hp₁ h₁ ▸ ha) (by omega)
    exact ⟨c₂, f₂, hp₁.trans hp₂, h₂, hb₂⟩

end Steady

/-- A worker whose source claims more for the second slot than the slot holds. -/
def slippingWorker : TxWorker ScriptedSource :=
  { failingWorker with source := { cues := [.fill 1, .fill 9, .fill 3] } }

theorem steady_slippingWorker :
    slippingWorker.Steady failingRing ⟨0, 0, 0, 0⟩ ⟨3, 4, 0, [], [], 0⟩ := by
  obtain ⟨hready, hd, hshow, hres⟩ := steady_failingWorker
  exact ⟨hready, hd, hshow, hres⟩

/-- The first poll of the worker fails, and the second one is granted a burst, asks the source on
and sends the third packet: the first one is missing before it. -/
theorem slippingWorker_sends_on :
    answers [.poll [], .poll []] slippingWorker failingRing =
        [.error (.refused (.queue (.payload ⟨.tx, 0⟩ ⟨9, 4⟩))), .ok (.progress 1)] ∧
      (stream [.poll [], .poll []] slippingWorker failingRing).1.queue.stats.acquires = 2 ∧
      (pulled [.poll [], .poll []] slippingWorker failingRing).filterMap Pull.packet? =
        [⟨[1], [], 0⟩, ⟨[3, 3, 3], [], 0⟩] ∧
      (stream [.poll [], .poll []] slippingWorker failingRing).2.contents =
        [⟨[3, 3, 3], [], 0⟩] :=
  ⟨rfl, rfl, rfl, rfl⟩

end TxWorker

open LawfulSink

/-- A worker goes on after a failure, with its next burst. What a failing poll has received is not
charged, and what it has pulled is not sent. -/
theorem failures_cost_bursts {σ τ : Type} [ByteSink σ] [LawfulSink σ] [PacketSource τ]
    {w : RxWorker σ} {r : PacketRing} (hw : w.Steady r) (hcap : (r.capacity : Int) ≤ budgetMax)
    {v : TxWorker τ} {s : PacketRing} {c : PacketRing.Counts} {f : Fifo} (hv : v.Steady s c f) :
    (∀ ops, ∃ w' r' pieces, RxWorker.stream ops w r = (w', r') ∧
      w.Drained w' (RxWorker.polled ops w r) pieces ∧ w'.Steady r' ∧
      ∀ flags e, (w'.poll flags r').1 = .error (.refused e) → ∃ queue sink r'',
        w'.poll flags r' =
            (.error (.refused e), { w' with polls := w'.polls + 1, queue, sink }, r'') ∧
          ∀ flags' t, flags'.any id = false → capReached w'.maxPolls (w'.polls + 1) = false →
            RxWorker.poll flags' { w' with polls := w'.polls + 1, queue, sink } t =
              RxWorker.burst { w' with polls := w'.polls + 1, queue, sink } t) ∧
    ∀ ops, s.capacity ∣ 2 ^ 64 ∨ c.head + TxWorker.handedOut ops v s ≤ 2 ^ 64 →
      ∃ v' s', TxWorker.stream ops v s = (v', s') ∧
        TxWorker.taken ops v s ++ s'.contents = s.contents ++ TxWorker.passed ops v s ∧
        (∃ areas, askEach areas v.source = (TxWorker.pulled ops v s, v'.source)) ∧
        v.Sent v' (TxWorker.passed ops v s) ∧
        ∀ flags e, (v'.poll flags s').1 = .error (.refused e) → ∃ queue source s'',
          v'.poll flags s' =
              (.error (.refused e), { v' with polls := v'.polls + 1, queue, source }, s'') ∧
            ∀ flags' t, flags'.any id = false → capReached v'.maxPolls (v'.polls + 1) = false →
              TxWorker.poll flags' { v' with polls := v'.polls + 1, queue, source } t =
                TxWorker.burst { v' with polls := v'.polls + 1, queue, source } t := by
  refine ⟨fun ops => ?_, fun ops hfit => ?_⟩
  · obtain ⟨pieces, hd, hs⟩ := hw.stream_drained hcap ops
    exact ⟨_, _, pieces, rfl, hd, hs, fun _ _ h => RxWorker.poll_after_refused h⟩
  · have ha := PacketRing.addresses_of_dvd_or_le hfit
    obtain ⟨c', f', hp, hs, hb⟩ := hv.stream_passed ha (Nat.le_refl _)
    have hcap' := hv.capacity_eq hp hs
    refine ⟨_, _, rfl, ?_, hp.asked, hp.sent, fun _ _ h => TxWorker.poll_after_refused h⟩
    rw [hs.shows.contents (hcap'.symm ▸ ha.mono hb),
      hv.shows.contents (ha.mono (Nat.le_add_right _ _))]
    exact hp.queue_eq

/-- The sink with room for five bytes, polled on after it is full, and the source that slips. -/
theorem slipping_costs_bursts :
    RxWorker.shortSinkWorker.Steady RxWorker.shortSinkRing ∧
      (RxWorker.shortSinkRing.capacity : Int) ≤ budgetMax ∧
      TxWorker.slippingWorker.Steady TxWorker.failingRing ⟨0, 0, 0, 0⟩ ⟨3, 4, 0, [], [], 0⟩ ∧
      (∃ w' r', ∃ pieces : List Bytes, RxWorker.stream (RxWorker.shortSinkOps ++ [.poll [], .poll []])
          RxWorker.shortSinkWorker RxWorker.shortSinkRing = (w', r') ∧
        stored w'.sink = pieces.flatten ∧ w'.queue.stats.acquires = w'.polls) ∧
      ∃ v' s', TxWorker.stream [.poll [], .poll []] TxWorker.slippingWorker TxWorker.failingRing =
          (v', s') ∧
        s'.contents = [⟨[3, 3, 3], [], 0⟩] ∧ v'.queue.stats.acquires = v'.polls := by
  have hcap : (RxWorker.shortSinkRing.capacity : Int) ≤ budgetMax := by decide
  obtain ⟨hrx, htx⟩ := failures_cost_bursts RxWorker.steady_shortSinkWorker hcap
    TxWorker.steady_slippingWorker
  obtain ⟨w', r', pieces, hw, hd, -⟩ := hrx (RxWorker.shortSinkOps ++ [.poll [], .poll []])
  obtain ⟨v', s', hv, hpackets, -, hsent, -⟩ := htx [.poll [], .poll []] (.inr (by decide +kernel))
  refine ⟨RxWorker.steady_shortSinkWorker, hcap, TxWorker.steady_slippingWorker,
    ⟨w', r', pieces, hw, hd.stored_eq, ?_⟩, v', s', hv, hpackets, ?_⟩
  · have hacquires := hd.acquires_eq
    rwa [Nat.add_comm _ w'.polls] at hacquires
  · have hacquires := hsent.acquires_eq
    rwa [Nat.add_comm _ v'.polls] at hacquires

end DmaBurst
