import DmaBurst.Proofs.Worker.Meter
import DmaBurst.Proofs.Worker.ReceiveStream

namespace DmaBurst

open MeteredWorker

/-- The next poll gives a status exactly if it is earned, and acquires nothing while a flag is up.
Every later poll gives the same status. -/
structure Decides {ω : Type} [Worker ω] (flags : List Bool) (w : ω) (r : PacketRing)
    (Earned : WorkerStatus → Prop) : Prop where
  done_iff : ∀ status, (Worker.poll flags w r).1 = .ok (.done status) ↔ Earned status
  flagged : true ∈ flags → ∃ status w',
    Worker.poll flags w r = (.ok (.done status), w', r) ∧ Worker.queue w' = Worker.queue w
  final : ∀ status w' r', Worker.poll flags w r = (.ok (.done status), w', r') →
    r' = r ∧ Worker.queue w' = Worker.queue w ∧
      ∀ later, Worker.live later w' r' = (w', Happening.ringAfter later r') ∧
        ∀ c ∈ Worker.calls later w' r', c.answer = .ok (.done status)

theorem decides_of_earned {ω : Type} [Worker ω] [MeteredWorker ω] {flags : List Bool} {w : ω}
    {r : PacketRing} {Earned : WorkerStatus → Prop}
    (h : ∀ status, (Worker.poll flags w r).1 = .ok (.done status) ↔ Earned status) :
    Decides flags w r Earned := by
  refine ⟨h, fun hflag => ?_, fun status w' r' hp => ?_⟩
  · cases hw : works flags w with
    | true =>
      have hdown := (status?_of_works hw).2.1
      rw [List.any_eq_false] at hdown
      exact absurd rfl (hdown true hflag)
    | false =>
      obtain ⟨status, w', hp, hq, -⟩ := poll_of_rests hw
      exact ⟨status, w', hp r, hq⟩
  · cases hw : works flags w with
    | true =>
      have hdone := (poll_of_works hw r).1
      rw [hp] at hdone
      cases hdone
    | false =>
      obtain ⟨status', w'', hp', hq, -, -, hs, -⟩ := poll_of_rests hw
      rw [hp'] at hp
      cases hp
      exact ⟨rfl, hq, fun later => Worker.live_of_status hs later r⟩

theorem capReached_iff {cap : Option Nat} {polls : Nat} (h : ∀ n, cap = some n → polls ≤ n) :
    capReached cap polls = true ↔ cap = some polls := by
  cases cap with
  | none => simp [capReached]
  | some n =>
    have hle := h n rfl
    simp only [capReached, Option.any_some, decide_eq_true_eq, Option.some.injEq]
    omega

theorem capReached_of_lt {cap : Option Nat} {bound polls : Nat} (h : ∀ n, cap = some n → bound ≤ n)
    (hlt : polls < bound) : capReached cap polls = false := by
  cases cap with
  | none => rfl
  | some n =>
    have hle := h n rfl
    simp only [capReached, Option.any_some, decide_eq_false_iff_not]
    omega

theorem any_id_iff {flags : List Bool} : flags.any id = true ↔ true ∈ flags := by
  simp

namespace RxWorker

variable {σ : Type} {flags : List Bool} {w : RxWorker σ} {status : WorkerStatus}

structure IsNew (w : RxWorker σ) : Prop where
  finished_eq : w.finished = none
  polls_eq : w.polls = 0

/-- What a receiving worker must have come to for a status, at a poll that reads these flags. -/
def Earned (flags : List Bool) (w : RxWorker σ) : WorkerStatus → Prop
  | .complete => w.budget.remaining ≤ 0
  | .cancelled => 0 < w.budget.remaining ∧ true ∈ flags
  | .underDelivery => 0 < w.budget.remaining ∧ true ∉ flags ∧ w.maxPolls = some w.polls
  | .sourceExhausted => False

theorem verdict_eq_some_iff (hle : ∀ cap, w.maxPolls = some cap → w.polls ≤ cap) :
    w.verdict flags = some status ↔ w.Earned flags status := by
  have hmet : w.budget.isMet = true ↔ w.budget.remaining ≤ 0 := by simp [Budget.isMet]
  rw [verdict]
  simp only [hmet, any_id_iff, capReached_iff hle]
  by_cases hm : w.budget.remaining ≤ 0
  · cases status <;> simp [Earned, hm, Int.not_lt.mpr hm]
  · have hpos := Int.not_le.mp hm
    by_cases hf : true ∈ flags
    · cases status <;> simp [Earned, hpos, hm, hf]
    · cases status <;> simp [Earned, hpos, hm, hf]

variable [ByteSink σ] {r : PacketRing}

theorem done_iff_earned (hf : w.finished = none)
    (hle : ∀ cap, w.maxPolls = some cap → w.polls ≤ cap) :
    (w.poll flags r).1 = .ok (.done status) ↔ w.Earned flags status := by
  rw [← verdict_eq_some_iff hle]
  cases hv : w.verdict flags with
  | none =>
    have hdone := (burst_counts w r).1
    rw [poll_eq_burst hf hv]
    constructor
    · intro h
      rw [h] at hdone
      cases hdone
    · exact fun h => by cases h
  | some status' =>
    rw [poll_of_verdict hf hv]
    simp

end RxWorker

namespace Pull

theorem answer_eq_none_iff (p : Pull) (queue : QueueId) :
    p.answer = .ok none ↔ p.refusal? queue = none ∧ p.packet? = none := by
  rw [refusal?, packet?, length?]
  rcases p.answer with e | _ | len
  · simp
  · simp
  · by_cases hlen : len ≤ p.area.length <;> simp [hlen]

def Dry (asked : List Pull) : Prop :=
  ∃ p ∈ asked, p.answer = .ok none

theorem dry_append {asked more : List Pull} : Dry (asked ++ more) ↔ Dry asked ∨ Dry more := by
  simp only [Dry, List.mem_append, or_and_right, exists_or]

end Pull

namespace TxWorker

open Pull

variable {σ : Type} [PacketSource σ] {flags : List Bool} {w w' w'' : TxWorker σ}
  {r : PacketRing} {status : WorkerStatus}

structure IsNew (w : TxWorker σ) : Prop where
  finished_eq : w.finished = none
  polls_eq : w.polls = 0
  supplied : w.exhausted = false
  roundsDone_eq : w.roundsDone = 0
  sent_eq : w.sent = 0

/-- What a transmitting worker must have come to for a status, at a poll that reads these flags,
after these questions to its source and this many bursts sent. -/
def Earned (flags : List Bool) (asked : List Pull) (sent : Nat) (w : TxWorker σ) :
    WorkerStatus → Prop
  | .sourceExhausted => Dry asked
  | .complete => ¬ Dry asked ∧ sent = w.rounds
  | .cancelled => ¬ Dry asked ∧ sent < w.rounds ∧ true ∈ flags
  | .underDelivery =>
    ¬ Dry asked ∧ sent < w.rounds ∧ true ∉ flags ∧ w.maxPolls = some w.polls

theorem dry_pulls_iff {q : Queue} {s : σ} {len count offset : Nat} :
    Dry (pulls len q count offset r s) ↔
      ∃ filled, (fillBurst len q count offset r s).1 = .ok (filled, .dry) := by
  induction count generalizing offset r s with
  | zero => simp [pulls, fillBurst, Dry]
  | succ count ih =>
    cases hslot : q.slot len offset r with
    | error f => simp [pulls, fillBurst, fillSlot, hslot, Dry]
    | ok slot =>
      obtain ⟨p, s', hask⟩ : ∃ p s', PacketSource.ask slot.data s = (p, s') := ⟨_, _, rfl⟩
      have hdry := p.answer_eq_none_iff q.id
      cases hr : p.refusal? q.id with
      | some e =>
        obtain ⟨hburst, hpulls⟩ := fillBurst_of_refused count hslot hask hr
        rw [hburst, hpulls]
        simp [Dry, hdry, hr]
      | none =>
        cases hp : p.packet? with
        | none =>
          obtain ⟨hburst, hpulls⟩ := fillBurst_of_dry count hslot hask hr hp
          rw [hburst, hpulls]
          simp [Dry, hdry, hr, hp]
        | some packet =>
          obtain ⟨hburst, hpulls⟩ := fillBurst_of_packet count hslot hask hr hp
          rw [hburst, hpulls, ← ih]
          simp [Dry, hdry, hp]

def slotsGranted (w : TxWorker σ) (r : PacketRing) : Nat :=
  match (w.queue.acquire w.batchSize r).1 with
  | .ok len => len
  | .error _ => 0

def sends (flags : List Bool) (w : TxWorker σ) (r : PacketRing) : Bool :=
  w.works flags && 0 < w.slotsGranted r && (w.poll flags r).1.isOk

structure Remembers (w w' : TxWorker σ) (asked : List Pull) (sent : Nat) : Prop where
  rounds_eq : w'.rounds = w.rounds
  exhausted_iff : w'.exhausted = true ↔ w.exhausted = true ∨ Dry asked
  roundsDone_eq : w'.roundsDone = w.roundsDone + sent
  roundsDone_le : w.roundsDone ≤ w.rounds → w'.roundsDone ≤ w.rounds

omit [PacketSource σ] in
theorem Remembers.refl (w : TxWorker σ) : w.Remembers w [] 0 :=
  ⟨rfl, by simp [Dry], rfl, id⟩

omit [PacketSource σ] in
theorem Remembers.trans {asked more : List Pull} {m n : Nat} (h : w.Remembers w' asked m)
    (h' : w'.Remembers w'' more n) : w.Remembers w'' (asked ++ more) (m + n) := by
  refine ⟨h'.rounds_eq.trans h.rounds_eq, ?_, ?_, fun hle => ?_⟩
  · rw [h'.exhausted_iff, h.exhausted_iff, dry_append, or_assoc]
  · rw [h'.roundsDone_eq, h.roundsDone_eq, Nat.add_assoc]
  · exact h.rounds_eq ▸ h'.roundsDone_le (h.rounds_eq.symm ▸ h.roundsDone_le hle)

theorem remembers_burst (hlt : w.roundsDone < w.rounds) (r : PacketRing) :
    w.Remembers (w.burst r).2.1 (w.burstPulls r)
      (if 0 < w.slotsGranted r ∧ (w.burst r).1.isOk then 1 else 0) := by
  rw [burst, burstPulls, slotsGranted]
  rcases w.queue.acquire w.batchSize r with ⟨_ | _ | len, q, s⟩
  · exact ⟨rfl, by simp [Dry], rfl, id⟩
  · simp only [rest]
    split <;> exact ⟨rfl, by simp [pulls, Dry], by simp, id⟩
  · have hdry : Dry (pulls (len + 1) q (len + 1) 0 s w.source) ↔ _ := dry_pulls_iff
    simp only [send]
    rcases hfill : fillBurst (len + 1) q (len + 1) 0 s w.source with
      ⟨_ | ⟨filled, fill⟩, s', source⟩
    · rw [hfill] at hdry
      exact ⟨rfl, by simp [hdry], rfl, id⟩
    · have hexhausted : (w.exhausted || decide (fill = .dry)) = true ↔
          w.exhausted = true ∨ Dry (pulls (len + 1) q (len + 1) 0 s w.source) := by
        rw [hdry, hfill]
        simp
      obtain ⟨answer, q', s'', hcommit⟩ :
        ∃ answer q' s'', q.commit (len + 1) filled s' = (answer, q', s'') := ⟨_, _, _, rfl⟩
      simp only [hcommit]
      cases answer with
      | error e => exact ⟨rfl, hexhausted, rfl, id⟩
      | ok => exact ⟨rfl, hexhausted, by simp [Except.isOk, Except.toBool], fun _ => hlt⟩

theorem remembers_poll (hw : w.works flags = true) (r : PacketRing) :
    w.Remembers (w.poll flags r).2.1 (w.pollPulls flags r)
      (if w.sends flags r = true then 1 else 0) := by
  obtain ⟨hf, hv⟩ := works_iff.mp hw
  have hp := poll_eq_burst hf hv r
  have hburst := remembers_burst (verdict_eq_none_iff.mp hv).2.1 r
  rw [pollPulls, sends, if_pos hw, hw, hp]
  simpa only [Bool.true_and, Bool.and_eq_true, decide_eq_true_eq] using hburst

def asked (past : List Happening) (w : TxWorker σ) (r : PacketRing) : List Pull :=
  (Worker.calls past w r).flatMap fun c => c.worker.pollPulls c.flags c.ring

def burstsSent (past : List Happening) (w : TxWorker σ) (r : PacketRing) : Nat :=
  (Worker.calls past w r).countP fun c => c.worker.sends c.flags c.ring

theorem remembers_live {past : List Happening} (h : Worker.Undone past w r) :
    w.Remembers (Worker.live past w r).1 (asked past w r) (burstsSent past w r) := by
  induction past generalizing w r with
  | nil => exact .refl w
  | cons happening past ih =>
    cases happening with
    | poll flags =>
      obtain ⟨hfirst, hrest⟩ := List.forall_mem_cons.mp h
      have hworks : w.works flags = true := Worker.works_of_undone hfirst
      rw [asked, burstsSent, Worker.calls, List.flatMap_cons, List.countP_cons, Nat.add_comm]
      exact (remembers_poll hworks r).trans (ih hrest)
    | hardware act => exact ih h

omit [PacketSource σ] in
theorem verdict_eq_some_iff {asked : List Pull} {sent : Nat}
    (hle : ∀ cap, w.maxPolls = some cap → w.polls ≤ cap)
    (hdry : w.exhausted = true ↔ Dry asked) (hsent : w.roundsDone = sent)
    (hrounds : sent ≤ w.rounds) :
    w.verdict flags = some status ↔ w.Earned flags asked sent status := by
  rw [verdict]
  simp only [hsent, any_id_iff, capReached_iff hle]
  by_cases hd : Dry asked
  · rw [if_pos (hdry.mpr hd)]
    cases status <;> simp [Earned, hd]
  · rw [if_neg (mt hdry.mp hd)]
    by_cases hm : w.rounds ≤ sent
    · have heq := Nat.le_antisymm hrounds hm
      cases status <;> simp [Earned, hd, heq]
    · have hlt := Nat.not_le.mp hm
      by_cases hf : true ∈ flags
      · cases status <;> simp [Earned, hd, hm, hf, hlt, hlt.ne]
      · cases status <;> simp [Earned, hd, hm, hf, hlt, hlt.ne]

theorem done_iff_earned {asked : List Pull} {sent : Nat} (hf : w.finished = none)
    (hle : ∀ cap, w.maxPolls = some cap → w.polls ≤ cap)
    (hdry : w.exhausted = true ↔ Dry asked) (hsent : w.roundsDone = sent)
    (hrounds : sent ≤ w.rounds) :
    (w.poll flags r).1 = .ok (.done status) ↔ w.Earned flags asked sent status := by
  rw [← verdict_eq_some_iff hle hdry hsent hrounds]
  cases hv : w.verdict flags with
  | none =>
    have hdone := (burst_counts w r).1
    rw [poll_eq_burst hf hv]
    constructor
    · intro h
      rw [h] at hdone
      cases hdone
    · exact fun h => by cases h
  | some status' =>
    rw [poll_of_verdict hf hv]
    simp

end TxWorker

/-- The next poll of a worker gives the status that the worker has earned, if any, and the first
status is the last. -/
theorem statuses_earned_for_good {σ τ : Type} [ByteSink σ] [PacketSource τ] {w : RxWorker σ}
    (hw : w.IsNew) {v : TxWorker τ} (hv : v.IsNew) (past : List Happening) (r : PacketRing)
    (flags : List Bool) :
    (Worker.Undone past w r → ∃ w' r', Worker.live past w r = (w', r') ∧
      w'.maxPolls = w.maxPolls ∧ w'.polls = (Worker.calls past w r).length ∧
      Decides flags w' r' (w'.Earned flags)) ∧
    (Worker.Undone past v r → ∃ v' r', Worker.live past v r = (v', r') ∧
      v'.maxPolls = v.maxPolls ∧ v'.polls = (Worker.calls past v r).length ∧ v'.rounds = v.rounds ∧
      Decides flags v' r'
        (v'.Earned flags (TxWorker.asked past v r) (TxWorker.burstsSent past v r))) := by
  constructor
  · intro h
    have hm := Worker.atWork_live h
    have hpolls : _ = w.polls + _ := hm.polls_eq
    rw [hw.polls_eq, Nat.zero_add] at hpolls
    refine ⟨_, _, rfl, hm.maxPolls_eq, hpolls, decides_of_earned fun status => ?_⟩
    refine RxWorker.done_iff_earned (hm.status?_eq hw.finished_eq) fun cap hcap => ?_
    exact hm.polls_le (hm.maxPolls_eq.symm.trans hcap) (by simp [polls, hw.polls_eq])
  · intro h
    have hm := Worker.atWork_live h
    have hpolls : _ = v.polls + _ := hm.polls_eq
    have hremembers := TxWorker.remembers_live h
    have hsent := hremembers.roundsDone_eq
    have hdry := hremembers.exhausted_iff
    have hrounds := hremembers.roundsDone_le (by simp [hv.roundsDone_eq])
    rw [hv.polls_eq, Nat.zero_add] at hpolls
    rw [hv.roundsDone_eq, Nat.zero_add] at hsent
    simp only [hv.supplied, Bool.false_eq_true, false_or] at hdry
    refine ⟨_, _, rfl, hm.maxPolls_eq, hpolls, hremembers.rounds_eq,
      decides_of_earned fun status => ?_⟩
    refine TxWorker.done_iff_earned (hm.status?_eq hv.finished_eq) (fun cap hcap => ?_) hdry
      hsent ?_
    · exact hm.polls_le (hm.maxPolls_eq.symm.trans hcap) (by simp [polls, hv.polls_eq])
    · rwa [← hsent, hremembers.rounds_eq]

def TxWorker.singlePacketWorker : TxWorker ScriptedSource :=
  { failingWorker with source := { cues := [.fill 3] } }

def onePollPast : List Happening :=
  [.hardware fun r => (r.push [1, 2, 3] [] 0).2, .poll [false], .hardware fun r => r.pop.2]

/-- A flag stops the one worker, which still owes packets; the source of the other has run dry. -/
theorem cancelled_and_exhausted_for_good :
    RxWorker.shortSinkWorker.IsNew ∧ TxWorker.singlePacketWorker.IsNew ∧
      Worker.Undone onePollPast RxWorker.shortSinkWorker RxWorker.shortSinkRing ∧
      Worker.Undone onePollPast TxWorker.singlePacketWorker RxWorker.shortSinkRing ∧
      (∃ w' r', Worker.live onePollPast RxWorker.shortSinkWorker RxWorker.shortSinkRing =
          (w', r') ∧ w'.polls = 1 ∧ (w'.poll [false, true] r').1 = .ok (.done .cancelled)) ∧
      ∃ v' r', Worker.live onePollPast TxWorker.singlePacketWorker RxWorker.shortSinkRing =
          (v', r') ∧ v'.polls = 1 ∧ (v'.poll [false, true] r').1 = .ok (.done .sourceExhausted) := by
  have hw : RxWorker.shortSinkWorker.IsNew := ⟨rfl, rfl⟩
  have hv : TxWorker.singlePacketWorker.IsNew := ⟨rfl, rfl, rfl, rfl, rfl⟩
  have hwu : Worker.Undone onePollPast RxWorker.shortSinkWorker RxWorker.shortSinkRing :=
    List.forall_mem_singleton.mpr (by cbv)
  have hvu : Worker.Undone onePollPast TxWorker.singlePacketWorker RxWorker.shortSinkRing :=
    List.forall_mem_singleton.mpr (by cbv)
  obtain ⟨hrx, htx⟩ :=
    statuses_earned_for_good hw hv onePollPast RxWorker.shortSinkRing [false, true]
  obtain ⟨w', r', hlive, -, hpolls, hdecides⟩ := hrx hwu
  obtain ⟨v', s', hlive', -, hpolls', -, hdecides'⟩ := htx hvu
  refine ⟨hw, hv, hwu, hvu, ⟨w', r', hlive, hpolls, (hdecides.done_iff _).mpr ?_⟩,
    v', s', hlive', hpolls', (hdecides'.done_iff _).mpr ?_⟩
  · have howes : (Worker.live onePollPast RxWorker.shortSinkWorker
        RxWorker.shortSinkRing).1.budget.remaining = 9 := by cbv
    rw [hlive] at howes
    exact ⟨howes.symm ▸ by decide, by decide⟩
  · have hlast : (TxWorker.asked onePollPast TxWorker.singlePacketWorker
        RxWorker.shortSinkRing).getLast? = some ⟨.ok none, [0, 0, 0, 0]⟩ := rfl
    exact ⟨_, List.mem_of_getLast? hlast, rfl⟩

end DmaBurst
