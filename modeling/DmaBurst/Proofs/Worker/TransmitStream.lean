import DmaBurst.Io.Scripted
import DmaBurst.Proofs.Ring.Refinement
import DmaBurst.Proofs.Worker.TransmitBurst

namespace DmaBurst

open PacketSource

/-- What happens to a worker and to the ring that it fills: polls, with the shutdown flags as they
are at the time, and packets that the hardware takes off, one of them or all. -/
inductive TransmitOp where
  | poll (flags : List Bool)
  | pop
  | drain

variable {σ : Type} [PacketSource σ]

namespace TxWorker

def works (flags : List Bool) (w : TxWorker σ) : Bool :=
  w.finished.isNone && (w.verdict flags).isNone

def pollPulls (flags : List Bool) (w : TxWorker σ) (r : PacketRing) : List Pull :=
  if w.works flags then w.burstPulls r else []

def pollGrant (flags : List Bool) (w : TxWorker σ) (r : PacketRing) : Nat :=
  if w.works flags then w.grant r else 0

end TxWorker

namespace TransmitOp

def run : TransmitOp → TxWorker σ → PacketRing → TxWorker σ × PacketRing
  | .poll flags, w, r => ((w.poll flags r).2.1, (w.poll flags r).2.2)
  | .pop, w, r => (w, r.pop.2)
  | .drain, w, r => (w, r.drain.2)

def answers : TransmitOp → TxWorker σ → PacketRing → List (Except (Halt WorkerError) Poll)
  | .poll flags, w, r => [(w.poll flags r).1]
  | _, _, _ => []

def taken : TransmitOp → PacketRing → List Packet
  | .poll _, _ => []
  | .pop, r => r.pop.1.toList
  | .drain, r => r.drain.1

def pulls : TransmitOp → TxWorker σ → PacketRing → List Pull
  | .poll flags, w, r => w.pollPulls flags r
  | _, _, _ => []

def granted : TransmitOp → TxWorker σ → PacketRing → Nat
  | .poll flags, w, r => w.pollGrant flags r
  | _, _, _ => 0

end TransmitOp

namespace TxWorker

def stream : List TransmitOp → TxWorker σ → PacketRing → TxWorker σ × PacketRing
  | [], w, r => (w, r)
  | op :: ops, w, r => stream ops (op.run w r).1 (op.run w r).2

def answers : List TransmitOp → TxWorker σ → PacketRing → List (Except (Halt WorkerError) Poll)
  | [], _, _ => []
  | op :: ops, w, r => op.answers w r ++ answers ops (op.run w r).1 (op.run w r).2

def taken : List TransmitOp → TxWorker σ → PacketRing → List Packet
  | [], _, _ => []
  | op :: ops, w, r => op.taken r ++ taken ops (op.run w r).1 (op.run w r).2

def pulled : List TransmitOp → TxWorker σ → PacketRing → List Pull
  | [], _, _ => []
  | op :: ops, w, r => op.pulls w r ++ pulled ops (op.run w r).1 (op.run w r).2

/-- How many slots the run has handed to the worker at most, counting all that are sent and those of
the burst at the time. -/
def handedOut : List TransmitOp → TxWorker σ → PacketRing → Nat
  | [], _, _ => 0
  | op :: ops, w, r => max (op.granted w r)
      (((op.pulls w r).filterMap Pull.packet?).length +
        handedOut ops (op.run w r).1 (op.run w r).2)

variable {w w' : TxWorker σ} {r r' : PacketRing} {c : PacketRing.Counts} {f : Fifo} {bound : Nat}

theorem poll_cases (flags : List Bool) (w : TxWorker σ) (r : PacketRing) :
    (∃ status, w.poll flags r = (.ok (.done status), { w with finished := some status }, r)) ∧
        w.works flags = false ∨
      w.poll flags r = w.burst r ∧ w.works flags = true ∧ w.roundsDone < w.rounds := by
  rw [poll, works]
  cases hf : w.finished with
  | some status =>
    refine .inl ⟨⟨status, ?_⟩, rfl⟩
    obtain ⟨queue, source, batchSize, rounds, roundsDone, sent, exhausted, maxPolls, polls, backoff,
      finished⟩ := w
    cases hf
    rfl
  | none =>
    cases hv : w.verdict flags with
    | some status => exact .inl ⟨⟨status, rfl⟩, rfl⟩
    | none =>
      refine .inr ⟨rfl, rfl, ?_⟩
      by_contra hn
      rw [verdict] at hv
      split at hv
      · cases hv
      · rw [if_pos (Nat.not_lt.mp hn)] at hv
        cases hv

/-- Between two states the source was asked all this. Of what was pulled, `packets` went through the
ring, and the hardware took `out` off it. -/
structure Passed (w w' : TxWorker σ) (c c' : PacketRing.Counts) (f f' : Fifo) (ps : List Pull)
    (packets out : List Packet) : Prop where
  asked : ∃ areas, askEach areas w.source = (ps, w'.source)
  sent : w.Sent w' packets
  head_eq : c'.head = c.head + packets.length
  queue_eq : out ++ f'.queue = f.queue ++ packets
  capacity_eq : f'.capacity = f.capacity
  dataSize_eq : f'.dataSize = f.dataSize

theorem Passed.refl (w : TxWorker σ) (c : PacketRing.Counts) (f : Fifo) :
    w.Passed w c c f f [] [] [] :=
  ⟨⟨[], rfl⟩, .refl w, rfl, (List.append_nil _).symm, rfl, rfl⟩

theorem Passed.trans {c' c'' : PacketRing.Counts} {f' f'' : Fifo} {ps ps' : List Pull}
    {packets packets' out out' : List Packet} {w'' : TxWorker σ}
    (h : w.Passed w' c c' f f' ps packets out)
    (h' : w'.Passed w'' c' c'' f' f'' ps' packets' out') :
    w.Passed w'' c c'' f f'' (ps ++ ps') (packets ++ packets') (out ++ out') := by
  obtain ⟨areas, ha⟩ := h.asked
  obtain ⟨areas', ha'⟩ := h'.asked
  refine ⟨⟨areas ++ areas', ?_⟩, h.sent.trans h'.sent, ?_, ?_, h'.capacity_eq.trans h.capacity_eq,
    h'.dataSize_eq.trans h.dataSize_eq⟩
  · rw [askEach_append, ha, ha']
  · rw [h'.head_eq, h.head_eq, List.length_append, Nat.add_assoc]
  · rw [List.append_assoc, h'.queue_eq, ← List.append_assoc, h.queue_eq, List.append_assoc]

namespace Steady

theorem poll (h : w.Steady r c f) (ha : PacketRing.Addresses r.capacity bound) (flags : List Bool)
    (hb : c.head + w.pollGrant flags r ≤ bound) :
    ∃ packets answer w' r', w.poll flags r = (answer, w', r') ∧
      w.Worked c f (w.pollGrant flags r) (w.pollPulls flags r) packets answer w' r' := by
  obtain ⟨⟨status, hp⟩, hw⟩ | ⟨hp, hw, hlt⟩ := poll_cases flags w r
  · rw [pollPulls, pollGrant, hw]
    refine ⟨[], _, _, r, hp, ⟨[], rfl⟩, Nat.le_refl _, by simp, ?_, ⟨c, rfl, ?_⟩, by simp,
      fun _ => ⟨⟨_, rfl⟩, rfl⟩⟩
    · constructor <;> simp [payloadBytes]
    · refine ⟨h.ready, h.direction_eq, ?_, rfl⟩
      rw [List.append_nil, ← h.reservation_eq]
      exact h.shows
  · rw [pollGrant, hw] at hb
    rw [hp, pollPulls, pollGrant, hw]
    exact h.burst ha hb hlt

theorem take (h : w.Steady r c f) (ha : PacketRing.Addresses r.capacity bound)
    (hb : c.head ≤ bound) (op : TransmitOp) (hop : op.answers w r = []) :
    (op.run w r).1 = w ∧ op.pulls w r = [] ∧ ∃ c' queue, c'.head = c.head ∧
      op.taken r ++ queue = f.queue ∧
      w.Steady (op.run w r).2 c' { f with queue, exposed := 0 } := by
  cases op with
  | poll flags => cases hop
  | pop =>
    refine ⟨rfl, rfl, ?_⟩
    rw [TransmitOp.taken, TransmitOp.run]
    cases hq : f.queue with
    | nil =>
      obtain ⟨hp, c', hc, -, hs⟩ := h.shows.pop_of_empty hq
      rw [hp]
      exact ⟨c', [], hc, rfl, h.ready, h.direction_eq, hq ▸ hs, h.reservation_eq⟩
    | cons p rest =>
      obtain ⟨hp, c', hc, -, hs⟩ := h.shows.pop_of_cons hq ha hb
      rw [hp]
      exact ⟨c', rest, hc, rfl, h.ready, h.direction_eq, hs, h.reservation_eq⟩
  | drain =>
    obtain ⟨hp, c', hc, -, hs⟩ := h.shows.drain ha hb
    refine ⟨rfl, rfl, c', [], hc, ?_, h.ready, h.direction_eq, hs, h.reservation_eq⟩
    rw [TransmitOp.taken, hp, List.append_nil]

theorem step (h : w.Steady r c f) (ha : PacketRing.Addresses r.capacity bound) (op : TransmitOp)
    (hb : c.head + op.granted w r ≤ bound) (hok : ∀ answer ∈ op.answers w r, ∃ p, answer = .ok p) :
    ∃ c' f', w.Passed (op.run w r).1 c c' f f' (op.pulls w r)
        ((op.pulls w r).filterMap Pull.packet?) (op.taken r) ∧
      (op.run w r).1.Steady (op.run w r).2 c' f' := by
  have htake := h.take ha (Nat.le_of_add_right_le hb) op
  cases op with
  | poll flags =>
    obtain ⟨packets, answer, w', r', hpoll, hworked⟩ := h.poll ha flags hb
    obtain ⟨p, hp⟩ := hok _ List.mem_cons_self
    rw [hpoll] at hp
    have hgood : ∀ pull ∈ w.pollPulls flags r, pull.refusal? w.queue.id = none := by
      intro pull hm
      by_contra hne
      obtain ⟨e, he⟩ := Option.ne_none_iff_exists'.mp hne
      have hanswer := (hworked.error_eq pull hm e he).1
      exact absurd (hp.symm.trans hanswer) (by simp)
    obtain ⟨-, rfl⟩ := hworked.ok_eq hgood
    obtain ⟨c', hc, hs⟩ := hworked.steady
    rw [TransmitOp.run, TransmitOp.pulls, hpoll]
    refine ⟨c', { f with
      queue := f.queue ++ (w.pollPulls flags r).filterMap Pull.packet?
      reservation := [] }, ?_, hs⟩
    exact ⟨hworked.asked, hworked.sent, hc, rfl, rfl, rfl⟩
  | pop | drain =>
    obtain ⟨hw, hpulls, c', queue, hc, hq, hs⟩ := htake rfl
    rw [hpulls, hw]
    refine ⟨c', { f with queue, exposed := 0 }, ?_, hs⟩
    exact ⟨⟨[], rfl⟩, .refl w, hc, hq.trans (List.append_nil _).symm, rfl, rfl⟩

theorem poll_reliable (h : w.Steady r c f) (ha : PacketRing.Addresses r.capacity bound)
    (op : TransmitOp) (hb : c.head + op.granted w r ≤ bound) (hs : Reliable w.source) :
    ∀ answer ∈ op.answers w r, ∃ p, answer = .ok p := by
  intro answer hm
  cases op with
  | poll flags =>
    obtain ⟨packets, answer', w', r', hpoll, hworked⟩ := h.poll ha flags hb
    obtain ⟨areas, hasked⟩ := hworked.asked
    rw [TransmitOp.answers, List.mem_singleton, hpoll] at hm
    rw [hm]
    refine (hworked.ok_eq fun p hp => ?_).1
    have hp' : p ∈ (askEach areas w.source).1 := by rwa [hasked]
    exact hs.refusal? hp' _
  | pop | drain => cases hm

theorem capacity_eq (h : w.Steady r c f) {c' : PacketRing.Counts} {f' : Fifo} {ps : List Pull}
    {packets out : List Packet} (hp : w.Passed w' c c' f f' ps packets out)
    (h' : w'.Steady r' c' f') :
    r'.capacity = r.capacity := by
  rw [← h'.shows.capacity_eq, hp.capacity_eq, h.shows.capacity_eq]

theorem stream {ops : List TransmitOp} (h : w.Steady r c f)
    (ha : PacketRing.Addresses r.capacity bound) (rest : List TransmitOp)
    (hb : c.head + handedOut (ops ++ rest) w r ≤ bound)
    (hok : ∀ answer ∈ answers ops w r, ∃ p, answer = .ok p) :
    ∃ c' f', w.Passed (stream ops w r).1 c c' f f' (pulled ops w r)
        ((pulled ops w r).filterMap Pull.packet?) (taken ops w r) ∧
      (stream ops w r).1.Steady (stream ops w r).2 c' f' ∧
      c'.head + handedOut rest (stream ops w r).1 (stream ops w r).2 ≤ bound := by
  induction ops generalizing w r c f with
  | nil => exact ⟨c, f, .refl w c f, h, hb⟩
  | cons op ops ih =>
    rw [List.cons_append, handedOut] at hb
    obtain ⟨c₁, f₁, hp₁, h₁⟩ := h.step ha op (by omega) fun answer hm =>
      hok answer (List.mem_append_left _ hm)
    have hhead := hp₁.head_eq
    obtain ⟨c₂, f₂, hp₂, h₂, hb₂⟩ := ih h₁ (h.capacity_eq hp₁ h₁ ▸ ha) (by omega) fun answer hm =>
      hok answer (List.mem_append_right _ hm)
    refine ⟨c₂, f₂, ?_, h₂, hb₂⟩
    rw [pulled, List.filterMap_append]
    exact hp₁.trans hp₂

theorem stream_reliable {ops : List TransmitOp} (h : w.Steady r c f)
    (ha : PacketRing.Addresses r.capacity bound) (hb : c.head + handedOut ops w r ≤ bound)
    (hs : Reliable w.source) : ∀ answer ∈ answers ops w r, ∃ p, answer = .ok p := by
  induction ops generalizing w r c f with
  | nil =>
    intro answer hm
    cases hm
  | cons op ops ih =>
    rw [handedOut] at hb
    have hok := h.poll_reliable ha op (by omega) hs
    obtain ⟨c₁, f₁, hp₁, h₁⟩ := h.step ha op (by omega) hok
    have hhead := hp₁.head_eq
    obtain ⟨areas, hasked⟩ := hp₁.asked
    have hs₁ : Reliable (op.run w r).1.source := by
      have hafter := hs.after areas
      rwa [hasked] at hafter
    intro answer hm
    cases List.mem_append.mp hm with
    | inl hm => exact hok answer hm
    | inr hm => exact ih h₁ (h.capacity_eq hp₁ h₁ ▸ ha) (by omega) hs₁ answer hm

omit [PacketSource σ] in
theorem pollGrant_le (h : w.Steady r c f) (flags : List Bool) :
    w.pollGrant flags r ≤ min w.batchSize (r.capacity - f.queue.length) := by
  rw [pollGrant, ← h.shows.capacity_eq, Nat.min_comm, ← h.shows.granted w.batchSize]
  split
  · exact Nat.le_refl _
  · exact Nat.zero_le _

/-- The next poll of a worker that has come this far pulls nothing for a slot that it is not lent.
If it meets an answer of the source that it cannot use, it sends nothing of its burst, and ends it
once. -/
theorem next_poll {ops : List TransmitOp} (h : w.Steady r c f) (flags : List Bool)
    (ha : PacketRing.Addresses r.capacity bound)
    (hb : c.head + handedOut (ops ++ [.poll flags]) w r ≤ bound)
    (hok : ∀ answer ∈ answers ops w r, ∃ p, answer = .ok p)
    (hw : TxWorker.stream ops w r = (w', r')) :
    (w'.pollPulls flags r').length ≤ min w.batchSize (r.capacity - r'.contents.length) ∧
      (∀ p ∈ w'.pollPulls flags r', p.area.length = f.dataSize) ∧
      ∀ p ∈ w'.pollPulls flags r', ∀ e, p.refusal? w.queue.id = some e →
        ∃ w'' r'', w'.poll flags r' = (.error e, w'', r'') ∧ r''.contents = r'.contents ∧
          r''.reserved = 0 ∧ w''.queue.Ready ∧ w'.Sent w'' [] ∧ w''.polls = w'.polls + 1 := by
  obtain ⟨c', f', hp, h', hb'⟩ := h.stream ha [.poll flags] hb hok
  rw [hw] at hp h' hb'
  have hcap := h.capacity_eq hp h'
  have hgrant : w'.pollGrant flags r' ≤ handedOut [.poll flags] w' r' := Nat.le_max_left _ _
  have hlent : c'.head + w'.pollGrant flags r' ≤ bound := (Nat.add_le_add_left hgrant _).trans hb'
  have hcontents := h'.shows.contents (hcap.symm ▸ ha.mono (Nat.le_of_add_right_le hlent))
  obtain ⟨packets, answer, w'', r'', hpoll, hworked⟩ := h'.poll (hcap.symm ▸ ha) flags hlent
  refine ⟨?_, hp.dataSize_eq ▸ hworked.length_area, fun p hm e he => ?_⟩
  · have hle := h'.pollGrant_le flags
    rw [hp.sent.batchSize_eq, hcap, ← hcontents] at hle
    exact hworked.length_le.trans hle
  · rw [← hp.sent.id_eq] at he
    obtain ⟨rfl, rfl, hpolls⟩ := hworked.error_eq p hm e he
    obtain ⟨c'', hc, h''⟩ := hworked.steady
    have hhead : c''.head = c'.head := hc
    have hcap' : r''.capacity = r.capacity :=
      (h''.shows.capacity_eq.symm.trans h'.shows.capacity_eq).trans hcap
    refine ⟨w'', r'', hpoll, ?_, h''.shows.length_reservation.symm, h''.ready, hworked.sent, hpolls⟩
    rw [h''.shows.contents (hcap'.symm ▸ ha.mono (by omega)), hcontents, List.append_nil]

end Steady

omit [PacketSource σ] in
theorem report_eq (hq : w.sent ≤ w.roundsDone * w.batchSize) (hr : w.roundsDone ≤ w.rounds)
    (hfit : (w.rounds * w.batchSize : Int) ≤ budgetMax) :
    w.report = .ok {
      queue := w.queue.id
      status := w.finished.getD .cancelled
      initial := w.rounds * w.batchSize
      remaining := w.rounds * w.batchSize - w.sent
      polls := w.polls
      stats := w.queue.stats } := by
  have hle : w.sent ≤ w.rounds * w.batchSize := hq.trans (Nat.mul_le_mul_right _ hr)
  have hplan : (w.rounds * min (w.batchSize : Int) budgetMax) = w.rounds * w.batchSize := by
    cases hz : w.rounds with
    | zero => simp
    | succ n =>
      have hone : w.batchSize ≤ (n + 1) * w.batchSize :=
        Nat.le_mul_of_pos_left _ (Nat.succ_pos n)
      rw [hz] at hfit
      have hbatch : (w.batchSize : Int) ≤ budgetMax :=
        Int.le_trans (by exact_mod_cast hone) hfit
      rw [Int.min_eq_left hbatch]
  have hcast : (w.sent : Int) ≤ w.rounds * w.batchSize := by exact_mod_cast hle
  have hmin : budgetMin ≤ 0 := by decide
  have hinitial : w.planned = .ok (w.rounds * w.batchSize) := by
    rw [planned, hplan, checked, if_pos ⟨by omega, hfit⟩]
  have hremaining : checked .subtractOverflow (w.rounds * w.batchSize - w.sent) =
      .ok (w.rounds * w.batchSize - w.sent) := if_pos ⟨by omega, by omega⟩
  rw [report, hinitial]
  simp only [bind, Except.bind, hremaining]
  rfl

omit [PacketSource σ] in
theorem report_of_quota (hq : w.sent ≤ w.roundsDone * w.batchSize)
    (hr : w.roundsDone ≤ w.rounds) (hfit : (w.rounds * w.batchSize : Int) ≤ budgetMax) :
    ∃ report, w.report = .ok report ∧ report.initial - report.remaining = w.sent ∧
      0 ≤ report.remaining := by
  have hle : w.sent ≤ w.rounds * w.batchSize := hq.trans (Nat.mul_le_mul_right _ hr)
  have hcast : (w.sent : Int) ≤ w.rounds * w.batchSize := by exact_mod_cast hle
  exact ⟨_, report_eq hq hr hfit, Int.sub_sub_self _ _, Int.sub_nonneg_of_le hcast⟩

/-- What the hardware has taken and what the ring still holds are what the ring held at first and
then the packets pulled from the source, in order. When the source fails, nothing of that burst is
sent. -/
theorem transmits_pulled (h : w.Steady r c f) (hsent : w.sent = 0) (hpolls : w.polls = 0)
    (hrounds : w.roundsDone = 0) (ops : List TransmitOp)
    (hfit : r.capacity ∣ 2 ^ 64 ∨ c.head + handedOut ops w r ≤ 2 ^ 64) :
    (Reliable w.source → ∀ answer ∈ answers ops w r, ∃ p, answer = .ok p) ∧
    ((∀ answer ∈ answers ops w r, ∃ p, answer = .ok p) → ∃ w' r', stream ops w r = (w', r') ∧
      taken ops w r ++ r'.contents = r.contents ++ (pulled ops w r).filterMap Pull.packet? ∧
      (∃ areas, askEach areas w.source = (pulled ops w r, w'.source)) ∧
      w'.sent = ((pulled ops w r).filterMap Pull.packet?).length ∧
      w'.queue.stats.packets = w.queue.stats.packets + w'.sent ∧
      w'.queue.stats.acquires = w.queue.stats.acquires + w'.polls ∧
      w'.queue.stats.releases = w.queue.stats.releases + w'.polls ∧
      w'.sent ≤ w'.roundsDone * w.batchSize ∧
      ((w.rounds * w.batchSize : Int) ≤ budgetMax → ∃ report, w'.report = .ok report ∧
        report.initial - report.remaining = w'.sent ∧ 0 ≤ report.remaining) ∧
      ∀ flags, r.capacity ∣ 2 ^ 64 ∨ c.head + handedOut (ops ++ [.poll flags]) w r ≤ 2 ^ 64 →
        (w'.pollPulls flags r').length ≤ min w.batchSize (r.capacity - r'.contents.length) ∧
        (∀ p ∈ w'.pollPulls flags r', p.area.length = f.dataSize) ∧
        ∀ p ∈ w'.pollPulls flags r', ∀ e, p.refusal? w.queue.id = some e →
          ∃ w'' r'', w'.poll flags r' = (.error e, w'', r'') ∧ r''.contents = r'.contents ∧
            r''.reserved = 0 ∧ w''.queue.channel.window = none ∧ w''.sent = w'.sent ∧
            w''.queue.stats.acquires = w'.queue.stats.acquires + 1 ∧
            w''.queue.stats.releases = w'.queue.stats.releases + 1 ∧
            w''.queue.stats.packets = w'.queue.stats.packets ∧
            w''.queue.stats.bytes = w'.queue.stats.bytes) := by
  have ha := PacketRing.addresses_of_dvd_or_le hfit
  refine ⟨fun hs => h.stream_reliable ha (Nat.le_refl _) hs, fun hok => ?_⟩
  obtain ⟨c', f', hp, h', hb'⟩ := h.stream ha [] (by rw [List.append_nil]) hok
  have hcap := h.capacity_eq hp h'
  have hcontents := h'.shows.contents (hcap.symm ▸ ha.mono (Nat.le_of_add_right_le hb'))
  have hbooks := hp.sent
  have hquota := hbooks.quota
  have hacquires := hbooks.acquires_eq
  have hreleases := hbooks.releases_eq
  have hn := hbooks.sent_eq
  have hdone := hbooks.roundsDone_le (hrounds ▸ Nat.zero_le _)
  rw [hsent, Nat.zero_add] at hn
  rw [hrounds, ← hn, Nat.zero_mul] at hquota
  rw [hpolls] at hacquires hreleases
  refine ⟨_, _, rfl, ?_, hp.asked, hn, hn ▸ hbooks.packets_eq, hacquires, hreleases, hquota,
    fun hle => ?_, fun flags hfit' => ?_⟩
  · rw [hcontents, h.shows.contents (ha.mono (Nat.le_of_add_right_le (Nat.le_refl _)))]
    exact hp.queue_eq
  · rw [← hbooks.rounds_eq, ← hbooks.batchSize_eq] at hle
    exact report_of_quota (hbooks.batchSize_eq.symm ▸ hquota) (hbooks.rounds_eq.symm ▸ hdone) hle
  · obtain ⟨hlen, harea, hrefused⟩ := h.next_poll flags
      (PacketRing.addresses_of_dvd_or_le hfit') (Nat.le_refl _) hok rfl
    refine ⟨hlen, harea, fun p hm e he => ?_⟩
    obtain ⟨w'', r'', hpoll, hsame, hres, hready, hbooks', hmore⟩ := hrefused p hm e he
    have hacquires' := hbooks'.acquires_eq
    have hreleases' := hbooks'.releases_eq
    exact ⟨w'', r'', hpoll, hsame, hres, hready.window_eq, hbooks'.sent_eq, by omega, by omega,
      hbooks'.packets_eq, hbooks'.bytes_eq⟩

def failingWorker : TxWorker ScriptedSource where
  queue := { id := ⟨.tx, 0⟩, state := .started, channel := { id := ⟨.tx, 0⟩, started := true } }
  source := { cues := [.fill 3, .fill 4, .fill 1, .fail] }
  batchSize := 2
  rounds := 5

def failingRing : PacketRing where
  slots := Array.replicate 3 (Slot.blank 4 0)
  head := 0
  tail := 0
  cachedTail := 0
  cachedHead := 0
  reserved := 0
  exposed := 0
  slots_pos := Nat.zero_lt_succ 2

theorem steady_failingWorker :
    failingWorker.Steady failingRing ⟨0, 0, 0, 0⟩ ⟨3, 4, 0, [], [], 0⟩ := by
  obtain ⟨r, hr, -, hshow⟩ :=
    PacketRing.shows_create (show 0 < 3 by decide) (by decide) 4 0
  have hring : r = failingRing := by
    cases hr
    rfl
  exact ⟨⟨rfl, rfl, rfl⟩, rfl, hring ▸ hshow, rfl⟩

theorem failingWorker_transmits :
    ∃ v s u t, stream [.poll [], .pop] failingWorker failingRing = (v, s) ∧
      taken [.poll [], .pop] failingWorker failingRing = [⟨[1, 1, 1], [], 0⟩] ∧
      s.contents = [⟨[2, 2, 2, 2], [], 0⟩] ∧
      v.poll [] s = (.error (.refused (.source ⟨.tx, 0⟩ (.other "source failed"))), u, t) ∧
      t.contents = s.contents ∧ u.sent = 2 := by
  have hok : ∀ answer ∈ answers [.poll [], .pop] failingWorker failingRing,
      ∃ p, answer = .ok p := by
    rw [show answers [.poll [], .pop] failingWorker failingRing = [.ok (.progress 2)] from rfl]
    simp
  obtain ⟨-, htransmits⟩ := transmits_pulled steady_failingWorker rfl rfl rfl [.poll [], .pop]
    (.inr (by decide +kernel))
  obtain ⟨v, s, hstream, hpackets, -, hsent, -, -, -, -, -, hnext⟩ := htransmits hok
  obtain ⟨-, -, hrefused⟩ := hnext [] (.inr (by decide +kernel))
  refine ⟨v, s, ?_⟩
  obtain ⟨rfl, rfl⟩ := Prod.ext_iff.mp hstream
  have hlast : (pollPulls [] (stream [.poll [], .pop] failingWorker failingRing).1
      (stream [.poll [], .pop] failingWorker failingRing).2).getLast? =
        some ⟨.error (.refused (.other "source failed")), [1, 1, 1, 0]⟩ := rfl
  obtain ⟨u, t, hpoll, hsame, -, -, hunsent, -⟩ :=
    hrefused _ (List.mem_of_getLast? hlast) _ rfl
  have htaken : taken [.poll [], .pop] failingWorker failingRing = [⟨[1, 1, 1], [], 0⟩] := rfl
  have hpulled : (pulled [.poll [], .pop] failingWorker failingRing).filterMap Pull.packet? =
      [⟨[1, 1, 1], [], 0⟩, ⟨[2, 2, 2, 2], [], 0⟩] := rfl
  rw [htaken, hpulled] at hpackets
  rw [hpulled] at hsent
  exact ⟨u, t, rfl, htaken, (List.cons_inj_right _).mp hpackets, hpoll, hsame,
    hunsent.trans hsent⟩

end TxWorker

/-- A source that has these packets, cut to what the slot holds. -/
structure PileSource where
  packets : List Bytes

namespace PileSource

def next (area : Bytes) : PileSource → Option Nat × Bytes × PileSource
  | ⟨[]⟩ => (none, area, ⟨[]⟩)
  | ⟨p :: ps⟩ => (some (min p.length area.length), Bytes.overlay p area, ⟨ps⟩)

end PileSource

instance : PacketSource PileSource where
  next area s := let (len, area, s) := s.next area; (.ok len, area, s)

theorem PileSource.reliable (s : PileSource) : Reliable s := by
  intro areas
  induction areas generalizing s with
  | nil => simp [askEach]
  | cons area areas ih =>
    intro p hp
    obtain rfl | hp := List.mem_cons.mp hp
    · obtain ⟨_ | ⟨q, ps⟩⟩ := s
      · exact ⟨none, rfl, by simp⟩
      · refine ⟨some (min q.length area.length), rfl, ?_⟩
        rintro _ ⟨⟩
        rw [length_area]
        exact Nat.min_le_right _ _
    · exact ih _ p hp

namespace TxWorker

def crossingWorker : TxWorker PileSource where
  queue := failingWorker.queue
  source := ⟨[[1], [2, 2]]⟩
  batchSize := 2
  rounds := 1

/-- The two slots of the burst have the indices `2 ^ 64 - 1` and `2 ^ 64`, which wraps. They lie at
one place, where the second packet covers the first. -/
theorem crossingWorker_resends : ∃ r₀ r w' r', PacketRing.create 3 4 0 = .ok r₀ ∧
    (PacketRing.runAll (PacketRing.turns 3 (2 ^ 64 - 1)) r₀).2 = r ∧ r.contents = [] ∧
    crossingWorker.queue.Ready ∧ Reliable crossingWorker.source ∧
    stream [.poll []] crossingWorker r = (w', r') ∧
    (pulled [.poll []] crossingWorker r).filterMap Pull.packet? =
      [⟨[1], [], 0⟩, ⟨[2, 2], [], 0⟩] ∧
    taken [.poll []] crossingWorker r = [] ∧
    r'.contents = [⟨[2, 2], [], 0⟩, ⟨[2, 2], [], 0⟩] := by
  obtain ⟨hring, -⟩ := PacketRing.runAll_turns_new 2 4 (2 ^ 64 - 2)
  rw [show 2 ^ 64 - 2 + 1 = 2 ^ 64 - 1 from rfl] at hring
  exact ⟨_, _, _, _, PacketRing.create_eq_level 2 4, hring, rfl, ⟨rfl, rfl, rfl⟩,
    PileSource.reliable _, rfl, rfl, rfl, rfl⟩

end TxWorker

end DmaBurst
