import DmaBurst.Proofs.Ring.Idle
import DmaBurst.Proofs.Worker.StaticReceive

namespace DmaBurst

namespace Pull

theorem refusal?_of_packet? {p : Pull} (h : p.packet?.isSome) (queue : QueueId) :
    p.refusal? queue = none := by
  cases hr : p.refusal? queue with
  | none => rfl
  | some e =>
    rw [packet?_of_refusal? hr] at h
    cases h

theorem length_filterMap_packet? {ps : List Pull} (h : ∀ p ∈ ps, p.packet?.isSome) :
    (ps.filterMap packet?).length = ps.length := by
  rw [List.length_filterMap_eq_countP, List.countP_eq_length]
  exact h

theorem packet?_of_dry {p : Pull} (h : p.answer = .ok none) : p.packet? = none := by
  rw [packet?, length?, h]
  rfl

theorem not_dry_of_packets {ps : List Pull} (h : ∀ p ∈ ps, p.packet?.isSome) : ¬ Dry ps := by
  rintro ⟨p, hp, hdry⟩
  have hsome := h p hp
  rw [packet?_of_dry hdry] at hsome
  cases hsome

end Pull

namespace PacketSource

variable {σ : Type} [PacketSource σ] {s : σ} {size : Nat} {supply : ℕ∞}

/-- A source that, asked about slots of this size, has so many packets that fit them, and is dry
after the last one. -/
def Supplies (size : Nat) (supply : ℕ∞) (s : σ) : Prop :=
  ∀ areas : List Bytes, (∀ area ∈ areas, area.length = size) →
    ∀ (k : ℕ) (p : Pull), (askEach areas s).1[k]? = some p →
      ((k : ℕ∞) < supply → p.packet?.isSome) ∧ ((k : ℕ∞) = supply → p.answer = .ok none)

theorem map_area_askEach (areas : List Bytes) (s : σ) :
    (askEach areas s).1.map (fun p => p.area.length) = areas.map List.length := by
  induction areas generalizing s with
  | nil => rfl
  | cons area areas ih =>
    rw [askEach, List.map_cons, List.map_cons, ih, length_area]

theorem Supplies.answer_of_asked (h : Supplies size supply s) {areas : List Bytes} {ps : List Pull}
    {s' : σ} (ha : askEach areas s = (ps, s')) (hsize : ∀ p ∈ ps, p.area.length = size) {k : Nat}
    {p : Pull} (hp : ps[k]? = some p) :
    ((k : ℕ∞) < supply → p.packet?.isSome) ∧ ((k : ℕ∞) = supply → p.answer = .ok none) := by
  have hmap := map_area_askEach areas s
  rw [ha] at hmap
  refine h areas (fun area hm => ?_) k p (by rw [ha]; exact hp)
  have hlen : area.length ∈ ps.map fun p => p.area.length := hmap ▸ List.mem_map_of_mem hm
  obtain ⟨p', hp', hlen'⟩ := List.mem_map.mp hlen
  exact hlen'.symm.trans (hsize p' hp')

theorem Supplies.length_le (h : Supplies size supply s) {areas : List Bytes} {ps row : List Pull}
    {s' : σ} (ha : askEach areas s = (row, s')) (hsize : ∀ p ∈ row, p.area.length = size)
    (hpre : ps <+: row) (hall : ∀ p ∈ ps, p.packet?.isSome) : (ps.length : ℕ∞) ≤ supply := by
  obtain ⟨more, rfl⟩ := hpre
  by_contra hn
  obtain ⟨d, rfl⟩ := ENat.ne_top_iff_exists.mp (ne_top_of_lt (not_le.mp hn))
  have hd : d < ps.length := by simpa using hn
  have hp : (ps ++ more)[d]? = some ps[d] := by
    rw [List.getElem?_append_left hd, List.getElem?_eq_getElem hd]
  have hnone := Pull.packet?_of_dry ((h.answer_of_asked ha hsize hp).2 rfl)
  have hsome := hall _ (List.getElem_mem hd)
  rw [hnone] at hsome
  cases hsome

end PacketSource

namespace PatternSource

open PacketSource

theorem packet?_ask {s : PatternSource} (h : s.remaining ≠ some 0) (area : Bytes) :
    (ask area s).1.packet?.isSome ∧
      (ask area s).2 = { s with remaining := s.remaining.map (· - 1) } := by
  have hnext : PacketSource.next area s = (.ok (some (min s.packetLen area.length)),
      Bytes.overlay (payload (min s.packetLen area.length)) area,
      { s with remaining := s.remaining.map (· - 1) }) := by
    simp [PacketSource.next, next, h]
  have hlen : min s.packetLen area.length ≤ (ask area s).1.area.length :=
    (Nat.min_le_right _ _).trans_eq (length_area area s).symm
  rw [ask, hnext] at hlen ⊢
  exact ⟨by simp [Pull.packet?, Pull.length?, hlen], rfl⟩

theorem supplies (len size : Nat) (remaining : Option Nat) :
    Supplies size (remaining.elim ⊤ (↑)) (PatternSource.mk len remaining) := by
  intro areas _ k p hp
  clear * - hp
  induction areas generalizing remaining k with
  | nil => simp [askEach] at hp
  | cons area areas ih =>
    rw [askEach] at hp
    rcases remaining with _ | _ | n
    · obtain ⟨hsome, hrest⟩ := packet?_ask (s := ⟨len, none⟩) (by simp) area
      refine ⟨fun _ => ?_, fun hn => by simp at hn⟩
      cases k with
      | zero =>
        cases hp
        exact hsome
      | succ k =>
        rw [hrest] at hp
        exact (ih none k hp).1 (by simp)
    · refine ⟨fun hn => by simp at hn, fun hz => ?_⟩
      have hk : k = 0 := by simpa using hz
      subst hk
      cases hp
      rfl
    · obtain ⟨hsome, hrest⟩ := packet?_ask (s := ⟨len, some (n + 1)⟩) (by simp) area
      cases k with
      | zero =>
        cases hp
        refine ⟨fun _ => hsome, fun hn => ?_⟩
        have hzero : 0 = n + 1 := Nat.cast_inj.mp hn
        cases hzero
      | succ k =>
        rw [hrest] at hp
        simpa using ih (some n) k hp

end PatternSource

namespace PileSource

open PacketSource

theorem packet?_ask (q : Bytes) (packets : List Bytes) (area : Bytes) :
    (ask area (PileSource.mk (q :: packets))).1.packet?.isSome := by
  have hlen : min q.length area.length ≤ (ask area (PileSource.mk (q :: packets))).1.area.length :=
    (Nat.min_le_right _ _).trans_eq (length_area area _).symm
  rw [Pull.packet?, Pull.length?]
  change (Option.map _ (if min q.length area.length ≤ _ then _ else none)).isSome
  rw [if_pos hlen]
  rfl

theorem supplies (size : Nat) (packets : List Bytes) :
    Supplies size packets.length (PileSource.mk packets) := by
  intro areas _ k p hp
  clear * - hp
  induction areas generalizing packets k with
  | nil => simp [askEach] at hp
  | cons area areas ih =>
    cases packets with
    | nil =>
      refine ⟨fun hn => by simp at hn, fun hz => ?_⟩
      obtain rfl : k = 0 := by simpa using hz
      cases hp
      rfl
    | cons q packets =>
      cases k with
      | zero =>
        cases hp
        refine ⟨fun _ => packet?_ask q packets area, fun hn => ?_⟩
        have hzero : 0 = packets.length + 1 := Nat.cast_inj.mp hn
        cases hzero
      | succ k => simpa using ih packets k hp

end PileSource

namespace TxWorker

open PacketSource Pull

variable {σ : Type} [PacketSource σ] {q : Queue} {r r' : PacketRing} {w w' : TxWorker σ}

theorem pulls_shape (len : Nat) (q : Queue) (count offset : Nat) (r : PacketRing) (s : σ) :
    ∃ init : List Pull, (∀ p ∈ init, p.packet?.isSome) ∧
      ((pulls len q count offset r s = init ∧
        ∀ result, (fillBurst len q count offset r s).1 = .ok result → init.length = count) ∨
      (init.length < count ∧
        ∃ p, p.packet? = none ∧ pulls len q count offset r s = init ++ [p])) := by
  induction count generalizing offset r s with
  | zero => exact ⟨[], by simp, .inl ⟨rfl, fun _ _ => rfl⟩⟩
  | succ count ih =>
    cases hslot : q.slot len offset r with
    | error f =>
      refine ⟨[], by simp, .inl ⟨by rw [pulls, hslot], fun result h => ?_⟩⟩
      rw [fillBurst, fillSlot, hslot] at h
      cases h
    | ok slot =>
      obtain ⟨p, s', hask⟩ : ∃ p s', ask slot.data s = (p, s') := ⟨_, _, rfl⟩
      cases hp : p.packet? with
      | none =>
        refine ⟨[], by simp, .inr ⟨Nat.succ_pos count, p, hp, ?_⟩⟩
        cases hr : p.refusal? q.id with
        | some e => exact (fillBurst_of_refused count hslot hask hr).2
        | none => exact (fillBurst_of_dry count hslot hask hr hp).2
      | some packet =>
        have hsome : p.packet?.isSome := by rw [hp]; rfl
        obtain ⟨hburst, hpulls⟩ :=
          fillBurst_of_packet count hslot hask (refusal?_of_packet? hsome q.id) hp
        obtain ⟨init, hinit, hshape⟩ :=
          ih (offset + 1) (r.replaceReserved offset (p.fill slot)) s'
        refine ⟨p :: init, List.forall_mem_cons.mpr ⟨hsome, hinit⟩, ?_⟩
        rw [hburst, hpulls]
        rcases hshape with ⟨hall, hlen⟩ | ⟨hlen, last, hlast, hsome'⟩
        · refine .inl ⟨by rw [hall], fun result h => ?_⟩
          rw [List.length_cons, hlen result h]
        · refine .inr ⟨Nat.succ_lt_succ hlen, last, hlast, ?_⟩
          rw [hsome', List.cons_append]

open Worker

variable {c c' : PacketRing.Counts} {f f' : Fifo} {ps : List Pull} {n rounds : Nat}
  {flags : List Bool}

structure AfterBursts (w w' : TxWorker σ) (r' : PacketRing) (c c' : PacketRing.Counts) (f f' : Fifo)
    (ps : List Pull) (rounds n : Nat) : Prop where
  passed : w.Passed w' c c' f f' ps (ps.filterMap packet?) []
  area : ∀ p ∈ ps, p.area.length = f.dataSize
  steady : w'.Steady r' c' f'
  remembers : w.Remembers w' ps rounds
  atWork : AtWork w w' n

namespace AfterBursts

variable {supply : ℕ∞}

theorem start (h : w.Steady r c f) : w.AfterBursts w r c c f f [] 0 0 :=
  ⟨.refl w c f, by simp, h, .refl w, .refl w⟩

theorem granted (h : w.AfterBursts w' r' c c' f f' ps rounds n) :
    w'.grant r' =
      min (f.capacity - f.queue.length - (ps.filterMap packet?).length) w.batchSize := by
  have hq := h.passed.queue_eq
  rw [List.nil_append] at hq
  rw [grant, h.steady.shows.granted, h.passed.capacity_eq, hq, List.length_append,
    h.passed.sent.batchSize_eq, Nat.sub_sub]

theorem accounts (h : w.AfterBursts w' r' c c' f f' ps rounds n) (hnew : w.IsNew) :
    w'.polls = n ∧ w'.roundsDone = rounds ∧ w'.sent = (ps.filterMap packet?).length ∧
      w'.sent ≤ w'.roundsDone * w'.batchSize ∧ w'.roundsDone ≤ w'.rounds := by
  have hsent := h.passed.sent
  have hquota := hsent.quota
  have hpolls : w'.polls = w.polls + n := h.atWork.polls_eq
  have hpackets : w'.sent = (ps.filterMap packet?).length := by
    rw [hsent.sent_eq, hnew.sent_eq, Nat.zero_add]
  rw [hnew.roundsDone_eq, Nat.zero_mul, Nat.add_zero, ← hpackets] at hquota
  refine ⟨?_, ?_, hpackets, ?_, ?_⟩
  · rw [hpolls, hnew.polls_eq, Nat.zero_add]
  · rw [h.remembers.roundsDone_eq, hnew.roundsDone_eq, Nat.zero_add]
  · rwa [hsent.batchSize_eq]
  · rw [hsent.rounds_eq]
    exact hsent.roundsDone_le (by simp [hnew.roundsDone_eq])

theorem supplied (h : w.AfterBursts w' r' c c' f f' ps rounds n)
    (hs : Supplies f.dataSize supply w.source) (hall : ∀ p ∈ ps, p.packet?.isSome)
    {answer : Except (Halt WorkerError) (Nat × Fill)} {r'' : PacketRing} {s : σ}
    (ha : w'.Asked r' c' f' answer r'' s) :
    (∀ p ∈ w'.burstPulls r', p.refusal? w'.queue.id = none) ∧
      ((∀ p ∈ w'.burstPulls r', p.packet?.isSome) ∧ (w'.burstPulls r').length = w'.grant r' ∧
          ((ps.length + w'.grant r' : ℕ) : ℕ∞) ≤ supply ∨
        Dry (w'.burstPulls r') ∧ ((w'.burstPulls r').filterMap packet?).length < w'.grant r' ∧
          ((ps.length + ((w'.burstPulls r').filterMap packet?).length : ℕ) : ℕ∞) = supply) := by
  obtain ⟨areas, hasked⟩ := h.passed.asked
  obtain ⟨areas', hasked'⟩ := ha.asked
  have hrow : askEach (areas ++ areas') w.source = (ps ++ w'.burstPulls r', s) := by
    rw [askEach_append, hasked, hasked']
  have hsize : ∀ p ∈ ps ++ w'.burstPulls r', p.area.length = f.dataSize := by
    rw [List.forall_mem_append]
    exact ⟨h.area, h.passed.dataSize_eq ▸ ha.length_area⟩
  obtain ⟨init, hinit, hshape⟩ := pulls_shape (w'.grant r')
    (w'.queue.lent w'.batchSize (w'.grant r')) (w'.grant r') 0 (r'.reserve w'.batchSize).2 w'.source
  rw [← h.steady.burstPulls_eq] at hshape
  have hpackets : ∀ p ∈ ps ++ init, p.packet?.isSome :=
    List.forall_mem_append.mpr ⟨hall, hinit⟩
  rcases hshape with ⟨hpulls, hlen⟩ | ⟨hlt, last, hlast, hpulls⟩
  · rw [hpulls] at hrow hsize ⊢
    have hgood : ∀ p ∈ init, p.refusal? w'.queue.id = none :=
      fun p hp => refusal?_of_packet? (hinit p hp) _
    obtain ⟨fill, hanswer⟩ := ha.ok_eq (hpulls.symm ▸ hgood)
    have hfull : init.length = w'.grant r' :=
      hlen _ ((congrArg Prod.fst ha.fill_eq).trans hanswer)
    have hle := hs.length_le hrow hsize List.prefix_rfl hpackets
    rw [List.length_append, hfull] at hle
    exact ⟨hgood, .inl ⟨hinit, hfull, hle⟩⟩
  · rw [hpulls] at hrow hsize ⊢
    rw [← List.append_assoc] at hrow hsize
    have hle := hs.length_le hrow hsize (List.prefix_append _ _) hpackets
    have hat : (ps ++ init ++ [last])[(ps ++ init).length]? = some last := by
      rw [List.getElem?_append_right (Nat.le_refl _), Nat.sub_self]
      rfl
    obtain ⟨hmore, hdry⟩ := hs.answer_of_asked hrow hsize hat
    have heq : ((ps ++ init).length : ℕ∞) = supply := by
      refine hle.eq_of_not_lt fun hlt' => ?_
      rw [hlast] at hmore
      cases hmore hlt'
    have hlen : ((init ++ [last]).filterMap packet?).length = init.length := by
      rw [List.filterMap_append, List.length_append, length_filterMap_packet? hinit]
      simp [hlast]
    refine ⟨List.forall_mem_append.mpr ⟨fun p hp => refusal?_of_packet? (hinit p hp) _, ?_⟩,
      .inr ⟨⟨last, by simp, hdry heq⟩, hlen.symm ▸ hlt, ?_⟩⟩
    · intro p hp
      rw [List.mem_singleton.mp hp, refusal?, hdry heq]
    · rw [hlen, ← List.length_append]
      exact heq

theorem poll (h : w.AfterBursts w' r' c c' f f' ps rounds n)
    (hs : Supplies f.dataSize supply w.source) (hall : ∀ p ∈ ps, p.packet?.isSome)
    (ha : PacketRing.Addresses f.capacity (c.tail + f.capacity))
    (hc : c.head ≤ c.tail + f.queue.length) (hworks : w'.works flags = true) :
    ∃ p w'' r'' c'' f'' more, w'.poll flags r' = (.ok p, w'', r'') ∧ (∀ status, p ≠ .done status) ∧
      w.AfterBursts w'' r'' c c'' f f'' (ps ++ more)
        (rounds + if 0 < w'.grant r' then 1 else 0) (n + 1) ∧
      ((∀ p ∈ more, p.packet?.isSome) ∧ more.length = w'.grant r' ∧
          ((ps.length + w'.grant r' : ℕ) : ℕ∞) ≤ supply ∨
        Dry more ∧ (more.filterMap packet?).length < w'.grant r' ∧
          ((ps.length + (more.filterMap packet?).length : ℕ) : ℕ∞) = supply) := by
  obtain ⟨hf, hv⟩ := works_iff.mp hworks
  have hlt := (verdict_eq_none_iff.mp hv).2.1
  have hcap : r'.capacity = f.capacity :=
    h.steady.shows.capacity_eq.symm.trans h.passed.capacity_eq
  have hqueue := h.passed.queue_eq
  have hfull := h.steady.shows.length_le
  have hhead := h.passed.head_eq
  rw [List.nil_append] at hqueue
  rw [hqueue, List.length_append, h.passed.capacity_eq] at hfull
  have hgrant := h.granted
  have hb : c'.head + w'.grant r' ≤ c.tail + f.capacity := by omega
  obtain ⟨_, _, _, hasked⟩ := h.steady.asked (hcap.symm ▸ ha) hb
  obtain ⟨hgood, hsupplied⟩ := h.supplied hs hall hasked
  obtain ⟨packets, answer, w'', r'', hburst, hworked⟩ := h.steady.burst (hcap.symm ▸ ha) hb hlt
  obtain ⟨⟨p, rfl⟩, rfl⟩ := hworked.ok_eq hgood
  obtain ⟨c'', hc'', hsteady⟩ := hworked.steady
  have hpoll := (poll_eq_burst hf hv r').trans hburst
  have hremembers := remembers_poll hworks r'
  have hatWork : AtWork w' (w'.poll flags r').2.1 1 := atWork_poll hworks r'
  have hslots : w'.slotsGranted r' = w'.grant r' := by
    rw [slotsGranted, h.steady.acquire]
  rw [pollPulls, if_pos hworks, sends, hworks, hslots, hpoll] at hremembers
  rw [hpoll] at hatWork
  refine ⟨p, w'', r'', c'', _, w'.burstPulls r', hpoll, fun status hp => ?_, ⟨?_, ?_, hsteady, ?_,
    h.atWork.trans hatWork⟩, hsupplied⟩
  · have hdone := (burst_counts w' r').1
    rw [hburst, hp] at hdone
    cases hdone
  · rw [List.filterMap_append]
    exact h.passed.trans ⟨hworked.asked, hworked.sent, hc'', rfl, rfl, rfl⟩
  · rw [List.forall_mem_append]
    exact ⟨h.area, h.passed.dataSize_eq ▸ hworked.length_area⟩
  · have htrans := h.remembers.trans hremembers
    simpa [Except.isOk, Except.toBool] using htrans

end AfterBursts

/-- What a run comes to on a ring from which nothing is taken: `count` packets stand behind what the
ring held, the first ones of the source. -/
structure Receipt (w w' : TxWorker σ) (r r' : PacketRing) (rep : WorkerReport) (count : Nat) :
    Prop where
  queue_eq : rep.queue = w.queue.id
  initial_eq : rep.initial = w.rounds * w.batchSize
  remaining_eq : rep.remaining = w.rounds * w.batchSize - count
  packets_eq : rep.stats.packets = w.queue.stats.packets + count
  committed : ∃ areas ps, askEach areas w.source = (ps, w'.source) ∧
    (∀ p ∈ ps, ∀ slot ∈ r.slots, p.area.length = slot.data.length) ∧
    (ps.filterMap packet?).length = count ∧ r'.contents = r.contents ++ ps.filterMap packet?

theorem Receipt.length_contents {rep : WorkerReport} {count : Nat}
    (h : w.Receipt w' r r' rep count) : r'.contents.length = r.contents.length + count := by
  obtain ⟨areas, ps, -, -, hcount, hcontents⟩ := h.committed
  rw [hcontents, List.length_append, hcount]

def turns (w : TxWorker σ) : Nat :=
  w.maxPolls.elim w.rounds (min w.rounds)

/-- Packets that `n` bursts send as long as the source has enough of them. -/
def reach (w : TxWorker σ) (free n : Nat) : Nat :=
  min (n * w.batchSize) free

omit [PacketSource σ] in
theorem turns_le_rounds (w : TxWorker σ) : w.turns ≤ w.rounds := by
  rw [turns]
  cases w.maxPolls with
  | none => exact le_rfl
  | some m => exact Nat.min_le_left _ _

omit [PacketSource σ] in
theorem turns_le {m : Nat} (hm : w.maxPolls = some m) : w.turns ≤ m := by
  rw [turns, hm]
  exact Nat.min_le_right _ _

omit [PacketSource σ] in
theorem turns_eq (h : ∀ m, w.maxPolls = some m → w.rounds ≤ m) : w.turns = w.rounds := by
  rw [turns]
  cases hm : w.maxPolls with
  | none => rfl
  | some m => exact Nat.min_eq_left (h m hm)

omit [PacketSource σ] in
theorem reach_succ (w : TxWorker σ) (free n : Nat) :
    w.reach free (n + 1) = w.reach free n + min (free - w.reach free n) w.batchSize := by
  rw [reach, reach, Nat.succ_mul]
  omega

omit [PacketSource σ] in
theorem reach_mono {free k : Nat} (h : k ≤ n) : w.reach free k ≤ w.reach free n :=
  min_le_min_right _ (Nat.mul_le_mul_right _ h)

omit [PacketSource σ] in
theorem reach_of_full {free : Nat} (hbatch : 1 ≤ w.batchSize) (h : free ⌈/⌉ w.batchSize ≤ n) :
    w.reach free n = free :=
  Nat.min_eq_right (Nat.not_lt.mp (mt (lt_ceilDiv_iff hbatch).mpr (Nat.not_lt.mpr h)))

omit [PacketSource σ] in
/-- Where not every round can be made, polls beyond the rounds would add nothing. -/
theorem reach_turns_of_cap {free m : Nat} (hbatch : 1 ≤ w.batchSize) (hm : w.maxPolls = some m)
    (h : ¬ (w.rounds ≤ m ∧ w.rounds ≤ free ⌈/⌉ w.batchSize)) :
    w.reach free w.turns = w.reach free m := by
  by_cases hle : w.rounds ≤ m
  · have hfull : free ⌈/⌉ w.batchSize < w.rounds := Nat.not_le.mp fun hn => h ⟨hle, hn⟩
    have hturns : w.turns = w.rounds :=
      turns_eq fun m' hm' => hle.trans_eq (Option.some.inj (hm.symm.trans hm'))
    rw [hturns, reach_of_full hbatch hfull.le, reach_of_full hbatch (hfull.le.trans hle)]
  · rw [turns, hm, Option.elim_some, Nat.min_eq_right (Nat.le_of_not_le hle)]

omit [PacketSource σ] in
theorem rounds_succ {free : Nat} (hbatch : 1 ≤ w.batchSize) (n : Nat) :
    min (n + 1) (free ⌈/⌉ w.batchSize) = min n (free ⌈/⌉ w.batchSize) +
      if 0 < min (free - w.reach free n) w.batchSize then 1 else 0 := by
  have hlt : n < free ⌈/⌉ w.batchSize ↔ n * w.batchSize < free := lt_ceilDiv_iff hbatch
  rw [reach]
  by_cases h : n * w.batchSize < free
  · have := hlt.mpr h
    rw [if_pos (by omega)]
    omega
  · have := mt hlt.mp h
    rw [if_neg (by omega)]
    omega

theorem le_pollsLeft (hnew : w.IsNew) (hpolls : ∀ m, w.maxPolls = some m → n ≤ m)
    (hn : w.maxPolls = none → n ≤ w.rounds) : n ≤ pollsLeft w := by
  refine Nat.le_succ_of_le ?_
  change n ≤ w.maxPolls.elim (w.rounds - w.roundsDone + 1) (· - w.polls)
  rw [hnew.polls_eq, hnew.roundsDone_eq]
  cases hm : w.maxPolls with
  | none => exact Nat.le_succ_of_le (hn hm)
  | some m => exact hpolls m hm

/-- Where the worker stands after `n` bursts: on its way, with all that was reached sent, or with a
source that has run dry. -/
def Stands (supply : ℕ∞) (free : Nat) (c : PacketRing.Counts) (f : Fifo) (w : TxWorker σ) (n : Nat)
    (w' : TxWorker σ) (r' : PacketRing) : Prop :=
  ∃ c' f' ps rounds, w.AfterBursts w' r' c c' f f' ps rounds n ∧
    ((w.reach free n : ℕ∞) ≤ supply ∧ (∀ p ∈ ps, p.packet?.isSome) ∧
        ps.length = w.reach free n ∧ rounds = min n (free ⌈/⌉ w.batchSize) ∨
      supply < w.reach free n ∧ Dry ps ∧ ((ps.filterMap packet?).length : ℕ∞) = supply)

section Static

variable {status : WorkerStatus} {supply : ℕ∞} (hsteady : w.Steady r c f)
  (ha : PacketRing.Addresses f.capacity (c.tail + f.capacity)) (hnew : w.IsNew)
  (hbatch : 1 ≤ w.batchSize) (hflags : true ∉ flags) (hs : Supplies f.dataSize supply w.source)

include hsteady ha hnew hbatch hflags hs

theorem exists_stands {free : Nat} (hfree : free = f.capacity - f.queue.length)
    (hpolls : ∀ m, w.maxPolls = some m → n ≤ m)
    (hgoes : ∀ k < n, (w.reach free k : ℕ∞) ≤ supply ∧ min k (free ⌈/⌉ w.batchSize) < w.rounds) :
    ∃ w' r', Stands supply free c f w n w' r' ∧ ∀ fuel,
      pollUntilDone flags (n + fuel) w r = pollUntilDone flags fuel w' r' := by
  refine pollUntilDone_along (P := fun k w' r' => Stands supply free c f w k w' r')
    (fun k hk w' r' h => ?_) ⟨c, f, [], 0, .start hsteady, .inl ?_⟩
  · obtain ⟨hreach, hrounds⟩ := hgoes k hk
    obtain ⟨c', f', ps, rounds, h, ⟨-, hall, hlen, rfl⟩ | ⟨hdry, -⟩⟩ := h
    · have hc : c.head ≤ c.tail + f.queue.length := by
        rw [hsteady.shows.length_queue]
        omega
      have hcount : (ps.filterMap packet?).length = w.reach free k :=
        (length_filterMap_packet? hall).trans hlen
      obtain ⟨hpolled, hdone, -⟩ := h.accounts hnew
      have hworks : w'.works flags = true := by
        refine works_iff.mpr ⟨h.atWork.status?_eq hnew.finished_eq, ?_⟩
        refine verdict_eq_none_iff.mpr ⟨?_, ?_, by simpa using hflags, ?_⟩
        · rw [← Bool.not_eq_true, h.remembers.exhausted_iff, hnew.supplied]
          simpa using not_dry_of_packets hall
        · rwa [hdone, h.remembers.rounds_eq]
        · have hmax : w'.maxPolls = w.maxPolls := h.atWork.maxPolls_eq
          rw [hmax, hpolled]
          exact capReached_of_lt hpolls hk
      obtain ⟨p, w'', r'', c'', f'', more, hpoll, hp, h', hmore⟩ := h.poll hs hall ha hc hworks
      have hgrant := h.granted
      rw [hcount, ← hfree] at hgrant
      refine ⟨p, w'', r'', hpoll, hp, c'', f'', ps ++ more, _, h', ?_⟩
      rw [hlen] at hmore
      rw [hgrant] at hmore ⊢
      rw [← rounds_succ hbatch]
      obtain ⟨hall', hlen', hle⟩ | ⟨hdry, hlt, heq⟩ := hmore
      · refine .inl ⟨?_, List.forall_mem_append.mpr ⟨hall, hall'⟩, ?_, rfl⟩
        · rwa [reach_succ]
        · rw [List.length_append, hlen, hlen', reach_succ]
      · refine .inr ⟨?_, dry_append.mpr (.inr hdry), ?_⟩
        · rw [← heq, reach_succ]
          exact Nat.cast_lt.mpr (Nat.add_lt_add_left hlt _)
        · rw [List.filterMap_append, List.length_append, hcount]
          exact heq
    · exact absurd hreach (not_le.mpr hdry)
  · simp [reach]

omit hbatch hflags hs in
theorem run_ends (hfit : (w.rounds * w.batchSize : Int) ≤ budgetMax)
    (h : w.AfterBursts w' r' c c' f f' ps rounds n) (hn : n ≤ pollsLeft w)
    (hpolls : ∀ m, w.maxPolls = some m → n ≤ m)
    (hcourse : ∀ fuel, pollUntilDone flags (n + fuel) w r = pollUntilDone flags fuel w' r')
    (hearned : w'.Earned flags ps rounds status) :
    ∃ rep w'' r'', run flags w r = (.ok rep, w'', r'') ∧ rep.status = status ∧ rep.polls = n ∧
      w.Receipt w'' r r'' rep (ps.filterMap packet?).length := by
  obtain ⟨hcount, hrounds, hpackets, hquota, hle⟩ := h.accounts hnew
  have hsent := h.passed.sent
  have hverdict : w'.verdict flags = some status := by
    refine (verdict_eq_some_iff (fun cap hcap => ?_) ?_ hrounds (hrounds ▸ hle)).mpr hearned
    · exact hcount ▸ hpolls cap (h.atWork.maxPolls_eq.symm.trans hcap)
    · rw [h.remembers.exhausted_iff, hnew.supplied]
      simp
  have hdone := poll_of_verdict (h.atWork.status?_eq hnew.finished_eq) hverdict r'
  have hreport := report_eq (w := { w' with finished := some status }) hquota hle (by
    rwa [hsent.rounds_eq, hsent.batchSize_eq])
  have hqueue := h.passed.queue_eq
  rw [List.nil_append] at hqueue
  have hcap := hsteady.shows.capacity_eq
  obtain ⟨hcontents, -⟩ := hsteady.shows.contents_append (hcap ▸ ha) h.steady.shows
    h.passed.capacity_eq hqueue h.passed.head_eq
  obtain ⟨areas, hasked⟩ := h.passed.asked
  refine ⟨_, _, _, run_of_course hn hcourse hdone hreport, rfl, hcount, hsent.id_eq, ?_, ?_,
    hsent.packets_eq, areas, ps, hasked, fun p hp slot hm => ?_, rfl, hcontents⟩
  · rw [← hsent.rounds_eq, ← hsent.batchSize_eq]
  · rw [← hsent.rounds_eq, ← hsent.batchSize_eq, ← hpackets]
  · rw [h.area p hp, (hsteady.shows.fits slot hm).data_length]

theorem run_dry {free s : Nat} (hfree : free = f.capacity - f.queue.length)
    (hfit : (w.rounds * w.batchSize : Int) ≤ budgetMax) (hsupply : supply = s)
    (hpolls : ∀ m, w.maxPolls = some m → n ≤ m) (hn : n ≤ w.rounds)
    (hgoes : ∀ k < n, w.reach free k ≤ s ∧ min k (free ⌈/⌉ w.batchSize) < w.rounds)
    (hlt : s < w.reach free n) :
    ∃ rep w' r', run flags w r = (.ok rep, w', r') ∧ rep.status = .sourceExhausted ∧
      rep.polls = n ∧ w.Receipt w' r r' rep s := by
  obtain ⟨w', r', ⟨c', f', ps, rounds, h, hcase⟩, hcourse⟩ :=
    exists_stands hsteady ha hnew hbatch hflags hs hfree hpolls fun k hk => by
      rw [hsupply, Nat.cast_le]
      exact hgoes k hk
  rw [hsupply, Nat.cast_le] at hcase
  obtain ⟨hle, -⟩ | ⟨-, hdry, hcount⟩ := hcase
  · exact absurd hle (Nat.not_le.mpr hlt)
  · have hends := run_ends hsteady ha hnew hfit h (le_pollsLeft hnew hpolls fun _ => hn) hpolls
      hcourse (show w'.Earned flags ps rounds .sourceExhausted from hdry)
    rwa [Nat.cast_inj.mp hcount] at hends

theorem run_supplied {free : Nat} (hfree : free = f.capacity - f.queue.length)
    (hfit : (w.rounds * w.batchSize : Int) ≤ budgetMax)
    (hpolls : ∀ m, w.maxPolls = some m → n ≤ m) (hn : n ≤ pollsLeft w)
    (hgoes : ∀ k < n, min k (free ⌈/⌉ w.batchSize) < w.rounds)
    (hle : (w.reach free n : ℕ∞) ≤ supply)
    (hearned : ∀ (w' : TxWorker σ) ps, w'.rounds = w.rounds → w'.maxPolls = w.maxPolls →
      w'.polls = n → ¬ Dry ps → w'.Earned flags ps (min n (free ⌈/⌉ w.batchSize)) status) :
    ∃ rep w' r', run flags w r = (.ok rep, w', r') ∧ rep.status = status ∧ rep.polls = n ∧
      w.Receipt w' r r' rep (w.reach free n) := by
  obtain ⟨w', r', ⟨c', f', ps, rounds, h, hcase⟩, hcourse⟩ :=
    exists_stands hsteady ha hnew hbatch hflags hs hfree hpolls fun k hk =>
      ⟨(Nat.cast_le.mpr (reach_mono hk.le)).trans hle, hgoes k hk⟩
  obtain ⟨-, hall, hlen, rfl⟩ | ⟨hlt, -⟩ := hcase
  · obtain ⟨hcount, -⟩ := h.accounts hnew
    have hends := run_ends hsteady ha hnew hfit h hn hpolls hcourse
      (hearned w' ps h.remembers.rounds_eq h.atWork.maxPolls_eq hcount
        (not_dry_of_packets hall))
    rwa [length_filterMap_packet? hall, hlen] at hends
  · exact absurd hle (not_le.mpr hlt)

end Static

/-- A new worker on a ring from which nothing is taken is done after its rounds or when its source
is dry, or goes on to its last poll, or for ever without a cap. -/
theorem static_transmit_closed (hq : w.queue.Ready) (hd : w.queue.channel.id.direction = .tx)
    (hr : r.Idle) (hstraight : r.Straight) (hnew : w.IsNew) (hbatch : 1 ≤ w.batchSize)
    (hfit : (w.rounds * w.batchSize : Int) ≤ budgetMax) (hflags : true ∉ flags) {size : Nat}
    (hsize : ∀ slot ∈ r.slots, slot.data.length = size) {supply : ℕ∞}
    (hs : Supplies size supply w.source) {free most : Nat}
    (hfree : free = r.capacity - r.contents.length)
    (hmost : most = min free (w.turns * w.batchSize)) :
    (∀ s : ℕ, supply = s → s < most → ∃ rep w' r', run flags w r = (.ok rep, w', r') ∧
      rep.status = .sourceExhausted ∧ rep.polls = s / w.batchSize + 1 ∧
        w.Receipt w' r r' rep s) ∧
    (most ≤ supply → (∀ m, w.maxPolls = some m → w.rounds ≤ m) →
      w.rounds ≤ free ⌈/⌉ w.batchSize → ∃ rep w' r', run flags w r = (.ok rep, w', r') ∧
        rep.status = .complete ∧ rep.polls = w.rounds ∧
          w.Receipt w' r r' rep (min free (w.rounds * w.batchSize))) ∧
    (most ≤ supply → ∀ m, w.maxPolls = some m →
      ¬ (w.rounds ≤ m ∧ w.rounds ≤ free ⌈/⌉ w.batchSize) →
        ∃ rep w' r', run flags w r = (.ok rep, w', r') ∧ rep.status = .underDelivery ∧
          rep.polls = m ∧ w.Receipt w' r r' rep most) ∧
    (most ≤ supply → w.maxPolls = none → free ⌈/⌉ w.batchSize < w.rounds →
      ∀ fuel, (pollUntilDone flags fuel w r).1 = .error .stuck) := by
  obtain ⟨c, f, hshow, hres, ha⟩ := hr.shows hstraight
  have hsteady : w.Steady r c f := ⟨hq, hd, hshow, hres⟩
  rw [← hshow.capacity_eq] at ha
  have hdata : f.dataSize = size := by
    have hpos := r.slots_pos
    have hmem : r.slots[0] ∈ r.slots := Array.getElem_mem _
    rw [← hsize _ hmem, (hshow.fits _ hmem).data_length]
  subst hdata
  have hfree' : free = f.capacity - f.queue.length := by
    rw [hfree, PacketRing.length_contents, hshow.occupied, hshow.capacity_eq]
  have hreach : w.reach free w.turns = most := by
    rw [hmost, reach, Nat.min_comm]
  refine ⟨fun s hsupply hlt => ?_, fun hle hpolls hrounds => ?_, fun hle m hm hshort => ?_,
    fun hle hm hlt fuel => ?_⟩
  · have hquot : s / w.batchSize < w.turns := by
      rw [Nat.div_lt_iff_lt_mul hbatch]
      exact hlt.trans_le (hmost.trans_le (Nat.min_le_right _ _))
    refine run_dry hsteady ha hnew hbatch hflags hs hfree' hfit hsupply
      (fun m hm => hquot.trans_le (turns_le hm)) (hquot.trans_le (turns_le_rounds w))
      (fun k hk => ⟨?_, ?_⟩) ?_
    · have hk' := (Nat.le_div_iff_mul_le hbatch).mp (Nat.le_of_lt_succ hk)
      exact (Nat.min_le_left _ _).trans hk'
    · have := turns_le_rounds w
      omega
    · refine Nat.lt_min.mpr ⟨Nat.lt_mul_of_div_lt (Nat.lt_succ_self _) hbatch, ?_⟩
      exact hlt.trans_le (hmost.trans_le (Nat.min_le_left _ _))
  · rw [turns_eq hpolls] at hreach
    rw [Nat.min_comm]
    refine run_supplied hsteady ha hnew hbatch hflags hs hfree' hfit hpolls
      (le_pollsLeft hnew hpolls fun _ => le_rfl) (fun k hk => by omega) (hreach.symm ▸ hle)
      fun w' ps hr' _ _ hdry => ⟨hdry, ?_⟩
    rw [hr', Nat.min_eq_left hrounds]
  · have hpolls : ∀ m', w.maxPolls = some m' → m ≤ m' :=
      fun m' hm' => (Option.some.inj (hm.symm.trans hm')).le
    have hlast : min m (free ⌈/⌉ w.batchSize) < w.rounds := by omega
    rw [← hreach, reach_turns_of_cap hbatch hm hshort] at hle ⊢
    refine run_supplied hsteady ha hnew hbatch hflags hs hfree' hfit hpolls
      (le_pollsLeft hnew hpolls (by simp [hm])) (fun k hk => by omega) hle
      fun w' ps hr' hm' hcount hdry => ⟨hdry, ?_, hflags, ?_⟩
    · rwa [hr']
    · rw [hm', hcount, hm]
  · have hfull : most = free := by
      rw [← hreach, turns_eq (by simp [hm]), reach_of_full hbatch hlt.le]
    have hgoes : ∀ k < fuel,
        (w.reach free k : ℕ∞) ≤ supply ∧ min k (free ⌈/⌉ w.batchSize) < w.rounds := by
      refine fun k _ => ⟨le_trans ?_ hle, by omega⟩
      rw [hfull, Nat.cast_le]
      exact Nat.min_le_right _ _
    obtain ⟨w', r', -, hcourse⟩ := exists_stands hsteady ha hnew hbatch hflags hs hfree'
      (by simp [hm]) hgoes
    rw [← Nat.add_zero fuel, hcourse 0]
    rfl

def patternWorker (packets : Option Nat) (rounds : Nat) (maxPolls : Option Nat) :
    TxWorker PatternSource where
  queue := failingWorker.queue
  source := ⟨4, packets⟩
  batchSize := 2
  rounds
  maxPolls

theorem idle_failingRing : failingRing.Idle :=
  ⟨⟨_, steady_failingWorker.shows.stands⟩, ⟨4, 0, steady_failingWorker.shows.fits⟩, rfl, rfl⟩

/-- Three free slots: a source of two packets runs dry, two rounds can be sent, and five cannot. -/
theorem threeSlots_sent :
    (∃ rep w' r', run [false] (patternWorker (some 2) 5 none) failingRing = (.ok rep, w', r') ∧
      rep.status = .sourceExhausted ∧ rep.polls = 2 ∧ rep.remaining = 8 ∧
        r'.contents.length = 2) ∧
    (∃ rep w' r', run [false] (patternWorker none 2 none) failingRing = (.ok rep, w', r') ∧
      rep.status = .complete ∧ rep.polls = 2 ∧ rep.remaining = 1 ∧ r'.contents.length = 3) ∧
    (∃ rep w' r', run [false] (patternWorker none 5 (some 4)) failingRing = (.ok rep, w', r') ∧
      rep.status = .underDelivery ∧ rep.polls = 4 ∧ rep.remaining = 7 ∧
        r'.contents.length = 3) ∧
    ∀ fuel, (pollUntilDone [false] fuel (patternWorker none 5 none) failingRing).1 =
      .error .stuck := by
  have hready : failingWorker.queue.Ready := steady_failingWorker.ready
  have hsize : ∀ slot ∈ failingRing.slots, slot.data.length = 4 :=
    fun slot hm => (steady_failingWorker.shows.fits slot hm).data_length
  have hclosed := fun packets rounds maxPolls hfit =>
    static_transmit_closed (w := patternWorker packets rounds maxPolls) hready rfl idle_failingRing
      (by decide +kernel) ⟨rfl, rfl, rfl, rfl, rfl⟩ (Nat.le_succ 1) hfit
      (show true ∉ [false] by decide) hsize (PatternSource.supplies 4 4 packets) rfl rfl
  obtain ⟨hdry, -⟩ := hclosed (some 2) 5 none (by decide)
  obtain ⟨-, hcomplete, -⟩ := hclosed none 2 none (by decide)
  obtain ⟨-, -, hcapped, -⟩ := hclosed none 5 (some 4) (by decide)
  obtain ⟨-, -, -, hendless⟩ := hclosed none 5 none (by decide)
  refine ⟨?_, ?_, ?_, hendless le_top rfl (by decide +kernel)⟩
  · obtain ⟨rep, w', r', hrun, hstatus, hpolls, hreceipt⟩ := hdry 2 rfl (by decide +kernel)
    exact ⟨rep, w', r', hrun, hstatus, hpolls, hreceipt.remaining_eq, hreceipt.length_contents⟩
  · obtain ⟨rep, w', r', hrun, hstatus, hpolls, hreceipt⟩ :=
      hcomplete le_top (fun m hm => by cases hm) (by decide +kernel)
    exact ⟨rep, w', r', hrun, hstatus, hpolls, hreceipt.remaining_eq, hreceipt.length_contents⟩
  · obtain ⟨rep, w', r', hrun, hstatus, hpolls, hreceipt⟩ :=
      hcapped le_top 4 rfl (by decide +kernel)
    exact ⟨rep, w', r', hrun, hstatus, hpolls, hreceipt.remaining_eq, hreceipt.length_contents⟩

/-- Before index `2 ^ 64` the room of the ring matters: two packets, one round of two slots, and the
first packet is not among the two that are sent. -/
theorem crossingWorker_sends_twice : ∃ r₀ r rep w' r', PacketRing.create 3 4 0 = .ok r₀ ∧
    (PacketRing.runAll (PacketRing.turns 3 (2 ^ 64 - 1)) r₀).2 = r ∧ r.contents = [] ∧
    crossingWorker.queue.Ready ∧ crossingWorker.IsNew ∧ Supplies 4 2 crossingWorker.source ∧
    run [] crossingWorker r = (.ok rep, w', r') ∧ rep.status = .complete ∧ rep.remaining = 0 ∧
    (askEach (List.replicate 2 (List.replicate 4 0)) crossingWorker.source).1.filterMap packet? =
      [⟨[1], [], 0⟩, ⟨[2, 2], [], 0⟩] ∧
    r'.contents = [⟨[2, 2], [], 0⟩, ⟨[2, 2], [], 0⟩] := by
  obtain ⟨hring, -⟩ := PacketRing.runAll_turns_new 2 4 (2 ^ 64 - 2)
  rw [show 2 ^ 64 - 2 + 1 = 2 ^ 64 - 1 from rfl] at hring
  exact ⟨_, _, _, _, _, PacketRing.create_eq_level 2 4, hring, rfl, ⟨rfl, rfl, rfl⟩,
    ⟨rfl, rfl, rfl, rfl, rfl⟩, PileSource.supplies 4 _, rfl, rfl, rfl, rfl, rfl⟩

end TxWorker

end DmaBurst
