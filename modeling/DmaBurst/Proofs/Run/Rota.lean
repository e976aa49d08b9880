import DmaBurst.Proofs.Run.Drive
import DmaBurst.Proofs.Worker.Meter
import Mathlib.Algebra.BigOperators.Fin
import Mathlib.Algebra.Order.BigOperators.Group.Finset

namespace DmaBurst

open MeteredWorker Worker

/-- What surrounds a turn: what the hardware makes of the card before it, and the shutdown flags as
they are at the time. -/
structure Moment where
  flags : List Bool := []
  act : Card → Card := id

structure Visit (ω : Type) where
  place : Nat
  flags : List Bool
  worker : ω
  answer : Except (Halt WorkerError) Poll

/-- Workers that take turns: which of them are done, how many are pending, the first failure, and
the polls so far. The counter is one that could fall below zero. -/
structure Rota (ω : Type) where
  workers : List ω
  done : List Bool
  pending : Int
  card : Card
  failure : Option (Halt WorkerError) := none
  visits : List (Visit ω) := []

namespace Rota

section Turns

variable {ω : Type}

def start (ws : List ω) (card : Card) : Rota ω where
  workers := ws
  done := List.replicate ws.length false
  pending := ws.length
  card

def settle (i : Nat) (f : Rota ω) : Except (Halt WorkerError) Poll → Rota ω
  | .ok (.done _) => { f with done := f.done.set i true, pending := f.pending - 1 }
  | .ok _ => f
  | .error e => { f with failure := some e }

@[simp]
theorem settle_workers (i : Nat) (f : Rota ω) (answer : Except (Halt WorkerError) Poll) :
    (settle i f answer).workers = f.workers := by
  rcases answer with _ | _ | _ | _ <;> rfl

@[simp]
theorem settle_visits (i : Nat) (f : Rota ω) (answer : Except (Halt WorkerError) Poll) :
    (settle i f answer).visits = f.visits := by
  rcases answer with _ | _ | _ | _ <;> rfl

@[simp]
theorem settle_pending (i : Nat) (f : Rota ω) (answer : Except (Halt WorkerError) Poll) :
    (settle i f answer).pending = f.pending - (Poll.isDone answer).toNat := by
  rcases answer with _ | _ | _ | _ <;> simp [settle, Poll.isDone]

theorem settle_done {i : Nat} {f : Rota ω} (h : f.done[i]? = some false)
    (answer : Except (Halt WorkerError) Poll) :
    (settle i f answer).done = f.done.set i (Poll.isDone answer) := by
  have hsame : f.done.set i false = f.done := by
    obtain ⟨hi, hfalse⟩ := List.getElem?_eq_some_iff.mp h
    rw [← hfalse, List.set_getElem_self]
  rcases answer with _ | _ | _ | _
  · exact hsame.symm
  · exact hsame.symm
  · exact hsame.symm
  · rfl

variable [Worker ω]

/-- The turn of place `i`. Its worker is polled unless it is done; after a failure nothing is. -/
def visit (x : Moment) (i : Nat) (f : Rota ω) : Rota ω :=
  let card := x.act f.card
  match f.failure, f.workers[i]?, f.done[i]? with
  | none, some w, some false =>
    let (answer, w', card) := Drive.pollOn x.flags w card
    settle i
      { f with
        workers := f.workers.set i w'
        card
        visits := f.visits ++ [⟨i, x.flags, w, answer⟩] }
      answer
  | _, _, _ => { f with card }

def turns (row : List (Moment × Nat)) (f : Rota ω) : Rota ω :=
  row.foldl (fun f x => visit x.1 x.2 f) f

theorem turns_cons (x : Moment × Nat) (row : List (Moment × Nat)) (f : Rota ω) :
    turns (x :: row) f = turns row (visit x.1 x.2 f) :=
  rfl

theorem turns_append (row row' : List (Moment × Nat)) (f : Rota ω) :
    turns (row ++ row') f = turns row' (turns row f) :=
  List.foldl_append

def sweep (moments : Nat → Moment) (f : Rota ω) : Rota ω :=
  turns ((List.range f.workers.length).map fun i => (moments i, i)) f

def isOver (f : Rota ω) : Bool :=
  f.pending ≤ 0 || f.failure.isSome

/-- Sweeps, at most `fuel` of them, until no worker is pending or one has failed. `moments k i` is
around the turn of place `i` in sweep `k`. -/
def loop : Nat → (Nat → Nat → Moment) → Rota ω → Rota ω
  | 0, _, f => f
  | fuel + 1, moments, f =>
    if isOver f then f
    else loop fuel (fun k => moments (k + 1)) (sweep (moments 0) f)

def polledAt (i : Nat) (visits : List (Visit ω)) : Nat :=
  visits.countP (·.place = i)

def acquiresAt [MeteredWorker ω] (i : Nat) (visits : List (Visit ω)) : Nat :=
  visits.countP fun v => v.place = i && works v.flags v.worker

end Turns

section Invariant

variable {ω : Type} [Worker ω] [MeteredWorker ω] {ws : List ω} {f f' : Rota ω} {v : Visit ω}
  {w' : ω} {x : Moment} {i k : Nat}

structure Polled (v : Visit ω) (w' : ω) (f f' : Rota ω) : Prop where
  calm : f.failure = none
  worker : f.workers[v.place]? = some v.worker
  undone : f.done[v.place]? = some false
  workers_eq : f'.workers = f.workers.set v.place w'
  done_eq : f'.done = f.done.set v.place (Poll.isDone v.answer)
  pending_eq : f'.pending = f.pending - (Poll.isDone v.answer).toNat
  visits_eq : f'.visits = f.visits ++ [v]
  metered : Metered v.worker w' (works v.flags v.worker).toNat
  isDone_eq : Poll.isDone v.answer = !works v.flags v.worker

structure Open (i : Nat) (f : Rota ω) : Prop where
  calm : f.failure = none
  place_lt : i < f.workers.length
  undone : f.done[i]? = some false

theorem metered_pollOn (flags : List Bool) (w : ω) (card : Card) :
    Metered w (Drive.pollOn flags w card).2.1 (works flags w).toNat ∧
      Poll.isDone (Drive.pollOn flags w card).1 = !works flags w := by
  obtain ⟨r, hr⟩ := card.exists_withRing_fst (Worker.queue w).channel.id fun r =>
    (((poll flags w r).1, (poll flags w r).2.1), (poll flags w r).2.2)
  have hanswer : (Drive.pollOn flags w card).1 = (poll flags w r).1 := congrArg Prod.fst hr
  have hworker : (Drive.pollOn flags w card).2.1 = (poll flags w r).2.1 := congrArg Prod.snd hr
  rw [hanswer, hworker]
  exact ⟨metered_poll flags w r, isDone_poll flags w r⟩

theorem visit_cases (x : Moment) (i : Nat) (f : Rota ω) :
    (¬ Open i f ∧ visit x i f = { f with card := x.act f.card }) ∨
      ∃ v w', v.place = i ∧ Polled v w' f (visit x i f) := by
  rw [visit]
  dsimp only
  split
  · next w hcalm hw hundone =>
    right
    obtain ⟨hmetered, hdone⟩ := metered_pollOn x.flags w (x.act f.card)
    refine ⟨⟨i, x.flags, w, _⟩, _, rfl, hcalm, hw, hundone, settle_workers .., settle_done ?_ _,
      settle_pending .., settle_visits .., hmetered, hdone⟩
    exact hundone
  · next hnot =>
    refine .inl ⟨fun hopen => ?_, rfl⟩
    exact hnot _ hopen.calm (List.getElem?_eq_getElem hopen.place_lt) hopen.undone

theorem length_visit (x : Moment) (i : Nat) (f : Rota ω) :
    (visit x i f).workers.length = f.workers.length := by
  obtain ⟨-, heq⟩ | ⟨v, w', -, hpolled⟩ := visit_cases x i f
  · rw [heq]
  · rw [hpolled.workers_eq, List.length_set]

theorem length_turns (row : List (Moment × Nat)) (f : Rota ω) :
    (turns row f).workers.length = f.workers.length := by
  induction row generalizing f with
  | nil => rfl
  | cons x row ih => exact (ih (visit x.1 x.2 f)).trans (length_visit x.1 x.2 f)

theorem Open.of_visit (h : Open i (visit x k f)) : Open i f := by
  obtain ⟨-, heq⟩ | ⟨v, w', rfl, hpolled⟩ := visit_cases x k f
  · rw [heq] at h
    exact ⟨h.calm, h.place_lt, h.undone⟩
  · refine ⟨hpolled.calm, length_visit x v.place f ▸ h.place_lt, ?_⟩
    by_cases hi : v.place = i
    · exact hi ▸ hpolled.undone
    · have hundone := h.undone
      rwa [hpolled.done_eq, List.getElem?_set_ne hi] at hundone

theorem Open.of_turns {row : List (Moment × Nat)} (h : Open i (turns row f)) : Open i f := by
  induction row generalizing f with
  | nil => exact h
  | cons x row ih => exact (ih h).of_visit

omit [Worker ω] [MeteredWorker ω] in
theorem polledAt_concat (visits : List (Visit ω)) (v : Visit ω) :
    polledAt i (visits ++ [v]) = polledAt i visits + (decide (v.place = i)).toNat := by
  rw [polledAt, List.countP_append, List.countP_singleton, ← polledAt]
  cases decide (v.place = i) <;> rfl

theorem acquiresAt_concat (visits : List (Visit ω)) (v : Visit ω) :
    acquiresAt i (visits ++ [v]) =
      acquiresAt i visits + (decide (v.place = i) && works v.flags v.worker).toNat := by
  rw [acquiresAt, List.countP_append, List.countP_singleton, ← acquiresAt]
  cases decide (v.place = i) && works v.flags v.worker <;> rfl

theorem Open.polledAt_turns {row : List (Moment × Nat)} (h : Open i (turns row f)) :
    polledAt i (turns row f).visits = polledAt i f.visits + row.countP (·.2 = i) := by
  induction row generalizing f with
  | nil => rfl
  | cons x row ih =>
    have hlater : Open i (turns row (visit x.1 x.2 f)) := h
    have hopen : Open i (visit x.1 x.2 f) := hlater.of_turns
    have hfirst : polledAt i (visit x.1 x.2 f).visits =
        polledAt i f.visits + (decide (x.2 = i)).toNat := by
      obtain ⟨hclosed, heq⟩ | ⟨v, w', hv, hpolled⟩ := visit_cases x.1 x.2 f
      · have hne : x.2 ≠ i := fun hi => hclosed (hi ▸ hopen.of_visit)
        rw [heq, decide_eq_false hne]
        rfl
      · rw [hpolled.visits_eq, polledAt_concat, hv]
    refine (ih hlater).trans ?_
    rw [hfirst, List.countP_cons]
    rcases decide (x.2 = i) with _ | _
    · rfl
    · exact Nat.add_right_comm _ _ _

def Account (w₀ : ω) (i : Nat) (f : Rota ω) : Prop :=
  ∃ w done, f.workers[i]? = some w ∧ f.done[i]? = some done ∧
    Metered w₀ w (acquiresAt i f.visits) ∧
    polledAt i f.visits = acquiresAt i f.visits + done.toNat

/-- Workers are marked as done that a poll has found so, with no poll after it, and the counter
counts the others. -/
structure Marked (f : Rota ω) : Prop where
  done_iff : ∀ i, f.done[i]? = some true ↔
    ∃ v ∈ f.visits, v.place = i ∧ Poll.isDone v.answer = true
  pending_eq : f.pending = f.done.count false
  final : f.visits.Pairwise fun v v' => Poll.isDone v.answer = true → v'.place ≠ v.place

structure Kept (ws : List ω) (f : Rota ω) : Prop extends Marked f where
  workers_length : f.workers.length = ws.length
  done_length : f.done.length = ws.length
  place_lt : ∀ v ∈ f.visits, v.place < ws.length
  account : ∀ i w₀, ws[i]? = some w₀ → Account w₀ i f

theorem kept_start (ws : List ω) (card : Card) : Kept ws (start ws card) := by
  refine ⟨⟨fun i => ?_, ?_, .nil⟩, rfl, List.length_replicate,
    fun v hv => absurd hv List.not_mem_nil, fun i w₀ hw => ⟨w₀, false, hw, ?_, .refl w₀, rfl⟩⟩
  · simp [start, List.getElem?_replicate]
  · simp [start]
  · obtain ⟨hi, -⟩ := List.getElem?_eq_some_iff.mp hw
    simp [start, hi]

theorem count_set_undone {done : List Bool} (h : done[i]? = some false) (b : Bool) :
    ((done.set i b).count false : Int) = done.count false - b.toNat := by
  obtain ⟨hi, hfalse⟩ := List.getElem?_eq_some_iff.mp h
  have hpos : 0 < done.count false := List.count_pos_iff.mpr (List.mem_of_getElem? h)
  rw [List.count_set hi, hfalse]
  cases b
  · simp
    omega
  · simp
    omega

theorem Polled.account {w₀ : ω} (h : Polled v w' f f') (ha : Account w₀ i f) :
    Account w₀ i f' := by
  obtain ⟨w, done, hw, hdone, hmetered, hpolled⟩ := ha
  rw [Account, h.workers_eq, h.done_eq, h.visits_eq, polledAt_concat, acquiresAt_concat]
  by_cases hi : v.place = i
  · subst hi
    cases h.worker.symm.trans hw
    cases h.undone.symm.trans hdone
    refine ⟨w', Poll.isDone v.answer,
      List.getElem?_set_self (List.getElem?_eq_some_iff.mp hw).1,
      List.getElem?_set_self (List.getElem?_eq_some_iff.mp hdone).1, ?_, ?_⟩
    · rw [decide_eq_true rfl, Bool.true_and]
      exact hmetered.trans h.metered
    · rw [hpolled, h.isDone_eq, decide_eq_true rfl, Bool.true_and]
      cases works v.flags v.worker <;> rfl
  · rw [List.getElem?_set_ne hi, List.getElem?_set_ne hi, decide_eq_false hi]
    exact ⟨w, done, hw, hdone, hmetered, hpolled⟩

theorem Polled.marked (h : Polled v w' f f') (hf : Marked f) : Marked f' := by
  obtain ⟨hlt, -⟩ := List.getElem?_eq_some_iff.mp h.undone
  refine ⟨fun i => ?_, ?_, ?_⟩
  · rw [h.done_eq, h.visits_eq]
    simp only [List.mem_append, List.mem_singleton, or_and_right, exists_or, exists_eq_left,
      ← hf.done_iff]
    by_cases hi : v.place = i
    · rw [← hi, List.getElem?_set_self hlt, h.undone]
      simp
    · rw [List.getElem?_set_ne hi]
      simp [hi]
  · rw [h.pending_eq, hf.pending_eq, h.done_eq, count_set_undone h.undone]
  · rw [h.visits_eq, List.pairwise_append]
    refine ⟨hf.final, List.pairwise_singleton _ _, fun v₀ hv₀ v₁ hv₁ hdone hplace => ?_⟩
    cases List.mem_singleton.mp hv₁
    have htrue := (hf.done_iff v.place).mpr ⟨v₀, hv₀, hplace.symm, hdone⟩
    rw [h.undone] at htrue
    cases htrue

theorem Polled.kept (h : Polled v w' f f') (hf : Kept ws f) : Kept ws f' := by
  obtain ⟨hlt, -⟩ := List.getElem?_eq_some_iff.mp h.undone
  refine ⟨h.marked hf.toMarked, ?_, ?_, ?_, fun i w₀ hw => h.account (hf.account i w₀ hw)⟩
  · rw [h.workers_eq, List.length_set, hf.workers_length]
  · rw [h.done_eq, List.length_set, hf.done_length]
  · rw [h.visits_eq, List.forall_mem_append, List.forall_mem_singleton]
    exact ⟨hf.place_lt, hf.done_length ▸ hlt⟩

theorem Kept.visit (h : Kept ws f) (x : Moment) (i : Nat) : Kept ws (visit x i f) := by
  obtain ⟨-, heq⟩ | ⟨v, w', -, hpolled⟩ := visit_cases x i f
  · rw [heq]
    exact ⟨⟨h.done_iff, h.pending_eq, h.final⟩, h.workers_length, h.done_length, h.place_lt,
      h.account⟩
  · exact hpolled.kept h

theorem Kept.turns (h : Kept ws f) (row : List (Moment × Nat)) : Kept ws (turns row f) := by
  induction row generalizing f with
  | nil => exact h
  | cons x row ih => exact ih (h.visit x.1 x.2)

theorem Kept.exists_open (h : Kept ws f) (hover : isOver f = false) : ∃ i, Open i f := by
  rw [isOver, Bool.or_eq_false_iff, decide_eq_false_iff_not, Option.isSome_eq_false_iff,
    Option.isNone_iff_eq_none, h.pending_eq] at hover
  obtain ⟨hpending, hcalm⟩ := hover
  have hmem : false ∈ f.done := List.count_pos_iff.mp (by omega)
  obtain ⟨i, hi⟩ := List.mem_iff_getElem?.mp hmem
  refine ⟨i, hcalm, ?_, hi⟩
  rw [h.workers_length, ← h.done_length]
  exact (List.getElem?_eq_some_iff.mp hi).1

end Invariant

section Loop

variable {ω : Type} [Worker ω] [MeteredWorker ω] {f : Rota ω} {i : Nat}

theorem countP_sweep {n : Nat} (moments : Nat → Moment) (hi : i < n) :
    ((List.range n).map fun k => (moments k, k)).countP (·.2 = i) = 1 := by
  have hcount : (List.range n).count i = 1 := by
    rw [List.nodup_range.count, if_pos (List.mem_range.mpr hi)]
  rw [List.countP_map]
  exact hcount

theorem exists_turns_loop (fuel : Nat) (moments : Nat → Nat → Moment) (f : Rota ω) :
    ∃ row, loop fuel moments f = turns row f ∧
      (isOver (loop fuel moments f) = false →
        ∀ i < f.workers.length, row.countP (·.2 = i) = fuel) := by
  induction fuel generalizing moments f with
  | zero => exact ⟨[], rfl, fun _ _ _ => rfl⟩
  | succ fuel ih =>
    rw [loop]
    split
    · next hover => exact ⟨[], rfl, fun hn => by rw [hover] at hn; cases hn⟩
    · obtain ⟨row, hrow, hcount⟩ := ih (fun k => moments (k + 1)) (sweep (moments 0) f)
      refine ⟨((List.range f.workers.length).map fun i => (moments 0 i, i)) ++ row, ?_,
        fun hn i hi => ?_⟩
      · rw [hrow, turns_append]
        rfl
      · have hlength : (sweep (moments 0) f).workers.length = f.workers.length :=
          length_turns _ f
        rw [List.countP_append, countP_sweep _ hi, hcount hn i (hlength ▸ hi), Nat.add_comm]

end Loop

section Caps

variable {ω : Type} [Worker ω] [MeteredWorker ω] {ws : List ω} {caps : List Nat} {card : Card}
  {f : Rota ω} {i cap : Nat} {w : ω}

omit [Worker ω] [MeteredWorker ω] in
theorem length_eq_sum {n : Nat} (visits : List (Visit ω)) (h : ∀ v ∈ visits, v.place < n) :
    visits.length = ∑ i ∈ Finset.range n, polledAt i visits := by
  induction visits with
  | nil => simp [polledAt]
  | cons v visits ih =>
    obtain ⟨hv, hvisits⟩ := List.forall_mem_cons.mp h
    have hone : ∑ i ∈ Finset.range n, (if decide (v.place = i) = true then 1 else 0) = 1 := by
      simp [hv]
    simp only [polledAt, List.countP_cons, Finset.sum_add_distrib, hone, List.length_cons]
    rw [ih hvisits]
    rfl

theorem Open.turns_le {row : List (Moment × Nat)} (h : Open i (turns row (start ws card)))
    (hw : ws[i]? = some w) (hcap : maxPolls w = some cap) :
    row.countP (·.2 = i) ≤ cap - polls w := by
  have hpolled : polledAt i (turns row (start ws card)).visits = 0 + row.countP (·.2 = i) :=
    h.polledAt_turns
  obtain ⟨w', done, -, hdone, hmetered, haccount⟩ :=
    ((kept_start ws card).turns row).account i w hw
  cases h.undone.symm.trans hdone
  have hbursts := hmetered.bursts_le hcap
  rw [Bool.toNat_false] at haccount
  omega

theorem exists_worker_of_open {row : List (Moment × Nat)}
    (h : Open i (turns row (start ws card))) : ∃ w, ws[i]? = some w :=
  ⟨_, List.getElem?_eq_getElem (length_turns row (start ws card) ▸ h.place_lt)⟩

structure Within (caps : List Nat) (f : Rota ω) : Prop extends Marked f where
  place_le : ∀ i cap, caps[i]? = some cap →
    acquiresAt i f.visits ≤ cap ∧ polledAt i f.visits ≤ cap + 1
  visits_le : f.visits.length ≤ (caps.map (· + 1)).sum
  done_length : f.done.length = caps.length

variable (hcaps : ws.map maxPolls = caps.map some)

include hcaps

theorem exists_cap (hw : ws[i]? = some w) : ∃ cap, caps[i]? = some cap ∧ maxPolls w = some cap := by
  have hi := congrArg (·[i]?) hcaps
  simp only [List.getElem?_map, hw, Option.map_some] at hi
  obtain ⟨cap, hcap, he⟩ := Option.map_eq_some_iff.mp hi.symm
  exact ⟨cap, hcap, he.symm⟩

theorem exists_worker (hcap : caps[i]? = some cap) :
    ∃ w, ws[i]? = some w ∧ maxPolls w = some cap := by
  have hi := congrArg (·[i]?) hcaps
  simp only [List.getElem?_map, hcap, Option.map_some] at hi
  exact Option.map_eq_some_iff.mp hi

theorem Kept.within (h : Kept ws f) : Within caps f := by
  have hlength : ws.length = caps.length := by simpa using congrArg List.length hcaps
  have hplace : ∀ i cap, caps[i]? = some cap →
      acquiresAt i f.visits ≤ cap ∧ polledAt i f.visits ≤ cap + 1 := by
    intro i cap hcap
    obtain ⟨w₀, hw₀, hmax⟩ := exists_worker hcaps hcap
    obtain ⟨w, done, -, -, hmetered, hpolled⟩ := h.account i w₀ hw₀
    have hbursts := hmetered.bursts_le hmax
    have hdone := done.toNat_le
    omega
  refine ⟨h.toMarked, hplace, ?_, h.done_length.trans hlength⟩
  calc f.visits.length = ∑ i ∈ Finset.range caps.length, polledAt i f.visits :=
        length_eq_sum f.visits (hlength ▸ h.place_lt)
    _ = ∑ i : Fin caps.length, polledAt i f.visits := Finset.sum_range _
    _ ≤ ∑ i : Fin caps.length, (caps[i.1] + 1) :=
        Finset.sum_le_sum fun i _ => (hplace i _ (List.getElem?_eq_getElem i.2)).2
    _ = (caps.map (· + 1)).sum := Fin.sum_univ_fun_getElem caps (· + 1)

/-- It is over within a sweep more than the greatest cap. -/
theorem isOver_loop {fuel : Nat} (hfuel : ∀ cap ∈ caps, cap < fuel)
    (moments : Nat → Nat → Moment) (card : Card) :
    isOver (loop fuel moments (start ws card)) = true := by
  by_contra hn
  have hover : isOver (loop fuel moments (start ws card)) = false := Bool.eq_false_of_not_eq_true hn
  obtain ⟨row, hrow, hcount⟩ := exists_turns_loop fuel moments (start ws card)
  rw [hrow] at hover hcount
  -- A worker that is still to be polled has had a turn in every sweep.
  obtain ⟨i, hopen⟩ := ((kept_start ws card).turns row).exists_open hover
  obtain ⟨w, hw⟩ := exists_worker_of_open hopen
  obtain ⟨cap, hcap, hmax⟩ := exists_cap hcaps hw
  have hle := hopen.turns_le hw hmax
  have hlt := hfuel cap (List.mem_of_getElem? hcap)
  rw [hcount hover i (List.getElem?_eq_some_iff.mp hw).1] at hle
  omega

end Caps

end Rota

end DmaBurst
