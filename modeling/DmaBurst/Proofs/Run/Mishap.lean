import DmaBurst.Proofs.Run.GiveBack
import DmaBurst.Proofs.Run.Schedule

namespace DmaBurst

open Drive Session
open scoped List

/-- A worker keeps the name of its queue, and is done at the first poll that finds a flag raised. -/
class ObedientWorker (ω : Type) [Worker ω] : Prop where
  poll_id : ∀ (flags : List Bool) (w : ω) (r : PacketRing),
    (Worker.queue (Worker.poll flags w r).2.1).id = (Worker.queue w).id
  poll_flagged : ∀ (flags : List Bool) (w : ω) (r : PacketRing), flags.any id = true →
    ∃ status, (Worker.poll flags w r).1 = .ok (.done status)

theorem RxWorker.poll_flagged {σ : Type} [ByteSink σ] (flags : List Bool) (w : RxWorker σ)
    (r : PacketRing) (h : flags.any id = true) :
    ∃ status, (w.poll flags r).1 = .ok (.done status) := by
  have hverdict : w.verdict flags ≠ none := by
    rw [verdict, h]
    split <;> simp
  obtain ⟨status, hv⟩ := Option.ne_none_iff_exists'.mp hverdict
  rw [poll, hv]
  split <;> exact ⟨_, rfl⟩

theorem TxWorker.poll_flagged {σ : Type} [PacketSource σ] (flags : List Bool) (w : TxWorker σ)
    (r : PacketRing) (h : flags.any id = true) :
    ∃ status, (w.poll flags r).1 = .ok (.done status) := by
  have hverdict : w.verdict flags ≠ none := by
    rw [verdict, h]
    split
    · simp
    · split <;> simp
  obtain ⟨status, hv⟩ := Option.ne_none_iff_exists'.mp hverdict
  rw [poll, hv]
  split <;> exact ⟨_, rfl⟩

instance {σ : Type} [ByteSink σ] : ObedientWorker (RxWorker σ) :=
  ⟨RxWorker.poll_kept (fun max _ _ => Queue.id_acquire max) fun count _ _ => Queue.id_put count,
    RxWorker.poll_flagged⟩

instance {σ : Type} [PacketSource σ] : ObedientWorker (TxWorker σ) :=
  ⟨TxWorker.poll_kept (fun max _ _ => Queue.id_acquire max) fun count _ _ => Queue.id_put count,
    TxWorker.poll_flagged⟩

namespace Drive

variable {ω η : Type} [Worker ω] [Hardware η]

def mishap? (s : Station ω) : Option (QueueId × Halt WorkerError) :=
  match s.ended with
  | some (.error e) => some ((Worker.queue s.worker).channel.id, e)
  | _ => none

/-- The failure of one poll, if the worker is polled and fails. A report that cannot be made is a
failure of the poll that finishes the worker. -/
def stepMishaps (shutdown : Bool) (s : Station ω) (abort : Bool) (card : Card) :
    List (QueueId × Halt WorkerError) :=
  if s.ended.isSome then [] else (mishap? (step shutdown s abort card).1).toList

def sweepMishaps (schedule : Schedule) (shutdown : Bool) :
    List (Station ω) → Bool → Card → List (QueueId × Halt WorkerError)
  | [], _, _ => []
  | s :: rest, abort, card =>
    if schedule = .roundRobin && abort then []
    else
      let (_, abort', card') := step shutdown s abort card
      stepMishaps shutdown s abort card ++ sweepMishaps schedule shutdown rest abort' card'

def sweepsMishaps (schedule : Schedule) (shutdown : Bool) :
    Nat → η → Floor ω → List (QueueId × Halt WorkerError)
  | 0, _, _ => []
  | fuel + 1, h, f =>
    if isOver schedule f then []
    else
      let (h, card) := Hardware.act h f.card
      sweepMishaps schedule shutdown f.stations f.abort card ++
        sweepsMishaps schedule shutdown fuel h (sweep schedule shutdown { f with card })

def mishaps (schedule : Schedule) (shutdown : Bool) (ws : List ω) (h : η) (card : Card) :
    List (QueueId × Halt WorkerError) :=
  sweepsMishaps schedule shutdown (sweepsLeft ws) h (start ws card)

def lastFloor (schedule : Schedule) (shutdown : Bool) (ws : List ω) (h : η) (card : Card) :
    Floor ω :=
  (sweeps schedule shutdown (sweepsLeft ws) h (start ws card)).2

def First (x : QueueId × Halt WorkerError) (failures : List (QueueId × Halt WorkerError)) : Prop :=
  x ∈ failures ∧ ∀ y ∈ failures, x.1.index ≤ y.1.index

instance (x : QueueId × Halt WorkerError) (failures : List (QueueId × Halt WorkerError)) :
    Decidable (First x failures) :=
  inferInstanceAs (Decidable (_ ∧ _))

theorem First.of_eq {x : QueueId × Halt WorkerError}
    {failures : List (QueueId × Halt WorkerError)} (h : failures = [x]) : First x failures := by
  rw [h]
  exact ⟨List.mem_singleton_self x, fun _ hy => by rw [List.mem_singleton.mp hy]⟩

theorem First.perm {x : QueueId × Halt WorkerError}
    {failures failures' : List (QueueId × Halt WorkerError)} (h : First x failures)
    (hp : failures'.Perm failures) : First x failures' :=
  ⟨hp.mem_iff.mpr h.1, fun y hy => h.2 y (hp.mem_iff.mp hy)⟩

def passOn (schedule : Schedule) : QueueId × Halt WorkerError → Halt RunError
  | (q, .fault e) =>
    match schedule with
    | .threadPerQueue => .refused (.workerFault q)
    | .roundRobin => .fault e
  | (_, e) => e.map .worker

variable {schedule : Schedule} {shutdown : Bool}

omit [Hardware η] in
theorem failed_iff (s : Station ω) : failed s = true ↔ (mishap? s).toList ≠ [] := by
  rw [failed, mishap?]
  rcases s.ended with _ | _ | _ <;> simp [Except.isOk, Except.toBool]

omit [Hardware η] in
theorem step_mishaps (shutdown : Bool) (s : Station ω) (abort : Bool) (card : Card) :
    (mishap? (step shutdown s abort card).1).toList =
        (mishap? s).toList ++ stepMishaps shutdown s abort card ∧
      ((step shutdown s abort card).2.1 = true ↔
        abort = true ∨ stepMishaps shutdown s abort card ≠ []) := by
  rw [stepMishaps]
  by_cases he : s.ended.isSome
  · rw [if_pos he, step, if_pos he]
    exact ⟨(List.append_nil _).symm, by simp⟩
  · have hnone : mishap? s = none := by
      rw [mishap?, Option.not_isSome_iff_eq_none.mp he]
    rw [if_neg he, hnone, ← failed_iff, ← Bool.or_eq_true, step, if_neg he]
    exact ⟨rfl, Iff.rfl⟩

omit [Hardware η] in
theorem filterMap_mishap?_cons (s : Station ω) (rest : List (Station ω)) :
    (s :: rest).filterMap mishap? = (mishap? s).toList ++ rest.filterMap mishap? := by
  rw [List.filterMap_cons]
  cases mishap? s <;> rfl

omit [Hardware η] in
theorem sweepStations_mishaps (schedule : Schedule) (shutdown : Bool) (stations : List (Station ω))
    (abort : Bool) (card : Card) :
    ((sweepStations schedule shutdown stations abort card).1.filterMap mishap?).Perm
        (stations.filterMap mishap? ++ sweepMishaps schedule shutdown stations abort card) ∧
      ((sweepStations schedule shutdown stations abort card).2.1 = true ↔
        abort = true ∨ sweepMishaps schedule shutdown stations abort card ≠ []) := by
  induction stations generalizing abort card with
  | nil => exact ⟨.refl [], by simp [sweepStations, sweepMishaps]⟩
  | cons s rest ih =>
    rw [sweepStations, sweepMishaps]
    split
    · exact ⟨by simp, by simp⟩
    · obtain ⟨hperm, habort⟩ := ih (step shutdown s abort card).2.1 (step shutdown s abort card).2.2
      obtain ⟨hstep, hraised⟩ := step_mishaps shutdown s abort card
      dsimp only
      rw [filterMap_mishap?_cons, filterMap_mishap?_cons, hstep, habort, hraised]
      refine ⟨?_, by simp only [ne_eq, List.append_eq_nil_iff, not_and_or, or_assoc]⟩
      let before := (mishap? s).toList
      let now := stepMishaps shutdown s abort card
      let after := sweepMishaps schedule shutdown rest (step shutdown s abort card).2.1
        (step shutdown s abort card).2.2
      calc (before ++ now) ++ _
        _ ~ (before ++ now) ++ (rest.filterMap mishap? ++ after) := hperm.append_left _
        _ = before ++ ((now ++ rest.filterMap mishap?) ++ after) := by
          simp only [List.append_assoc]
        _ ~ before ++ ((rest.filterMap mishap? ++ now) ++ after) :=
          (List.perm_append_comm.append_right after).append_left before
        _ = (before ++ rest.filterMap mishap?) ++ (now ++ after) := by
          simp only [List.append_assoc]

theorem sweeps_mishaps (schedule : Schedule) (shutdown : Bool) (fuel : Nat) (h : η) (f : Floor ω) :
    ((sweeps schedule shutdown fuel h f).2.stations.filterMap mishap?).Perm
        (f.stations.filterMap mishap? ++ sweepsMishaps schedule shutdown fuel h f) ∧
      ((sweeps schedule shutdown fuel h f).2.abort = true ↔
        f.abort = true ∨ sweepsMishaps schedule shutdown fuel h f ≠ []) := by
  induction fuel generalizing h f with
  | zero => exact ⟨by simp [sweeps, sweepsMishaps], by simp [sweeps, sweepsMishaps]⟩
  | succ fuel ih =>
    rw [sweeps, sweepsMishaps]
    split
    · exact ⟨by simp, by simp⟩
    · let acted : Floor ω := { f with card := (Hardware.act h f.card).2 }
      obtain ⟨hperm, habort⟩ := sweepStations_mishaps schedule shutdown f.stations f.abort acted.card
      obtain ⟨hperm', habort'⟩ := ih (Hardware.act h f.card).1 (sweep schedule shutdown acted)
      refine ⟨hperm'.trans ?_, habort'.trans ?_⟩
      · rw [← List.append_assoc]
        exact hperm.append_right _
      · simp only [ne_eq, List.append_eq_nil_iff, not_and_or, ← or_assoc]
        exact or_congr_left habort

omit [Hardware η] in
theorem pollOn_flagged [ObedientWorker ω] (flags : List Bool) (w : ω) (card : Card)
    (h : flags.any id = true) : ∃ status, (pollOn flags w card).1 = .ok (.done status) := by
  obtain ⟨r, hr⟩ := card.exists_withRing_fst (Worker.queue w).channel.id fun r =>
    (((Worker.poll flags w r).1, (Worker.poll flags w r).2.1), (Worker.poll flags w r).2.2)
  have hp : (pollOn flags w card).1 = (Worker.poll flags w r).1 := congrArg Prod.fst hr
  rw [hp]
  exact ObedientWorker.poll_flagged flags w r h

omit [Hardware η] in
theorem step_ends [ObedientWorker ω] (shutdown : Bool) (s : Station ω) (card : Card) :
    (step shutdown s true card).1.ended.isSome ∧ (step shutdown s true card).2.1 = true := by
  rw [step]
  split
  · next he => exact ⟨he, rfl⟩
  · obtain ⟨status, hdone⟩ := pollOn_flagged [shutdown, true] s.worker card (by simp)
    refine ⟨?_, rfl⟩
    dsimp only [pollAt_card]
    rw [hdone]
    rfl

omit [Hardware η] in
/-- With the flag up, one sweep ends all workers that have threads of their own. -/
theorem sweep_ends [ObedientWorker ω] (shutdown : Bool) {f : Floor ω} (h : f.abort = true) :
    ∀ s ∈ (sweep .threadPerQueue shutdown f).stations, s.ended.isSome := by
  suffices hall : ∀ (stations : List (Station ω)) (card : Card),
      ∀ s ∈ (sweepStations .threadPerQueue shutdown stations true card).1, s.ended.isSome by
    rw [sweep, h]
    exact hall f.stations f.card
  intro stations
  induction stations with
  | nil => exact fun card s hs => by cases hs
  | cons s rest ih =>
    intro card
    obtain ⟨hended, hflag⟩ := step_ends shutdown s card
    rw [sweepStations, if_neg (by simp)]
    dsimp only
    rw [hflag]
    exact List.forall_mem_cons.mpr ⟨hended, ih _⟩

omit [Hardware η] in
theorem failure_eq {s : Station ω}
    (h : (Worker.queue s.worker).id = (Worker.queue s.worker).channel.id) :
    failure schedule s = (mishap? s).map (passOn schedule) := by
  rw [failure, mishap?, h]
  rcases s.ended with _ | e | report
  · rfl
  · cases e with
    | fault e => cases schedule <;> rfl
    | refused e => rfl
    | stuck => rfl
  · rfl

omit [Hardware η] in
theorem outcome_of_mishap {f : Floor ω} {x : QueueId × Halt WorkerError}
    (hid : ∀ s ∈ f.stations, (Worker.queue s.worker).id = (Worker.queue s.worker).channel.id)
    (h : (f.stations.filterMap mishap?).head? = some x) :
    outcome schedule f = .error (passOn schedule x) := by
  rw [List.head?_filterMap] at h
  obtain ⟨before, s, after, hf, hs, hnone⟩ := List.findSome?_eq_some_iff.mp h
  have hfind : f.stations.findSome? (failure schedule) = some (passOn schedule x) := by
    refine List.findSome?_eq_some_iff.mpr ⟨before, s, after, hf, ?_, fun t ht => ?_⟩
    · rw [failure_eq (hid s (by simp [hf])), hs]
      rfl
    · rw [failure_eq (hid t (by simp [hf, ht])), hnone t ht]
      rfl
  rw [outcome, hfind]

omit [Hardware η] in
theorem mishap?_fst {s : Station ω} {x : QueueId × Halt WorkerError} (h : mishap? s = some x) :
    x.1 = (Worker.queue s.worker).channel.id := by
  rw [mishap?] at h
  split at h
  · exact (congrArg Prod.fst (Option.some.inj h)).symm
  · cases h

omit [Hardware η] in
theorem head?_mishap? {stations : List (Station ω)} {x : QueueId × Halt WorkerError}
    (hsorted : (stations.map fun s => (Worker.queue s.worker).channel.id).Pairwise
      fun p q => p.index < q.index)
    (hx : First x (stations.filterMap mishap?)) :
    (stations.filterMap mishap?).head? = some x := by
  have hpair : (stations.filterMap mishap?).Pairwise fun x y => x.1.index < y.1.index := by
    refine List.pairwise_filterMap.mpr ((List.pairwise_map.mp hsorted).imp fun hlt x hx y hy => ?_)
    rwa [mishap?_fst hx, mishap?_fst hy]
  generalize stations.filterMap mishap? = failures at hx hpair
  obtain ⟨hx, hfirst⟩ := hx
  cases failures with
  | nil => cases hx
  | cons y rest =>
    rcases List.mem_cons.mp hx with rfl | hrest
    · rfl
    · have hlt := List.rel_of_pairwise_cons hpair hrest
      exact absurd (hfirst y List.mem_cons_self) (Nat.not_le.mpr hlt)

variable [LawfulWorker ω] [ObedientWorker ω]

/-- A run polls of which fail comes to the failure on the first queue, and raises the flag for all
workers. -/
theorem run_of_mishap {ws : List ω} {h : η} {card : Card} {x : QueueId × Halt WorkerError}
    (hid : ∀ w ∈ ws, (Worker.queue w).id = (Worker.queue w).channel.id)
    (hsorted : (ws.map fun w => (Worker.queue w).channel.id).Pairwise fun p q => p.index < q.index)
    (hx : First x (mishaps schedule shutdown ws h card)) :
    (run schedule shutdown ws h card).1 = .error (passOn schedule x) ∧
      x.1 ∈ ws.map (fun w => (Worker.queue w).channel.id) ∧
      (lastFloor schedule shutdown ws h card).abort = true := by
  obtain ⟨hperm, habort⟩ := sweeps_mishaps schedule shutdown (sweepsLeft ws) h (start ws card)
  have hkept := sweeps_kept (g := fun w => ((Worker.queue w).id, (Worker.queue w).channel.id))
    (fun flags w r => Prod.ext (ObedientWorker.poll_id flags w r)
      (congrArg Standing.id (LawfulWorker.poll_standing flags w r)))
    schedule shutdown (sweepsLeft ws) h (start ws card)
  have hrun : (run schedule shutdown ws h card).1 =
      outcome schedule (sweeps schedule shutdown (sweepsLeft ws) h (start ws card)).2 := rfl
  have hnone : (start ws card).stations.filterMap mishap? = [] := by
    rw [start, List.filterMap_map]
    exact List.filterMap_eq_nil_iff.mpr fun _ _ => rfl
  rw [hnone, List.nil_append] at hperm
  rw [hrun, lastFloor]
  generalize (sweeps schedule shutdown (sweepsLeft ws) h (start ws card)).2 = f at hperm hkept habort ⊢
  rw [start, List.map_map] at hkept
  have hids : (f.stations.map fun s => (Worker.queue s.worker).channel.id) =
      ws.map fun w => (Worker.queue w).channel.id := by
    simpa only [List.map_map, Function.comp_def] using congrArg (List.map Prod.snd) hkept
  have hown : ∀ s ∈ f.stations, (Worker.queue s.worker).id = (Worker.queue s.worker).channel.id := by
    intro s hs
    have hmem := List.mem_map_of_mem
      (f := fun s => ((Worker.queue s.worker).id, (Worker.queue s.worker).channel.id)) hs
    rw [hkept] at hmem
    obtain ⟨w, hw, heq⟩ := List.mem_map.mp hmem
    exact (congrArg Prod.fst heq).symm.trans ((hid w hw).trans (congrArg Prod.snd heq))
  have hx' := hx.perm hperm
  rw [← hids] at hsorted ⊢
  refine ⟨outcome_of_mishap hown (head?_mishap? hsorted hx'), ?_, ?_⟩
  · obtain ⟨s, hs, hms⟩ := List.mem_filterMap.mp hx'.1
    rw [mishap?_fst hms]
    exact List.mem_map_of_mem hs
  · exact habort.mpr (.inr (List.ne_nil_of_mem hx.1))

end Drive

namespace Session

/-- A worker of a run has gone down with a fault on queue `q`, the first on which any failed. With a
thread for each worker the fault is an error of the run; in turns it is a fault of the run itself.
-/
structure Downed {ω : Type} [Worker ω] (schedule : Schedule) (direction : Direction) (count : Nat)
    (reset : Option ResetConfig) (q : QueueId) (e : Fault) (card : Card) (f : Floor ω)
    (answer : Except (Halt RunError) RunReport) (card' : Card) : Prop where
  mem_queueIds : q ∈ queueIds direction count
  of_threads : schedule = .threadPerQueue → answer = .error (.refused (.workerFault q)) ∧
    ∀ shutdown, ∀ s ∈ (sweep .threadPerQueue shutdown f).stations, s.ended.isSome
  of_turns : schedule = .roundRobin → answer = .error (.fault e)
  journal_eq : card'.journal =
    card.journal ++ plan direction count reset card ++ Event.undo (plan direction count reset card)
  alike : card.Alike card'

variable {c : Config} {direction : Direction} {count got : Nat} {reset : Option ResetConfig}
  {card card₁ card' : Card} {s : Session}

theorem Balanced.journal_eq (h : Balanced c direction count got reset card card')
    (hc : c.validate = .ok ()) (hg : got = count)
    (hs : setup c.device direction count reset card = (.ok s, card₁)) :
    card'.journal = card.journal ++ plan direction count reset card ++
      Event.undo (plan direction count reset card) := by
  obtain ⟨events, -, hj, -, hall⟩ := h
  rw [hj, hall hc hg ⟨s, congrArg Prod.fst hs⟩]

theorem downed {ω η : Type} [Worker ω] [LawfulWorker ω] [ObedientWorker ω] [Hardware η]
    [PortHardware η] {shutdown : Bool} {ws : List ω} {h : η} {started : Card}
    {answer : Except (Halt RunError) RunReport} {q : QueueId} {e : Fault}
    (hs : setup c.device direction count reset card = (.ok s, card₁))
    (hstarted : card₁.Alike started) (hws : ws.map Worker.queue = s.queues)
    (hx : First (q, .fault e) (mishaps c.schedule shutdown ws h started))
    (hrun : ∀ {e ws' h' card₂},
      Drive.run c.schedule shutdown ws h started = (.error e, ws', h', card₂) →
        answer = .error e ∧
          card' = teardown { s with queues := ws'.map Worker.queue } card₂)
    (hj : card'.journal = card.journal ++ plan direction count reset card ++
      Event.undo (plan direction count reset card)) :
    Downed c.schedule direction count reset q e card
      (lastFloor c.schedule shutdown ws h started) answer card' := by
  have hfresh := ((setup_cases c.device direction count reset card).2 s card₁ hs).2
  have hids := ids_workers hs hws
  have hsorted : (queueIds direction count).Pairwise fun p q => p.index < q.index :=
    List.pairwise_map.mpr List.pairwise_lt_range
  obtain ⟨hanswer, hmem, habort⟩ := run_of_mishap
    (fun w hw => (hfresh _ (hws ▸ List.mem_map_of_mem hw)).id_eq) (hids ▸ hsorted) hx
  have hstand := Drive.run_map_standing c.schedule shutdown hws h started
  have halike := Drive.run_alike c.schedule shutdown ws h started
  rcases hres : Drive.run c.schedule shutdown ws h started with ⟨outcome, ws', h', card₂⟩
  rw [hres] at hanswer hstand halike
  cases hanswer
  obtain ⟨rfl, rfl⟩ := hrun hres
  refine ⟨hids ▸ hmem, fun ht => ⟨?_, fun shutdown => sweep_ends shutdown habort⟩,
    fun ht => ?_, hj, (alike_teardown hs (hstarted.trans halike) hstand).1⟩
  · rw [ht]
    rfl
  · rw [ht]
    rfl

end Session

/-- One worker that goes down, at whatever poll and whatever packet, brings down its run. -/
theorem fault_downs_run (c : Config) (hc : c.validate = .ok ()) (shutdown : Bool) {η : Type}
    [Hardware η] [PortHardware η] (h : η) (card : Card) :
    (∀ {σ : Type} [ByteSink σ] (sinks : List σ) (budgets : List Int) {s : Session} {card' : Card}
      {q : QueueId} {e : Fault},
      c.rx.budgets = .ok budgets → sinks.length = c.rx.queueCount →
      setup c.device .rx c.rx.queueCount (Receive.reset? c) card = (.ok s, card') →
      First (q, .fault e) (mishaps c.schedule shutdown (Receive.workers c s.queues sinks budgets) h
        (s.pulse c.rx.reset card')) →
      Downed c.schedule .rx c.rx.queueCount (Receive.reset? c) q e card
        (lastFloor c.schedule shutdown (Receive.workers c s.queues sinks budgets) h
          (s.pulse c.rx.reset card'))
        (Receive.run c shutdown sinks h card).1 (Receive.run c shutdown sinks h card).2.2.2) ∧
    ∀ {σ : Type} [PacketSource σ] (sources : List σ) {s : Session} {card' : Card} {q : QueueId}
      {e : Fault},
      sources.length = c.tx.queues →
      setup c.device .tx c.tx.queues none card = (.ok s, card') →
      First (q, .fault e)
        (mishaps c.schedule shutdown (Transmit.workers c s.queues sources) h card') →
      Downed c.schedule .tx c.tx.queues none q e card
        (lastFloor c.schedule shutdown (Transmit.workers c s.queues sources) h card')
        (Transmit.run c shutdown sources h card).1 (Transmit.run c shutdown sources h card).2.2.2 := by
  constructor
  · intro σ _ sinks budgets s card' q e hb hlen hs hx
    have hqueues := length_queues (standing_queues hs)
    have hws := Receive.map_queue_workers (c := c) (hlen.trans hqueues.symm)
      ((Card.length_of_mapM_eq_ok hb).trans hqueues.symm)
    refine downed hs (alike_pulse c.rx.reset s card') hws hx (fun hrun => ?_)
      ((Receive.run_balanced c shutdown sinks h card).journal_eq hc hlen hs)
    rw [Receive.reset?] at hs
    rw [Receive.run, Receive.runBy, hc]
    simp only [hlen, ne_eq, not_true_eq_false, if_false, Ground.onCard_card, hs, Receive.driveBy,
      hb, hrun]
    exact ⟨trivial, rfl⟩
  · intro σ _ sources s card' q e hlen hs hx
    have hqueues := length_queues (standing_queues hs)
    have hws := Transmit.map_queue_workers (c := c) (hlen.trans hqueues.symm)
    refine downed hs (.refl card') hws hx (fun hrun => ?_)
      ((Transmit.run_balanced c shutdown sources h card).journal_eq hc hlen hs)
    rw [Transmit.run, hc]
    simp only [hlen, ne_eq, not_true_eq_false, if_false, hs, hrun]
    exact ⟨rfl, rfl⟩

def frailSpec : CardSpec where
  rxQueues := 2
  txQueues := 2
  ringCapacity := 2
  slotSize := 1

def frailConfig (schedule : Schedule) : Config where
  batchSize := 1
  schedule
  rx := { iterations := 1, packetsPerIteration := [1, 1] }
  tx := { queues := 2, packetLen := 1, rounds := 1 }

/-- The second sink goes down while the first queue waits for its packet. -/
def downSinks : List ScriptedSink :=
  [{}, { faultAt := some 0 }]

def downSources : List ScriptedSource :=
  [{ cues := [.fill 1] }, { cues := [.fault] }]

theorem frail_downed : ∃ card₀ card s card' s' card'', Card.create frailSpec = .ok card₀ ∧
    (card₀.push ⟨.rx, 1⟩ [1] [] 0).2 = card ∧
    setup "0" .rx 2 (some {}) card = (.ok s, card') ∧
    mishaps .threadPerQueue false
      (Receive.workers (frailConfig .threadPerQueue) s.queues downSinks [1, 1]) ()
      (s.pulse {} card') = [(⟨.rx, 1⟩, .fault (.collaborator "sink panicked"))] ∧
    Downed .threadPerQueue .rx 2 (some {}) ⟨.rx, 1⟩ (.collaborator "sink panicked") card
      (lastFloor .threadPerQueue false
        (Receive.workers (frailConfig .threadPerQueue) s.queues downSinks [1, 1]) ()
        (s.pulse {} card'))
      (Receive.run (frailConfig .threadPerQueue) false downSinks () card).1
      (Receive.run (frailConfig .threadPerQueue) false downSinks () card).2.2.2 ∧
    setup "0" .tx 2 none card = (.ok s', card'') ∧
    mishaps .roundRobin false
      (Transmit.workers (frailConfig .roundRobin) s'.queues downSources) () card'' =
      [(⟨.tx, 1⟩, .fault (.collaborator "source panicked"))] ∧
    Downed .roundRobin .tx 2 none ⟨.tx, 1⟩ (.collaborator "source panicked") card
      (lastFloor .roundRobin false
        (Transmit.workers (frailConfig .roundRobin) s'.queues downSources) () card'')
      (Transmit.run (frailConfig .roundRobin) false downSources () card).1
      (Transmit.run (frailConfig .roundRobin) false downSources () card).2.2.2 := by
  have hcreate : Card.create frailSpec = .ok _ := rfl
  have hthreads := fault_downs_run (frailConfig .threadPerQueue) rfl false ()
  have hturns := fault_downs_run (frailConfig .roundRobin) rfl false ()
  refine ⟨_, _, _, _, _, _, hcreate, rfl, rfl, by cbv, ?_, rfl, by cbv, ?_⟩
  · exact (hthreads _).1 downSinks [1, 1] rfl rfl rfl (.of_eq (by cbv))
  · exact (hturns _).2 downSources rfl rfl (.of_eq (by cbv))

/-- Workers that take turns let a fault of one of them through to the caller. -/
theorem turns_unwind : ¬ ∀ (c : Config) (sinks : List ScriptedSink) (budgets : List Int)
    (card : Card) (s : Session) (card' : Card) (q : QueueId) (e : Fault),
    c.validate = .ok () → c.rx.budgets = .ok budgets → sinks.length = c.rx.queueCount →
    setup c.device .rx c.rx.queueCount (Receive.reset? c) card = (.ok s, card') →
    mishaps c.schedule false (Receive.workers c s.queues sinks budgets) ()
      (s.pulse c.rx.reset card') = [(q, .fault e)] →
    (Receive.run c false sinks () card).1 = .error (.refused (.workerFault q)) := by
  intro h
  obtain ⟨card, s, card', hs, hx, hrun⟩ : ∃ card s card',
      setup "0" .rx 2 (some {}) card = (.ok s, card') ∧
      mishaps .roundRobin false
        (Receive.workers (frailConfig .roundRobin) s.queues downSinks [1, 1]) ()
        (s.pulse {} card') = [(⟨.rx, 1⟩, .fault (.collaborator "sink panicked"))] ∧
      (Receive.run (frailConfig .roundRobin) false downSinks () card).1 =
        .error (.fault (.collaborator "sink panicked")) :=
    ⟨(((Card.create frailSpec).toOption.get rfl).push ⟨.rx, 1⟩ [1] [] 0).2, _, _, rfl, by cbv, by cbv⟩
  have hclaim := h (frailConfig .roundRobin) downSinks [1, 1] card s card' _ _ rfl rfl rfl hs hx
  rw [hrun] at hclaim
  cases hclaim

end DmaBurst
