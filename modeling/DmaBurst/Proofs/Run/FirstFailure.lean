import DmaBurst.Proofs.Run.Capped
import DmaBurst.Proofs.Run.InTurn
import DmaBurst.Proofs.Run.Threads

namespace DmaBurst

open Drive Session

namespace Drive

open Rota (Cyclic Kept)

section Follows

variable {ω η : Type} [Worker ω] {F : Floor ω} {f : Rota ω} {card : Card} {abort : Bool}
  {pre rest : List (Station ω)} {s : Station ω}

/-- A floor that mirrors a rota and has its failure. Beside it there is none but that of a worker
that cannot report. -/
structure Follows (F : Floor ω) (f : Rota ω) : Prop extends Mirrors F f where
  abort_eq : F.abort = F.stations.any Drive.failed
  ended : ∀ s ∈ F.stations, ∀ answer, s.ended = some answer →
    answer = (Worker.report s.worker).mapError .fault ∨
      ∃ e, f.failure = some e ∧ answer = .error e
  blamed : ∀ e, f.failure = some e → ∃ s ∈ F.stations, s.ended = some (.error e)

theorem follows_start (ws : List ω) (card : Card) :
    Follows (start ws card) (Rota.start ws card) := by
  refine ⟨mirrors_start ws card, ?_, fun s hs answer he => ?_, fun e he => by cases he⟩
  · rw [start, List.any_map]
    exact (List.any_eq_false.mpr fun w _ => by simp [Drive.failed]).symm
  · obtain ⟨w, -, rfl⟩ := List.mem_map.mp hs
    cases he

theorem Follows.act (h : Follows F f) (act : Card → Card) :
    Follows { F with card := act F.card } (Rota.visit ⟨[], act⟩ f.workers.length f) := by
  have hfailure : (Rota.visit ⟨[], act⟩ f.workers.length f).failure = f.failure := by
    rw [Rota.visit, List.getElem?_eq_none le_rfl]
    split
    · next hw _ => cases hw
    · rfl
  refine ⟨h.toMirrors.act act, h.abort_eq, ?_, ?_⟩
  · rw [hfailure]
    exact h.ended
  · rw [hfailure]
    exact h.blamed

theorem Mirrors.failure_visit (h : Mirrors ⟨pre ++ s :: rest, false, card⟩ f) (shutdown : Bool) :
    (Rota.visit (calmMoment shutdown) pre.length f).failure =
      if s.ended.isSome then none
      else match (pollOn [shutdown, false] s.worker card).1 with
        | .error e => some e
        | .ok _ => none := by
  have hworker : f.workers[pre.length]? = some s.worker := by
    rw [h.workers_eq, List.getElem?_map]
    simp
  have hmark : f.done[pre.length]? = some s.ended.isSome := by
    rw [h.done_eq rfl, List.getElem?_map]
    simp
  have hcard : (calmMoment shutdown).act f.card = card := h.card_eq
  rw [Rota.visit]
  dsimp only
  rw [hcard, h.calm rfl, hworker, hmark]
  cases s.ended.isSome with
  | true => rfl
  | false =>
    have hflags : (calmMoment shutdown).flags = [shutdown, false] := rfl
    simp only [Bool.false_eq_true, if_false, hflags]
    rcases (pollOn [shutdown, false] s.worker card).1 with _ | _ | _ | _ <;> rfl

theorem Follows.ended_of_calm (h : Follows F f) (hcalm : f.failure = none) (hs : s ∈ F.stations)
    {answer : Except (Halt WorkerError) WorkerReport} (he : s.ended = some answer) :
    answer = (Worker.report s.worker).mapError .fault := by
  obtain hreport | ⟨e, he', -⟩ := h.ended s hs answer he
  · exact hreport
  · cases hcalm.symm.trans he'

theorem Follows.step (h : Follows ⟨pre ++ s :: rest, false, card⟩ f) (shutdown : Bool) :
    Follows
      ⟨pre ++ (step shutdown s false card).1 :: rest, (step shutdown s false card).2.1,
        (step shutdown s false card).2.2⟩
      (Rota.visit (calmMoment shutdown) pre.length f) := by
  have hmirrors := h.toMirrors.step shutdown
  have hfailure := h.toMirrors.failure_visit shutdown
  have hreport : ∀ t ∈ pre ++ s :: rest, ∀ answer, t.ended = some answer →
      answer = (Worker.report t.worker).mapError .fault :=
    fun t ht _ he => h.ended_of_calm (h.calm rfl) ht he
  have hcalm : (pre ++ s :: rest).any Drive.failed = false := h.abort_eq.symm
  rw [Drive.step] at hmirrors ⊢
  cases he : s.ended.isSome with
  | true =>
    rw [he, if_pos rfl] at hmirrors hfailure
    rw [if_pos rfl]
    exact ⟨hmirrors, hcalm.symm, fun t ht answer he => .inl (hreport t ht answer he),
      fun e he => by cases hfailure.symm.trans he⟩
  | false =>
    rw [he, if_neg (by simp)] at hmirrors hfailure
    rw [if_neg (by simp)]
    simp only [pollAt_card] at hmirrors ⊢
    generalize pollOn [shutdown, false] s.worker card = polled at hmirrors hfailure ⊢
    obtain ⟨answer, w', card'⟩ := polled
    dsimp only at hmirrors hfailure ⊢
    rw [List.any_append, List.any_cons, Bool.or_eq_false_iff, Bool.or_eq_false_iff] at hcalm
    obtain ⟨hpre, -, hrest⟩ := hcalm
    refine ⟨hmirrors, ?_, fun t ht answer' he => ?_, fun e he => ?_⟩
    · rw [List.any_append, List.any_cons, hpre, hrest, Bool.false_or, Bool.or_false]
      exact Bool.false_or _
    · rcases List.mem_append.mp ht with ht | ht
      · exact .inl (hreport t (List.mem_append_left _ ht) answer' he)
      · rcases List.mem_cons.mp ht with rfl | ht
        · rcases answer with e | _ | _ | status
          · exact .inr ⟨e, hfailure, (Option.some.inj he).symm⟩
          · cases he
          · cases he
          · exact .inl (Option.some.inj he).symm
        · exact .inl (hreport t (by simp [ht]) answer' he)
    · refine ⟨_, List.mem_append_right _ List.mem_cons_self, ?_⟩
      rcases answer with e' | _
      · cases hfailure.symm.trans he
        rfl
      · cases hfailure.symm.trans he

theorem Follows.sweepStations (h : Follows ⟨pre ++ rest, abort, card⟩ f) (shutdown : Bool) :
    ∃ m ≤ rest.length, Follows
        ⟨pre ++ (sweepStations .roundRobin shutdown rest abort card).1,
          (sweepStations .roundRobin shutdown rest abort card).2.1,
          (sweepStations .roundRobin shutdown rest abort card).2.2⟩
        (Rota.turns ((List.range' pre.length m).map fun i => (calmMoment shutdown, i)) f) ∧
      ((sweepStations .roundRobin shutdown rest abort card).2.1 = false → m = rest.length) := by
  induction rest generalizing pre abort card f with
  | nil => exact ⟨0, le_rfl, h, fun _ => rfl⟩
  | cons s rest ih =>
    rw [Drive.sweepStations]
    cases abort with
    | true => exact ⟨0, Nat.zero_le _, h, fun habort => by cases habort⟩
    | false =>
      have hstep := h.step shutdown
      rw [List.append_cons] at hstep
      obtain ⟨m, hle, hm, hall⟩ := ih hstep
      refine ⟨m + 1, Nat.succ_le_succ hle, ?_, fun habort => congrArg Nat.succ (hall habort)⟩
      rw [List.range'_succ, List.map_cons, Rota.turns_cons]
      rw [List.length_append, List.length_singleton] at hm
      simpa using hm

theorem Follows.sweeps [MeteredWorker ω] [Hardware η] (hf : Follows F f) (shutdown : Bool)
    (fuel : Nat) (h : η) :
    ∃ row, Cyclic f.workers.length row ∧
      Follows (sweeps .roundRobin shutdown fuel h F).2 (Rota.turns row f) := by
  induction fuel generalizing h F f with
  | zero => exact ⟨[], Rota.cyclic_nil _, hf⟩
  | succ fuel ih =>
    rw [Drive.sweeps]
    split
    · exact ⟨[], Rota.cyclic_nil _, hf⟩
    · obtain ⟨h', card, hact⟩ : ∃ h' card, Hardware.act h F.card = (h', card) := ⟨_, _, rfl⟩
      have hcard : (Hardware.act h F.card).2 = card := congrArg Prod.snd hact
      rw [Ground.onCard_card, hact]
      dsimp only
      have hfirst := hf.act fun card => (Hardware.act h card).2
      rw [hcard, ← List.nil_append F.stations] at hfirst
      obtain ⟨m, hle, hsweep, hall⟩ := hfirst.sweepStations shutdown
      have hlength : f.workers.length = F.stations.length := by
        rw [hf.workers_eq, List.length_map]
      rw [← hlength] at hle hall
      let acted : Moment := ⟨[], fun card => (Hardware.act h card).2⟩
      -- a sweep that breaks off is the last one
      cases habort : (Drive.sweep .roundRobin shutdown { F with card }).abort with
      | true =>
        have hover : isOver .roundRobin (sweep .roundRobin shutdown { F with card }) = true := by
          rw [isOver, habort]
          simp
        refine ⟨_, Rota.cyclic_sweep (x := acted) (y := calmMoment shutdown) hle (.inl rfl), ?_⟩
        rw [sweeps_of_isOver hover, List.append_nil]
        exact hsweep
      | false =>
        obtain ⟨row, hrow, hfollows⟩ := ih hsweep h'
        rw [Rota.length_turns, Rota.length_visit] at hrow
        refine ⟨_, Rota.cyclic_sweep (x := acted) (y := calmMoment shutdown) hle
          (.inr ⟨hall habort, hrow⟩), ?_⟩
        rw [Rota.turns_append]
        exact hfollows

/-- No worker has gone down, be it in a poll or in its report. -/
def Unharmed (F : Floor ω) : Prop :=
  ∀ s ∈ F.stations, ∀ e, s.ended ≠ some (.error (.fault e))

theorem Follows.ended_eq_error (h : Follows F f) (hun : Unharmed F) (hs : s ∈ F.stations)
    {e : Halt WorkerError} (he : s.ended = some (.error e)) : f.failure = some e := by
  obtain hreport | ⟨e', hfailure, he'⟩ := h.ended s hs _ he
  · cases hr : Worker.report s.worker with
    | ok report =>
      rw [hr] at hreport
      cases hreport
    | error x =>
      rw [hr] at hreport
      cases hreport
      exact absurd he (hun s hs x)
  · cases he'
    exact hfailure

theorem Follows.failure_station (h : Follows F f) (hun : Unharmed F) (hs : s ∈ F.stations) :
    Drive.failure .roundRobin s = none ∨
      ∃ e, f.failure = some e ∧ Drive.failure .roundRobin s = some (e.map .worker) := by
  rw [Drive.failure]
  rcases he : s.ended with _ | e | report
  · exact .inl rfl
  · refine .inr ⟨e, h.ended_eq_error hun hs he, ?_⟩
    cases e <;> rfl
  · exact .inl rfl

theorem Follows.outcome_of_failure (h : Follows F f) (hun : Unharmed F) {e : Halt WorkerError}
    (hfailure : f.failure = some e) : outcome .roundRobin F = .error (e.map .worker) := by
  obtain ⟨s, hs, he⟩ := h.blamed e hfailure
  rw [Drive.outcome]
  cases hfind : F.stations.findSome? (Drive.failure .roundRobin) with
  | none =>
    have hnone := List.findSome?_eq_none_iff.mp hfind s hs
    rw [Drive.failure, he] at hnone
    cases e <;> cases hnone
  | some x =>
    -- whichever station is found, its failure is the one that the rota has
    obtain ⟨t, ht, hx⟩ := List.exists_of_findSome?_eq_some hfind
    obtain hnone | ⟨e', he', hx'⟩ := h.failure_station hun ht
    · cases hnone.symm.trans hx
    · cases hfailure.symm.trans he'
      cases hx.symm.trans hx'
      rfl

theorem mapM_congr {α β ε : Type} {l : List α} {g g' : α → Except ε β}
    (h : ∀ a ∈ l, g a = g' a) : l.mapM g = l.mapM g' := by
  induction l with
  | nil => rfl
  | cons a l ih =>
    obtain ⟨ha, hl⟩ := List.forall_mem_cons.mp h
    rw [List.mapM_cons, List.mapM_cons, ha, ih hl]

theorem Follows.outcome_of_calm (h : Follows F f) (hun : Unharmed F) (hcalm : f.failure = none)
    (hended : ∀ s ∈ F.stations, s.ended.isSome) :
    outcome .roundRobin F = f.workers.mapM fun w => (Worker.report w).mapError .fault := by
  have hfind : F.stations.findSome? (Drive.failure .roundRobin) = none := by
    refine List.findSome?_eq_none_iff.mpr fun s hs => ?_
    obtain hnone | ⟨e, he, -⟩ := h.failure_station hun hs
    · exact hnone
    · cases hcalm.symm.trans he
  rw [Drive.outcome, hfind, h.workers_eq, List.mapM_map]
  refine mapM_congr fun s hs => ?_
  obtain ⟨answer, he⟩ := Option.isSome_iff_exists.mp (hended s hs)
  have hanswer := h.ended_of_calm hcalm hs he
  cases hr : Worker.report s.worker with
  | ok report =>
    rw [hr] at hanswer
    cases hanswer
    rw [he, Function.comp_apply, hr]
    rfl
  | error x =>
    rw [hr] at hanswer
    cases hanswer
    exact absurd he (hun s hs x)

theorem Follows.abort_of_calm (h : Follows F f) (hun : Unharmed F) (hcalm : f.failure = none) :
    F.abort = false := by
  rw [h.abort_eq]
  refine List.any_eq_false.mpr fun s hs hfailed => ?_
  rw [Drive.failed] at hfailed
  rcases he : s.ended with _ | e | report
  · simp [he] at hfailed
  · cases hcalm.symm.trans (h.ended_eq_error hun hs he)
  · simp [he, Except.isOk, Except.toBool] at hfailed

theorem Follows.outcome_eq [MeteredWorker ω] {ws : List ω} (h : Follows F f) (hkept : Kept ws f)
    (hun : Unharmed F) (hover : isOver .roundRobin F = true) :
    outcome .roundRobin F = Rota.outcome f := by
  rw [Rota.outcome]
  cases hfailure : f.failure with
  | some e => exact h.outcome_of_failure hun hfailure
  | none =>
    have habort := h.abort_of_calm hun hfailure
    rw [isOver, habort, Bool.and_false, Bool.or_false, List.all_eq_true] at hover
    have hcount : f.done.count false = 0 := by
      rw [h.done_eq habort]
      refine List.count_eq_zero.mpr fun hmem => ?_
      obtain ⟨s, hs, hopen⟩ := List.mem_map.mp hmem
      exact Bool.noConfusion (hopen.symm.trans (hover s hs))
    have hrota : f.isOver = true := by
      rw [Rota.isOver, hkept.pending_eq, hcount]
      rfl
    rw [if_pos hrota]
    exact h.outcome_of_calm hun hfailure hover

end Follows

end Drive

section Verdicts

variable {ω : Type} [Worker ω]

/-- The answer of threads with a worker each: the reports in queue order if no poll has failed, and
else the failure of the first worker in queue order that has, whenever that was. -/
structure ThreadsVerdict (ws : List ω) (t : Threads ω)
    (answer : Except (Halt RunError) (List WorkerReport)) : Prop where
  ok_iff : (∃ reports, answer = .ok reports) ↔ ∀ p ∈ t.polls, p.failure? = none
  inOrder : ∀ reports, answer = .ok reports → reports.length = ws.length ∧
    ∀ (i : Nat) (report : WorkerReport), reports[i]? = some report →
      ∃ p ∈ t.polls, p.place = i ∧ (∃ status, p.answer = .ok (.done status)) ∧
        Worker.report p.worker = .ok report
  first : ∀ p ∈ t.polls, ∀ e, p.failure? = some e →
    (∀ p' ∈ t.polls, p'.failure?.isSome → p.place ≤ p'.place) →
    ∃ w, ws[p.place]? = some w ∧
      answer = .error (passOn .threadPerQueue ((Worker.queue w).id, e))

/-- The answer of workers that take turns. A poll that fails is the last one; by then the workers
before it have been polled once more than those after it. -/
structure TurnsVerdict (n : Nat) (f : Rota ω)
    (answer : Except (Halt RunError) (List WorkerReport)) : Prop where
  inTurn : Rota.InTurn n f.visits
  ordered : ∀ earlier u between v later, f.visits = earlier ++ u :: between ++ v :: later →
    Prod.Lex (· < ·) (· < ·) (Rota.polledAt u.place earlier, u.place)
      (Rota.polledAt v.place (earlier ++ u :: between), v.place)
  failed : ∀ v ∈ f.visits, ∀ e, v.failure? = some e → answer = .error (e.map .worker) ∧
    ∃ earlier, f.visits = earlier ++ [v] ∧ (∀ u ∈ earlier, u.failure? = none) ∧
      ∀ i j, i < v.place → v.place < j → f.done[i]? = some false → f.done[j]? = some false →
        Rota.polledAt i f.visits = Rota.polledAt j f.visits + 1
  reported : f.isOver → (∀ v ∈ f.visits, v.failure? = none) →
    answer = f.workers.mapM fun w => (Worker.report w).mapError .fault

/-- Which failure workers come to. On threads it does not depend on the order of their polls, of
which that of a run is one. In turns it does not depend on what happens in between, and a run in
which no worker goes down is a row of such turns. -/
structure ReturnsFirst (ws : List ω) (card : Card) : Prop where
  threads : ∀ row : List ThreadStep, ((Threads.start ws card).steps row).Joined →
    ThreadsVerdict ws ((Threads.start ws card).steps row)
      (outcome .threadPerQueue ((Threads.start ws card).steps row).toFloor)
  run_threads : ∀ (η : Type) [Hardware η] (shutdown : Bool) (h : η), ∃ row : List ThreadStep,
    ((Threads.start ws card).steps row).toFloor = lastFloor .threadPerQueue shutdown ws h card ∧
      (run .threadPerQueue shutdown ws h card).1 =
        outcome .threadPerQueue ((Threads.start ws card).steps row).toFloor
  turns : ∀ (fuel : Nat) (moments : Nat → Nat → Moment),
    TurnsVerdict ws.length (Rota.loop fuel moments (Rota.start ws card))
      (Rota.outcome (Rota.loop fuel moments (Rota.start ws card)))
  run_turns : ∀ (η : Type) [Hardware η] (shutdown : Bool) (h : η),
    isOver .roundRobin (lastFloor .roundRobin shutdown ws h card) = true →
    Unharmed (lastFloor .roundRobin shutdown ws h card) →
    ∃ row : List (Moment × Nat), Rota.Cyclic ws.length row ∧
      (Rota.turns row (Rota.start ws card)).workers = (run .roundRobin shutdown ws h card).2.1 ∧
      (Rota.turns row (Rota.start ws card)).card = (run .roundRobin shutdown ws h card).2.2.2 ∧
      TurnsVerdict ws.length (Rota.turns row (Rota.start ws card))
        (run .roundRobin shutdown ws h card).1

theorem threadsVerdict {ws : List ω} {t : Threads ω} (h : Threads.Told ws t) (hj : t.Joined) :
    ThreadsVerdict ws t (outcome .threadPerQueue t.toFloor) :=
  ⟨h.outcome_eq_ok_iff hj _, fun _ hok => h.of_reported (outcome_eq_ok.mp hok),
    fun _ hp _ he hfirst => h.outcome_of_first hp he hfirst⟩

theorem turnsVerdict [MeteredWorker ω] {ws : List ω} {card : Card} {row : List (Moment × Nat)}
    (hrow : Rota.Cyclic ws.length row) :
    TurnsVerdict ws.length (Rota.turns row (Rota.start ws card))
      (Rota.outcome (Rota.turns row (Rota.start ws card))) := by
  have hkept := (Rota.kept_start ws card).turns row
  have hblamed := (Rota.blamed_start ws card).turns row
  have hturn : Rota.InTurn ws.length (Rota.turns row (Rota.start ws card)).visits :=
    Rota.inTurn_turns hrow
  refine ⟨hturn, fun _ _ _ _ _ h => Rota.lex_of_inTurn hkept hturn h, fun v hv e he => ?_,
    fun hover hcalm => ?_⟩
  · obtain ⟨hfailure, earlier, hvisits, hnone⟩ := hblamed.failing_last hv he
    refine ⟨?_, earlier, hvisits, hnone, fun i j => Rota.polledAt_of_last hkept hturn hvisits⟩
    rw [Rota.outcome, hfailure]
  · rw [Rota.outcome, hblamed.failure_eq_none.mpr hcalm, if_pos hover]

variable [MeteredWorker ω] [ObedientWorker ω]

theorem returnsFirst (ws : List ω) (card : Card) : ReturnsFirst ws card where
  threads row := threadsVerdict ((Threads.told_start ws card).steps row)
  run_threads η _ shutdown h := by
    obtain ⟨row, -, hrow⟩ := Threads.exists_steps_sweeps .threadPerQueue (sweepsLeft ws) h
      ((Threads.start ws card).step (.ask shutdown))
    exact ⟨.ask shutdown :: row, hrow, congrArg (outcome .threadPerQueue) hrow.symm⟩
  turns fuel moments := by
    obtain ⟨row, hloop, hrow⟩ := Rota.exists_cyclic_loop fuel moments (Rota.start ws card)
    rw [hloop]
    exact turnsVerdict hrow
  run_turns η _ shutdown h hover hun := by
    obtain ⟨row, hrow, hfollows⟩ := (follows_start ws card).sweeps shutdown (sweepsLeft ws) h
    refine ⟨row, hrow, hfollows.workers_eq, hfollows.card_eq, ?_⟩
    have hanswer : (run .roundRobin shutdown ws h card).1 =
        Rota.outcome (Rota.turns row (Rota.start ws card)) :=
      hfollows.outcome_eq ((Rota.kept_start ws card).turns row) hun hover
    rw [hanswer]
    exact turnsVerdict hrow

end Verdicts

/-- Workers of either direction come to the failure of the first of them, over any sinks and any
sources. -/
theorem first_failure_returned {σ τ : Type} [ByteSink σ] [PacketSource τ] (rx : List (RxWorker σ))
    (tx : List (TxWorker τ)) (card : Card) : ReturnsFirst rx card ∧ ReturnsFirst tx card :=
  ⟨returnsFirst rx card, returnsFirst tx card⟩

def trioSpec : CardSpec where
  rxQueues := 1
  txQueues := 3
  ringCapacity := 2
  slotSize := 1

def trioConfig : Config where
  batchSize := 1
  tx := { queues := 3, packetLen := 1, rounds := 2 }

def trioCard : Card :=
  (Card.create trioSpec).toOption.get rfl

def trioWorkers (sources : List ScriptedSource) : List (TxWorker ScriptedSource) :=
  Transmit.workers trioConfig ((setup "0" .tx 3 none trioCard).1.toOption.get rfl).queues sources

def openedCard : Card :=
  (setup "0" .tx 3 none trioCard).2

def lateWorkers : List (TxWorker ScriptedSource) :=
  trioWorkers [{ cues := [.fill 1, .fault] }, { cues := [.fail] }, { cues := [.fill 1, .fill 1] }]

/-- By the time that the first worker goes down the second has failed. Only after that the flag is
raised, and the third is cancelled. -/
def lateThreads : Threads (TxWorker ScriptedSource) :=
  (Threads.start lateWorkers openedCard).steps [.poll 0, .poll 1, .poll 0, .raise 1, .poll 2]

def middleWorkers : List (TxWorker ScriptedSource) :=
  trioWorkers
    [{ cues := [.fill 1, .fill 1] }, { cues := [.fill 1, .fail] }, { cues := [.fill 1, .fill 1] }]

def middleRota : Rota (TxWorker ScriptedSource) :=
  Rota.loop 2 (fun _ _ => calmMoment false) (Rota.start middleWorkers openedCard)

theorem lateFailures_returned :
    lateThreads.Joined ∧
    lateThreads.polls.map (fun p => (p.place, p.failure?)) =
      [(0, none), (1, some (.refused (.source ⟨.tx, 1⟩ (.other "source failed")))),
        (0, some (.fault (.collaborator "source panicked"))), (2, none)] ∧
    outcome .threadPerQueue lateThreads.toFloor = .error (.refused (.workerFault ⟨.tx, 0⟩)) ∧
    middleRota.visits.map (fun v => (v.place, v.failure?)) =
      [(0, none), (1, none), (2, none), (0, none),
        (1, some (.refused (.source ⟨.tx, 1⟩ (.other "source failed"))))] ∧
    middleRota.outcome =
      .error (.refused (.worker (.source ⟨.tx, 1⟩ (.other "source failed")))) ∧
    Rota.polledAt 0 middleRota.visits = Rota.polledAt 2 middleRota.visits + 1 ∧
    isOver .roundRobin (lastFloor .roundRobin false middleWorkers () openedCard) = true ∧
    Unharmed (lastFloor .roundRobin false middleWorkers () openedCard) ∧
    ∃ row : List (Moment × Nat), Rota.Cyclic 3 row ∧
      TurnsVerdict 3 (Rota.turns row (Rota.start middleWorkers openedCard))
        (run .roundRobin false middleWorkers () openedCard).1 := by
  have hjoined : lateThreads.Joined := List.all_eq_true.mp (by cbv)
  have hpolls : lateThreads.polls.map (fun p => (p.place, p.failure?)) =
      [(0, none), (1, some (.refused (.source ⟨.tx, 1⟩ (.other "source failed")))),
        (0, some (.fault (.collaborator "source panicked"))), (2, none)] := by cbv
  have hvisits : middleRota.visits.map (fun v => (v.place, v.failure?)) =
      [(0, none), (1, none), (2, none), (0, none),
        (1, some (.refused (.source ⟨.tx, 1⟩ (.other "source failed"))))] := by cbv
  have hdone : middleRota.done = [false, false, false] := by cbv
  have hover : isOver .roundRobin (lastFloor .roundRobin false middleWorkers () openedCard) =
      true := by cbv
  have hunharmed : Unharmed (lastFloor .roundRobin false middleWorkers () openedCard) := by
    have hended : (lastFloor .roundRobin false middleWorkers () openedCard).stations.map
        Station.ended =
        [none, some (.error (.refused (.source ⟨.tx, 1⟩ (.other "source failed")))), none] := by cbv
    intro s hs e he
    have hmem := List.mem_map_of_mem (f := Station.ended) hs
    rw [hended, he] at hmem
    simp at hmem
  have hlate :=
    (first_failure_returned ([] : List (RxWorker ScriptedSink)) lateWorkers openedCard).2
  have hmiddle :=
    (first_failure_returned ([] : List (RxWorker ScriptedSink)) middleWorkers openedCard).2
  obtain ⟨p, hp, hfail⟩ : ∃ p ∈ lateThreads.polls, (p.place, p.failure?) =
      (0, some (.fault (.collaborator "source panicked"))) := List.mem_map.mp (hpolls ▸ by simp)
  obtain ⟨v, hv, hfail'⟩ : ∃ v ∈ middleRota.visits, (v.place, v.failure?) =
      (1, some (.refused (.source ⟨.tx, 1⟩ (.other "source failed")))) :=
    List.mem_map.mp (hvisits ▸ by simp)
  obtain ⟨hplace, he⟩ := Prod.mk.inj hfail
  obtain ⟨hplace', he'⟩ := Prod.mk.inj hfail'
  obtain ⟨w, hw, hanswer⟩ :=
    (hlate.threads _ hjoined).first p hp _ he fun _ _ _ => hplace ▸ Nat.zero_le _
  rw [hplace] at hw
  cases hw
  obtain ⟨houtcome, earlier, -, -, hcounts⟩ :=
    (hmiddle.turns 2 fun _ _ => calmMoment false).failed v hv _ he'
  obtain ⟨row, hrow, -, -, hverdict⟩ := hmiddle.run_turns Unit false () hover hunharmed
  refine ⟨hjoined, hpolls, hanswer, hvisits, houtcome, hcounts 0 2 ?_ ?_ ?_ ?_, hover, hunharmed,
    row, hrow, hverdict⟩
  · omega
  · omega
  · rw [← middleRota, hdone]
    rfl
  · rw [← middleRota, hdone]
    rfl

end DmaBurst
