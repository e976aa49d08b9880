import DmaBurst.Proofs.Run.Interleaving
import DmaBurst.Proofs.Run.Rota
import DmaBurst.Proofs.Worker.StaticReceive
import DmaBurst.Proofs.Worker.Status

namespace DmaBurst

open MeteredWorker Worker

namespace Drive

open Rota (Open)

section Mirrors

variable {ω η : Type} [Worker ω] {F : Floor ω} {f : Rota ω} {card : Card} {abort : Bool}
  {pre rest : List (Station ω)} {s : Station ω}

/-- A floor on which everything is where the turns of a rota have brought it. It also stops at a
worker that is done and cannot report: a rota has no reports. -/
structure Mirrors (F : Floor ω) (f : Rota ω) : Prop where
  workers_eq : f.workers = F.stations.map Station.worker
  card_eq : f.card = F.card
  calm : F.abort = false → f.failure = none
  done_eq : F.abort = false → f.done = F.stations.map (·.ended.isSome)
  failed : F.abort = true →
    f.failure.isSome ∨ ∃ s ∈ F.stations, ∃ e, Worker.report s.worker = .error e

theorem mirrors_start (ws : List ω) (card : Card) :
    Mirrors (start ws card) (Rota.start ws card) := by
  refine ⟨?_, rfl, fun _ => rfl, fun _ => ?_, fun habort => by cases habort⟩
  · simp [start, Rota.start, Function.comp_def]
  · simp [start, Rota.start, Function.comp_def]

theorem Mirrors.act (h : Mirrors F f) (act : Card → Card) :
    Mirrors { F with card := act F.card } (Rota.visit ⟨[], act⟩ f.workers.length f) := by
  rw [Rota.visit]
  dsimp only
  split
  · next w hw _ =>
    rw [List.getElem?_eq_none le_rfl] at hw
    cases hw
  · exact ⟨h.workers_eq, congrArg act h.card_eq, h.calm, h.done_eq, h.failed⟩

def calmMoment (shutdown : Bool) : Moment where
  flags := [shutdown, false]

theorem Mirrors.step (h : Mirrors ⟨pre ++ s :: rest, false, card⟩ f) (shutdown : Bool) :
    Mirrors
      ⟨pre ++ (step shutdown s false card).1 :: rest, (step shutdown s false card).2.1,
        (step shutdown s false card).2.2⟩
      (Rota.visit (calmMoment shutdown) pre.length f) := by
  have hcalm : f.failure = none := h.calm rfl
  have hdone : f.done = (pre ++ s :: rest).map (·.ended.isSome) := h.done_eq rfl
  have hworker : f.workers[pre.length]? = some s.worker := by
    rw [h.workers_eq, List.getElem?_map]
    simp
  have hmark : f.done[pre.length]? = some s.ended.isSome := by
    rw [hdone, List.getElem?_map]
    simp
  have hcard : (calmMoment shutdown).act f.card = card := h.card_eq
  rw [Drive.step, Rota.visit]
  dsimp only
  rw [hcard, hcalm, hworker, hmark]
  cases he : s.ended.isSome with
  | true => exact ⟨h.workers_eq, rfl, fun _ => rfl, fun _ => hdone, fun habort => by cases habort⟩
  | false =>
    have hflags : (calmMoment shutdown).flags = [shutdown, false] := rfl
    simp only [Bool.false_eq_true, if_false, hflags, Bool.false_or, pollAt_card]
    rcases pollOn [shutdown, false] s.worker card with ⟨answer, w', card'⟩
    rw [List.map_append, List.map_cons, he] at hdone
    refine ⟨?_, ?_, fun hok => ?_, fun hok => ?_, fun hfailed => ?_⟩
    · simp [h.workers_eq]
    · rcases answer with _ | _ | _ | _ <;> rfl
    · rcases answer with _ | _ | _ | _
      · cases hok
      · rfl
      · rfl
      · rfl
    · rcases answer with _ | _ | _ | _
      · cases hok
      · simpa [Rota.settle, ending] using hdone
      · simpa [Rota.settle, ending] using hdone
      · simp [Rota.settle, ending, hdone]
    · rcases answer with _ | _ | _ | _
      · exact .inl rfl
      · cases hfailed
      · cases hfailed
      · refine .inr ⟨_, List.mem_append_right _ List.mem_cons_self, ?_⟩
        cases hreport : Worker.report w' with
        | error e => exact ⟨e, rfl⟩
        | ok report => simp [Drive.failed, ending, hreport, Except.mapError, Except.isOk,
            Except.toBool] at hfailed

theorem Mirrors.sweepStations (h : Mirrors ⟨pre ++ rest, abort, card⟩ f) (shutdown : Bool) :
    ∃ m, Mirrors
        ⟨pre ++ (sweepStations .roundRobin shutdown rest abort card).1,
          (sweepStations .roundRobin shutdown rest abort card).2.1,
          (sweepStations .roundRobin shutdown rest abort card).2.2⟩
        (Rota.turns ((List.range' pre.length m).map fun i => (calmMoment shutdown, i)) f) ∧
      ((sweepStations .roundRobin shutdown rest abort card).2.1 = false → m = rest.length) := by
  induction rest generalizing pre abort card f with
  | nil => exact ⟨0, h, fun _ => rfl⟩
  | cons s rest ih =>
    rw [Drive.sweepStations]
    cases abort with
    | true => exact ⟨0, h, fun habort => by cases habort⟩
    | false =>
      have hstep := h.step shutdown
      rw [List.append_cons] at hstep
      obtain ⟨m, hm, hall⟩ := ih hstep
      refine ⟨m + 1, ?_, fun habort => congrArg Nat.succ (hall habort)⟩
      rw [List.range'_succ, List.map_cons, Rota.turns_cons]
      rw [List.length_append, List.length_singleton] at hm
      simpa using hm

theorem sweeps_of_isOver [Hardware η] {schedule : Schedule} (hover : isOver schedule F = true)
    (shutdown : Bool) (fuel : Nat) (h : η) : sweeps schedule shutdown fuel h F = (h, F) := by
  cases fuel with
  | zero => rfl
  | succ fuel => rw [sweeps, if_pos hover]

theorem Mirrors.sweeps [MeteredWorker ω] [Hardware η] (hf : Mirrors F f) (shutdown : Bool)
    (fuel : Nat) (h : η) :
    ∃ row, Mirrors (sweeps .roundRobin shutdown fuel h F).2 (Rota.turns row f) ∧
      (isOver .roundRobin (sweeps .roundRobin shutdown fuel h F).2 = false →
        ∀ i < f.workers.length, row.countP (·.2 = i) = fuel) := by
  induction fuel generalizing h F f with
  | zero => exact ⟨[], hf, fun _ _ _ => rfl⟩
  | succ fuel ih =>
    rw [Drive.sweeps]
    split
    · next hover => exact ⟨[], hf, fun hn => by rw [hover] at hn; cases hn⟩
    · next hgoes =>
      obtain ⟨h', card, hact⟩ : ∃ h' card, Hardware.act h F.card = (h', card) := ⟨_, _, rfl⟩
      have hcard : (Hardware.act h F.card).2 = card := congrArg Prod.snd hact
      rw [Ground.onCard_card, hact]
      dsimp only
      have hfirst := hf.act fun card => (Hardware.act h card).2
      rw [hcard, ← List.nil_append F.stations] at hfirst
      obtain ⟨m, hsweep, hall⟩ := hfirst.sweepStations shutdown
      obtain ⟨row, hrow, hcount⟩ := ih hsweep h'
      refine ⟨(⟨[], fun card => (Hardware.act h card).2⟩, f.workers.length) ::
        (List.range' 0 m).map (fun i => (calmMoment shutdown, i)) ++ row, ?_, fun hn i hi => ?_⟩
      · rw [Rota.turns_append]
        exact hrow
      · have habort : (sweep .roundRobin shutdown { F with card }).abort = false := by
          by_contra hfailed
          have hover : isOver .roundRobin (sweep .roundRobin shutdown { F with card }) = true := by
            rw [isOver, Bool.eq_true_of_not_eq_false hfailed]
            simp
          rw [sweeps_of_isOver hover, hover] at hn
          cases hn
        have hlength : f.workers.length = F.stations.length := by
          rw [hf.workers_eq, List.length_map]
        have hm : m = f.workers.length := (hall habort).trans hlength.symm
        have hplace : f.workers.length ≠ i := (Nat.ne_of_lt hi).symm
        rw [List.cons_append, List.countP_cons_of_neg (by simpa using hplace), List.countP_append,
          ← List.range_eq_range', Rota.countP_sweep _ (hm ▸ hi), hcount hn i ?_, Nat.add_comm]
        rwa [Rota.length_turns, Rota.length_visit]

theorem Mirrors.exists_open (hf : Mirrors F f) (hover : isOver .roundRobin F = false) :
    ∃ i, Open i f := by
  rw [isOver, Bool.or_eq_false_iff, decide_eq_true rfl, Bool.true_and, List.all_eq_false] at hover
  obtain ⟨⟨s, hs, hpolled⟩, habort⟩ := hover
  have hmem : false ∈ f.done := by
    rw [hf.done_eq habort, ← Bool.eq_false_of_not_eq_true hpolled]
    exact List.mem_map_of_mem hs
  obtain ⟨i, hi⟩ := List.mem_iff_getElem?.mp hmem
  have hlt := (List.getElem?_eq_some_iff.mp hi).1
  rw [hf.done_eq habort, List.length_map] at hlt
  refine ⟨i, hf.calm habort, ?_, hi⟩
  rwa [hf.workers_eq, List.length_map]

end Mirrors

theorem isOver_sweeps {ω η : Type} [Worker ω] [MeteredWorker ω] [Hardware η] {ws : List ω}
    {caps : List Nat} (hcaps : ws.map maxPolls = caps.map some)
    (hleft : ∀ w ∈ ws, ∀ cap, maxPolls w = some cap → cap - polls w ≤ pollsLeft w)
    (shutdown : Bool) (h : η) (card : Card) :
    isOver .roundRobin (sweeps .roundRobin shutdown (sweepsLeft ws) h (start ws card)).2 =
      true := by
  by_contra hn
  have hover := Bool.eq_false_of_not_eq_true hn
  obtain ⟨row, hrow, hcount⟩ := (mirrors_start ws card).sweeps shutdown (sweepsLeft ws) h
  -- A worker that is still to be polled has had a turn in every sweep.
  obtain ⟨i, hopen⟩ := hrow.exists_open hover
  obtain ⟨w, hw⟩ := Rota.exists_worker_of_open hopen
  obtain ⟨cap, -, hmax⟩ := Rota.exists_cap hcaps hw
  have hturns := hopen.turns_le hw hmax
  have hpolls := hleft w (List.mem_of_getElem? hw) cap hmax
  have hsweeps := pollsLeft_lt_sweepsLeft (List.mem_of_getElem? hw)
  rw [hcount hover i (List.getElem?_eq_some_iff.mp hw).1] at hturns
  omega

end Drive

section RunsOut

variable {ω : Type} [Worker ω] [MeteredWorker ω] {ws : List ω} {caps : List Nat}

/-- Whatever happens around the polls of a worker, it makes no more bursts than its cap leaves it,
and the poll after the last of them is the last poll. -/
theorem pollAmid_capped {w : ω} {cap : Nat} (hcap : maxPolls w = some cap)
    (later : List Happening) (r : PacketRing) :
    ∃ answer polled w' r', pollAmid later w r = (answer, polled, w', r') ∧
      polls w' = polls w + bursts polled ∧ bursts polled ≤ cap - polls w ∧
      polled.length ≤ bursts polled + 1 ∧
      (cap - polls w < later.countP (·.isPoll) → answer.isSome) := by
  obtain ⟨answer, polled, w', r', hrun, hmetered, hle, hnone⟩ := metered_pollAmid later w r
  have hbursts := hmetered.bursts_le hcap
  refine ⟨answer, polled, w', r', hrun, hmetered.polls_eq, hbursts, hle, fun hlater => ?_⟩
  cases answer with
  | some result => rfl
  | none =>
    obtain ⟨hlength, hcount⟩ := hnone rfl
    omega

/-- Workers with the poll caps `caps` come to an end, whatever happens around their polls: each
alone, and all of them in turns. -/
structure RunsOut (ws : List ω) (caps : List Nat) : Prop where
  alone : ∀ (i : Nat) (w : ω) (cap : Nat), ws[i]? = some w → caps[i]? = some cap →
    ∀ (later : List Happening) (r : PacketRing), ∃ answer polled w' r',
      pollAmid later w r = (answer, polled, w', r') ∧
      polls w' = polls w + bursts polled ∧ bursts polled ≤ cap ∧ polled.length ≤ cap + 1 ∧
      (cap + 1 ≤ later.countP (·.isPoll) → answer.isSome)
  run_returns : ∀ w ∈ ws, ∀ (flags : List Bool) (r : PacketRing), ∃ answer polled w' r',
    pollAmid (List.replicate (pollsLeft w + 1) (.poll flags)) w r =
        (some answer, polled, w', r') ∧
      Worker.run flags w r = (answer.bind fun _ => (report w').mapError .fault, w', r')
  inTurns : ∀ (card : Card) (row : List (Moment × Nat)),
    Rota.Within caps (Rota.turns row (Rota.start ws card))
  loop_returns : ∀ (card : Card) (moments : Nat → Nat → Moment) (fuel : Nat),
    (∀ cap ∈ caps, cap < fuel) →
      Rota.isOver (Rota.loop fuel moments (Rota.start ws card)) = true ∧
        ∃ row, Rota.loop fuel moments (Rota.start ws card) = Rota.turns row (Rota.start ws card)
  drive_mirrors : ∀ (η : Type) [Hardware η] (shutdown : Bool) (fuel : Nat) (h : η) (card : Card),
    ∃ row, Drive.Mirrors
      (Drive.sweeps .roundRobin shutdown fuel h (Drive.start ws card)).2
      (Rota.turns row (Rota.start ws card))
  drive_returns : ∀ (η : Type) [Hardware η] (shutdown : Bool) (h : η) (card : Card),
    Drive.isOver .roundRobin
      (Drive.sweeps .roundRobin shutdown (Drive.sweepsLeft ws) h (Drive.start ws card)).2 = true

theorem runsOut_of_caps (hcaps : ws.map maxPolls = caps.map some)
    (hleft : ∀ w ∈ ws, ∀ cap, maxPolls w = some cap → cap - polls w ≤ pollsLeft w) :
    RunsOut ws caps where
  alone i w cap hw hcap later r := by
    obtain ⟨cap', hcap', hmax⟩ := Rota.exists_cap hcaps hw
    cases hcap.symm.trans hcap'
    obtain ⟨answer, polled, w', r', hrun, hpolls, hbursts, hle, hends⟩ :=
      pollAmid_capped hmax later r
    exact ⟨answer, polled, w', r', hrun, hpolls, by omega, by omega, fun hl => hends (by omega)⟩
  run_returns w hw flags r := by
    obtain ⟨i, hi⟩ := List.mem_iff_getElem?.mp hw
    obtain ⟨cap, -, hmax⟩ := Rota.exists_cap hcaps hi
    obtain ⟨answer, polled, w', r', hrun, -, -, -, hends⟩ :=
      pollAmid_capped hmax (List.replicate (pollsLeft w + 1) (.poll flags)) r
    have hcount : (List.replicate (pollsLeft w + 1) (Happening.poll flags)).countP (·.isPoll) =
        pollsLeft w + 1 := by
      simp [List.countP_replicate, Happening.isPoll]
    have hle := hleft w hw cap hmax
    obtain ⟨result, rfl⟩ := Option.isSome_iff_exists.mp (hends (by omega))
    refine ⟨result, polled, w', r', hrun, ?_⟩
    rw [Worker.run, pollUntilDone_eq_pollAmid, hrun]
    rfl
  inTurns card row := ((Rota.kept_start ws card).turns row).within hcaps
  loop_returns card moments fuel hfuel := by
    obtain ⟨row, hrow, -⟩ := Rota.exists_turns_loop fuel moments (Rota.start ws card)
    exact ⟨Rota.isOver_loop hcaps hfuel moments card, row, hrow⟩
  drive_mirrors _ _ shutdown fuel h card := by
    obtain ⟨row, hrow, -⟩ := (Drive.mirrors_start ws card).sweeps shutdown fuel h
    exact ⟨row, hrow⟩
  drive_returns _ _ shutdown h card := Drive.isOver_sweeps hcaps hleft shutdown h card

end RunsOut

/-- Capped workers of either direction run out, over any sinks and any sources. -/
theorem capped_runs_end {σ τ : Type} [ByteSink σ] [PacketSource τ] {rx : List (RxWorker σ)}
    {tx : List (TxWorker τ)} {rxCaps txCaps : List Nat}
    (hrx : rx.map RxWorker.maxPolls = rxCaps.map some)
    (htx : tx.map TxWorker.maxPolls = txCaps.map some) :
    RunsOut rx rxCaps ∧ RunsOut tx txCaps := by
  refine ⟨runsOut_of_caps hrx fun w _ cap hcap => ?_, runsOut_of_caps htx fun w _ cap hcap => ?_⟩
  · have hmax : w.maxPolls = some cap := hcap
    simp [pollsLeft, polls, hmax]
  · have hmax : w.maxPolls = some cap := hcap
    simp [pollsLeft, polls, hmax]

/-- Two receiving workers, one of which may not acquire at all, and a transmitting one. -/
theorem smallCaps_run_out :
    [RxWorker.openSinkWorker 10 (some 4), RxWorker.openSinkWorker 3 (some 0)].map
        RxWorker.maxPolls = [4, 0].map some ∧
      [{ TxWorker.singlePacketWorker with maxPolls := some 2 }].map TxWorker.maxPolls =
        [2].map some ∧
      RunsOut [RxWorker.openSinkWorker 10 (some 4), RxWorker.openSinkWorker 3 (some 0)] [4, 0] ∧
      RunsOut [{ TxWorker.singlePacketWorker with maxPolls := some 2 }] [2] :=
  ⟨rfl, rfl, capped_runs_end rfl rfl⟩

end DmaBurst
