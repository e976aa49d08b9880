import DmaBurst.Proofs.Run.Mishap

namespace DmaBurst

open Drive

structure ThreadPoll (ω : Type) where
  place : Nat
  answer : Except (Halt WorkerError) Poll
  worker : ω

structure Threads (ω : Type) (κ : Type := Card) extends Floor ω κ where
  shutdown : Bool := false
  polls : List (ThreadPoll ω) := []

/-- One step of one party: a thread polls its worker, or raises the flag for its worker has failed;
a caller asks for shutdown or takes that back; the hardware acts. -/
inductive ThreadStep where
  | poll (i : Nat)
  | raise (i : Nat)
  | ask (shutdown : Bool)
  | hardware (act : Card → Card)

section Steps

variable {ω κ : Type} [Worker ω] [Ground κ] [Polled ω κ]

namespace ThreadPoll

def ending (p : ThreadPoll ω) : Option (Except (Halt WorkerError) WorkerReport) :=
  Drive.ending p.worker p.answer

/-- What the worker fails of in this poll, if it does. A report that cannot be made is a failure. -/
def failure? (p : ThreadPoll ω) : Option (Halt WorkerError) :=
  match p.ending with
  | some (.error e) => some e
  | _ => none

theorem failure?_eq_some {p : ThreadPoll ω} {e : Halt WorkerError} :
    p.failure? = some e ↔ p.ending = some (.error e) := by
  rw [failure?]
  rcases p.ending with _ | _ | _ <;> simp

theorem ending_eq_ok {p : ThreadPoll ω} {report : WorkerReport} :
    p.ending = some (.ok report) ↔
      (∃ status, p.answer = .ok (.done status)) ∧ Worker.report p.worker = .ok report := by
  rw [ending]
  rcases p.answer with e | _ | _ | status
  · simp [Drive.ending]
  · simp [Drive.ending]
  · simp [Drive.ending]
  · cases hr : Worker.report p.worker <;> simp [Drive.ending, hr, Except.mapError]

end ThreadPoll

namespace Threads

def start (ws : List ω) (card : κ) : Threads ω κ :=
  { Drive.start ws card with }

def step : ThreadStep → Threads ω κ → Threads ω κ
  | .poll i, t =>
    match t.stations[i]? with
    | some ⟨w, none⟩ =>
      let (answer, w, card) := Polled.pollAt [t.shutdown, t.abort] w t.card
      { t with
        stations := t.stations.set i ⟨w, ending w answer⟩
        card
        polls := t.polls ++ [⟨i, answer, w⟩] }
    | _ => t
  | .raise i, t => { t with abort := t.abort || (t.stations[i]?).any failed }
  | .ask shutdown, t => { t with shutdown }
  | .hardware act, t => { t with card := (Ground.onCard (fun card => ((), act card)) t.card).2 }

def steps (row : List ThreadStep) (t : Threads ω κ) : Threads ω κ :=
  row.foldl (fun t x => t.step x) t

def Joined (t : Threads ω) : Prop :=
  ∀ s ∈ t.stations, s.ended.isSome

/-- A thread is as the last of its polls has left it, and has ended with that one or not at all. -/
structure Told (ws : List ω) (t : Threads ω) : Prop where
  length_eq : t.stations.length = ws.length
  id_eq : ∀ {i : Nat} {s : Station ω} {w : ω}, t.stations[i]? = some s → ws[i]? = some w →
    (Worker.queue s.worker).id = (Worker.queue w).id
  of_poll : ∀ p ∈ t.polls, p.ending.isSome → ∃ s, t.stations[p.place]? = some s ∧
    s.ended = p.ending
  of_station : ∀ {i : Nat} {s : Station ω}, t.stations[i]? = some s → s.ended.isSome →
    ∃ p ∈ t.polls, p.place = i ∧ p.ending = s.ended

variable {ws : List ω} {t : Threads ω}

theorem told_start (ws : List ω) (card : Card) : Told ws (start ws card) := by
  have hget : ∀ {i : Nat} {s : Station ω}, (start ws card).stations[i]? = some s →
      ∃ w, ws[i]? = some w ∧ { worker := w } = s := fun hs =>
    Option.map_eq_some_iff.mp ((List.getElem?_map ..).symm.trans hs)
  refine ⟨List.length_map _, fun hs hw => ?_, fun p hp => absurd hp List.not_mem_nil,
    fun hs he => ?_⟩
  · obtain ⟨w', hw', rfl⟩ := hget hs
    cases hw.symm.trans hw'
    rfl
  · obtain ⟨w, -, rfl⟩ := hget hs
    cases he

variable [ObedientWorker ω]

theorem Told.poll (h : Told ws t) (i : Nat) : Told ws (t.step (.poll i)) := by
  rw [step]
  split
  · next w hi =>
    rw [pollAt_card]
    have hid : (Worker.queue (pollOn [t.shutdown, t.abort] w t.card).2.1).id =
        (Worker.queue w).id :=
      pollOn_kept (g := fun w => (Worker.queue w).id) ObedientWorker.poll_id _ w t.card
    have hlt := (List.getElem?_eq_some_iff.mp hi).1
    rcases hpoll : pollOn [t.shutdown, t.abort] w t.card with ⟨answer, w', card'⟩
    rw [hpoll] at hid
    dsimp only
    refine ⟨(List.length_set ..).trans h.length_eq, fun hs hw => ?_, fun p hp he => ?_,
      fun hs he => ?_⟩
    · obtain ⟨rfl, rfl⟩ | ⟨-, hs⟩ := Card.getElem?_set_cases hs
      · exact hid.trans (h.id_eq hi hw)
      · exact h.id_eq hs hw
    · rcases List.mem_append.mp hp with hp | hp
      · obtain ⟨s, hs, hended⟩ := h.of_poll p hp he
        -- the thread that is polled had not ended, so this is another one
        have hij : i ≠ p.place := by
          rintro rfl
          cases hi.symm.trans hs
          rw [← hended] at he
          cases he
        exact ⟨s, (List.getElem?_set_ne hij).trans hs, hended⟩
      · cases List.mem_singleton.mp hp
        exact ⟨_, List.getElem?_set_self hlt, rfl⟩
    · obtain ⟨rfl, rfl⟩ | ⟨-, hs⟩ := Card.getElem?_set_cases hs
      · exact ⟨_, List.mem_append_right _ (List.mem_singleton_self _), rfl, rfl⟩
      · obtain ⟨p, hp, hplace, hended⟩ := h.of_station hs he
        exact ⟨p, List.mem_append_left _ hp, hplace, hended⟩
  · exact h

theorem Told.step (h : Told ws t) (x : ThreadStep) : Told ws (t.step x) := by
  cases x with
  | poll i => exact h.poll i
  | raise i => exact ⟨h.length_eq, h.id_eq, h.of_poll, h.of_station⟩
  | ask shutdown => exact ⟨h.length_eq, h.id_eq, h.of_poll, h.of_station⟩
  | hardware act => exact ⟨h.length_eq, h.id_eq, h.of_poll, h.of_station⟩

theorem Told.steps (h : Told ws t) (row : List ThreadStep) : Told ws (t.steps row) := by
  induction row generalizing t with
  | nil => exact h
  | cons x row ih => exact ih (h.step x)

omit [ObedientWorker ω]

theorem Told.ended_eq_error (h : Told ws t) {i : Nat} {s : Station ω}
    (hs : t.stations[i]? = some s) {e : Halt WorkerError} :
    s.ended = some (.error e) ↔ ∃ p ∈ t.polls, p.place = i ∧ p.failure? = some e := by
  constructor
  · intro he
    obtain ⟨p, hp, hplace, hended⟩ := h.of_station hs (by rw [he]; rfl)
    exact ⟨p, hp, hplace, ThreadPoll.failure?_eq_some.mpr (hended.trans he)⟩
  · rintro ⟨p, hp, rfl, hfail⟩
    have hended := ThreadPoll.failure?_eq_some.mp hfail
    obtain ⟨s', hs', he⟩ := h.of_poll p hp (by rw [hended]; rfl)
    cases hs.symm.trans hs'
    exact he.trans hended

omit [Worker ω] in
theorem exists_reported_of_ok {stations : List (Station ω)}
    (h : ∀ s ∈ stations, ∃ report, s.ended = some (.ok report)) :
    ∃ reports : List WorkerReport,
      stations.map Station.ended = reports.map fun report => some (.ok report) := by
  induction stations with
  | nil => exact ⟨[], rfl⟩
  | cons s rest ih =>
    obtain ⟨⟨report, hs⟩, hrest⟩ := List.forall_mem_cons.mp h
    obtain ⟨reports, hreports⟩ := ih hrest
    exact ⟨report :: reports, by rw [List.map_cons, List.map_cons, hs, hreports]⟩

theorem Told.outcome_eq_ok_iff (h : Told ws t) (hj : t.Joined) (schedule : Schedule) :
    (∃ reports, outcome schedule t.toFloor = .ok reports) ↔ ∀ p ∈ t.polls, p.failure? = none := by
  simp only [outcome_eq_ok]
  constructor
  · rintro ⟨reports, hreported⟩ p hp
    refine Option.eq_none_iff_forall_ne_some.mpr fun e he => ?_
    have hended := ThreadPoll.failure?_eq_some.mp he
    obtain ⟨s, hs, hs'⟩ := h.of_poll p hp (by rw [hended]; rfl)
    obtain ⟨report, hreport⟩ := hreported.mem (List.mem_of_getElem? hs)
    cases hreport.symm.trans (hs'.trans hended)
  · intro hcalm
    refine exists_reported_of_ok fun s hs => ?_
    obtain ⟨i, hi⟩ := List.mem_iff_getElem?.mp hs
    obtain ⟨answer, he⟩ := Option.isSome_iff_exists.mp (hj s hs)
    cases answer with
    | ok report => exact ⟨report, he⟩
    | error e =>
      obtain ⟨p, hp, -, hfail⟩ := (h.ended_eq_error hi).mp he
      cases (hcalm p hp).symm.trans hfail

theorem Told.of_reported (h : Told ws t) {reports : List WorkerReport}
    (hr : Reported t.toFloor reports) :
    reports.length = ws.length ∧ ∀ (i : Nat) (report : WorkerReport), reports[i]? = some report →
      ∃ p ∈ t.polls, p.place = i ∧ (∃ status, p.answer = .ok (.done status)) ∧
        Worker.report p.worker = .ok report := by
  have hlength : t.stations.length = reports.length := by
    simpa using congrArg List.length hr
  refine ⟨hlength.symm.trans h.length_eq, fun i report hi => ?_⟩
  have hlt : i < t.stations.length := hlength ▸ (List.getElem?_eq_some_iff.mp hi).1
  have hs := List.getElem?_eq_getElem hlt
  obtain ⟨report', hi', he⟩ := hr.getElem? hs
  cases hi.symm.trans hi'
  obtain ⟨p, hp, hplace, hended⟩ := h.of_station hs (by rw [he]; rfl)
  exact ⟨p, hp, hplace, ThreadPoll.ending_eq_ok.mp (hended.trans he)⟩

theorem failure_eq_none {schedule : Schedule} {s : Station ω}
    (h : ∀ e, s.ended ≠ some (.error e)) : Drive.failure schedule s = none := by
  rw [Drive.failure]
  rcases he : s.ended with _ | e | report
  · rfl
  · exact absurd he (h e)
  · rfl

theorem Told.outcome_of_first (h : Told ws t) {p : ThreadPoll ω} (hp : p ∈ t.polls)
    {e : Halt WorkerError} (he : p.failure? = some e)
    (hfirst : ∀ p' ∈ t.polls, p'.failure?.isSome → p.place ≤ p'.place) :
    ∃ w, ws[p.place]? = some w ∧
      outcome .threadPerQueue t.toFloor =
        .error (passOn .threadPerQueue ((Worker.queue w).id, e)) := by
  have hended := ThreadPoll.failure?_eq_some.mp he
  obtain ⟨s, hs, hs'⟩ := h.of_poll p hp (by rw [hended]; rfl)
  have hlt := (List.getElem?_eq_some_iff.mp hs).1
  have hw := List.getElem?_eq_getElem (h.length_eq ▸ hlt)
  refine ⟨_, hw, ?_⟩
  rw [← h.id_eq hs hw]
  have hfail : Drive.failure .threadPerQueue s =
      some (passOn .threadPerQueue ((Worker.queue s.worker).id, e)) := by
    rw [Drive.failure, hs', hended]
    cases e <;> rfl
  have hfind : t.stations.findSome? (Drive.failure .threadPerQueue) =
      some (passOn .threadPerQueue ((Worker.queue s.worker).id, e)) := by
    refine List.findSome?_eq_some_iff.mpr
      ⟨t.stations.take p.place, s, t.stations.drop (p.place + 1), ?_, hfail, fun s' hs' => ?_⟩
    · obtain ⟨_, rfl⟩ := List.getElem?_eq_some_iff.mp hs
      rw [List.getElem_cons_drop, List.take_append_drop]
    · obtain ⟨j, hj⟩ := List.mem_iff_getElem?.mp hs'
      have hjlt := (List.getElem?_eq_some_iff.mp hj).1
      rw [List.length_take] at hjlt
      rw [List.getElem?_take_of_lt (by omega)] at hj
      refine failure_eq_none fun e' he' => ?_
      obtain ⟨p', hp', hplace, hfail'⟩ := (h.ended_eq_error hj).mp he'
      have hle := hfirst p' hp' (by rw [hfail']; rfl)
      omega
  rw [outcome, hfind]

theorem steps_append (row row' : List ThreadStep) (t : Threads ω κ) :
    t.steps (row ++ row') = (t.steps row).steps row' :=
  List.foldl_append

variable {t : Threads ω κ}

theorem exists_steps_step {pre rest : List (Station ω)} {s : Station ω}
    (hs : t.stations = pre ++ s :: rest) :
    ∃ row, (∀ act, .hardware act ∉ row) ∧ (t.steps row).shutdown = t.shutdown ∧
      (t.steps row).toFloor = ⟨pre ++ (Drive.step t.shutdown s t.abort t.card).1 :: rest,
        (Drive.step t.shutdown s t.abort t.card).2.1,
        (Drive.step t.shutdown s t.abort t.card).2.2⟩ := by
  obtain ⟨⟨stations, abort, card⟩, shutdown, polls⟩ := t
  obtain rfl : stations = pre ++ s :: rest := hs
  obtain ⟨w, ended⟩ := s
  cases ended with
  | some answer => exact ⟨[], fun _ => List.not_mem_nil, rfl, rfl⟩
  | none =>
    rcases hpoll : Polled.pollAt [shutdown, abort] w card with ⟨answer, w', card'⟩
    have hdrive : Drive.step shutdown ⟨w, none⟩ abort card =
        (⟨w', ending w' answer⟩, abort || failed ⟨w', ending w' answer⟩, card') := by
      rw [Drive.step, if_neg (by simp), hpoll]
    have hthread : step (.poll pre.length)
        ⟨⟨pre ++ ⟨w, none⟩ :: rest, abort, card⟩, shutdown, polls⟩ =
        ⟨⟨pre ++ ⟨w', ending w' answer⟩ :: rest, abort, card'⟩, shutdown,
          polls ++ [⟨pre.length, answer, w'⟩]⟩ := by
      simp [step, hpoll]
    have hraise : step (.raise pre.length)
        ⟨⟨pre ++ ⟨w', ending w' answer⟩ :: rest, abort, card'⟩, shutdown,
          polls ++ [⟨pre.length, answer, w'⟩]⟩ =
        ⟨⟨pre ++ ⟨w', ending w' answer⟩ :: rest, abort || failed ⟨w', ending w' answer⟩, card'⟩,
          shutdown, polls ++ [⟨pre.length, answer, w'⟩]⟩ := by
      simp [step]
    refine ⟨[.poll pre.length, .raise pre.length], by simp, ?_, ?_⟩
    · rw [steps, List.foldl_cons, List.foldl_cons, hthread, hraise]
      rfl
    · rw [steps, List.foldl_cons, List.foldl_cons, hthread, hraise, hdrive]
      rfl

omit [Worker ω] [Ground κ] [Polled ω κ] in
theorem toFloor_eq {stations : List (Station ω)} (hs : t.stations = stations) :
    t.toFloor = ⟨stations, t.abort, t.card⟩ := by
  rw [← hs]

theorem exists_steps_sweepStations (schedule : Schedule) {pre rest : List (Station ω)}
    (hs : t.stations = pre ++ rest) :
    ∃ row, (∀ act, .hardware act ∉ row) ∧ (t.steps row).shutdown = t.shutdown ∧
      (t.steps row).toFloor =
        ⟨pre ++ (sweepStations schedule t.shutdown rest t.abort t.card).1,
          (sweepStations schedule t.shutdown rest t.abort t.card).2.1,
          (sweepStations schedule t.shutdown rest t.abort t.card).2.2⟩ := by
  induction rest generalizing pre t with
  | nil => exact ⟨[], fun _ => List.not_mem_nil, rfl, toFloor_eq hs⟩
  | cons s rest ih =>
    rw [sweepStations]
    split
    · exact ⟨[], fun _ => List.not_mem_nil, rfl, toFloor_eq hs⟩
    · obtain ⟨first, hnone, hshutdown, hfirst⟩ := exists_steps_step hs
      have hstations : (t.steps first).stations =
          (pre ++ [(Drive.step t.shutdown s t.abort t.card).1]) ++ rest := by
        rw [hfirst, List.append_assoc]
        rfl
      obtain ⟨row, hnone', hshutdown', hrow⟩ := ih hstations
      refine ⟨first ++ row, fun act => ?_, ?_, ?_⟩
      · rw [List.mem_append, not_or]
        exact ⟨hnone act, hnone' act⟩
      · rw [steps_append, hshutdown', hshutdown]
      · rw [steps_append, hrow, hshutdown, hfirst, List.append_assoc]
        rfl

/-- On either schedule, the run itself is one of the interleavings, and its hardware the only one
that acts. -/
theorem exists_steps_sweeps {η : Type} [Hardware η] [LawfulGround κ] (schedule : Schedule)
    (fuel : Nat) (h : η) (t : Threads ω κ) :
    ∃ row, (∀ act, .hardware act ∈ row → ∃ h : η, act = fun card => (Hardware.act h card).2) ∧
      (t.steps row).toFloor = (sweeps schedule t.shutdown fuel h t.toFloor).2 := by
  have hnil : ∀ act : Card → Card, ThreadStep.hardware act ∈ [] →
      ∃ h : η, act = fun card => (Hardware.act h card).2 := fun _ hact => by cases hact
  induction fuel generalizing h t with
  | zero => exact ⟨[], hnil, rfl⟩
  | succ fuel ih =>
    rw [sweeps]
    split
    · exact ⟨[], hnil, rfl⟩
    · let acted : Threads ω κ := t.step (.hardware fun card => (Hardware.act h card).2)
      obtain ⟨h', card', hact⟩ : ∃ h' card', Ground.onCard (Hardware.act h) t.card = (h', card') :=
        ⟨_, _, rfl⟩
      have hcard : acted.card = card' :=
        (congrArg Prod.snd (LawfulGround.onCard_map (fun _ => ()) (Hardware.act h) t.card)).trans
          (congrArg Prod.snd hact)
      have hacted : acted.stations = [] ++ acted.stations := rfl
      obtain ⟨row, hnone, hshutdown, hrow⟩ := exists_steps_sweepStations schedule hacted
      obtain ⟨row', hlawful, hrow'⟩ := ih h' (acted.steps row)
      refine ⟨.hardware (fun card => (Hardware.act h card).2) :: (row ++ row'), fun act hact => ?_,
        ?_⟩
      · rcases List.mem_cons.mp hact with hact | hact
        · cases hact
          exact ⟨h, rfl⟩
        · exact hlawful act ((List.mem_append.mp hact).resolve_left (hnone act))
      · have hsplit : t.steps (.hardware (fun card => (Hardware.act h card).2) :: (row ++ row')) =
            (acted.steps row).steps row' := steps_append row row' acted
        rw [hsplit, hrow', hshutdown, hrow, hcard, hact]
        rfl

end Threads

end Steps

end DmaBurst
