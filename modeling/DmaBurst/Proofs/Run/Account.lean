import DmaBurst.Proofs.Run.Phases
import DmaBurst.Proofs.Run.Scene

namespace DmaBurst

section Calls

variable {σ : Type} [ByteSink σ]

def SinkCall.IsWrite : SinkCall → Prop
  | .write .. => True
  | .flush _ => False

def SinkCall.Takes : SinkCall → σ → σ → Prop
  | .write bytes answer, s, t => ByteSink.write bytes s = (answer, t)
  | .flush answer, s, t => ByteSink.flush s = (answer, t)

inductive Calls (s : σ) : List SinkCall → σ → Prop
  | nil : Calls s [] s
  | snoc {calls : List SinkCall} {call : SinkCall} {t u : σ} (h : Calls s calls t)
      (hc : call.Takes t u) : Calls s (calls ++ [call]) u

theorem Calls.append {s t u : σ} {calls calls' : List SinkCall} (h : Calls s calls t)
    (h' : Calls t calls' u) : Calls s (calls ++ calls') u := by
  induction h' with
  | nil => rwa [List.append_nil]
  | snoc _ hc ih =>
    rw [← List.append_assoc]
    exact ih.snoc hc

end Calls

namespace Effect

variable {calls : List SinkCall} {ended : Option (Except (Halt WorkerError) WorkerReport)}

/-- The calls on the sink of queue `i` in a poll, and what its worker returns if it does. -/
def ofPoll (i : Nat) (calls : List SinkCall)
    (ended : Option (Except (Halt WorkerError) WorkerReport)) : List Effect :=
  calls.map (.call i) ++ ended.toList.map (.ended i)

theorem worker?_ofPoll {i : Nat} (hwrites : ∀ call ∈ calls, call.IsWrite) :
    ∀ e ∈ ofPoll i calls ended, e.worker? = some i := by
  intro e he
  rcases List.mem_append.mp he with he | he
  · obtain ⟨call, hcall, rfl⟩ := List.mem_map.mp he
    cases call with
    | write => rfl
    | flush => cases hwrites _ hcall
  · obtain ⟨answer, -, rfl⟩ := List.mem_map.mp he
    rfl

theorem callsOn_ofPoll (i : Nat) : (ofPoll i calls ended).filterMap (callOn? i) = calls := by
  simp [ofPoll, List.filterMap_append, List.filterMap_map, Function.comp_def, callOn?]

theorem callsOn_ofPoll_of_ne {i j : Nat} (hwrites : ∀ call ∈ calls, call.IsWrite) (hij : i ≠ j) :
    (ofPoll i calls ended).filterMap (callOn? j) = [] :=
  List.filterMap_eq_nil_iff.mpr fun e he => callOn?_eq_none (worker?_ofPoll hwrites e he) hij

theorem ended_mem_ofPoll {i j : Nat} {answer : Except (Halt WorkerError) WorkerReport} :
    .ended j answer ∈ ofPoll i calls ended ↔ i = j ∧ ended = some answer := by
  simp [ofPoll, and_comm]

end Effect

namespace Tap

variable {σ : Type} [ByteSink σ]

def Written (first tap : Tap σ) : Prop :=
  tap.queue = first.queue ∧ ∃ calls : List SinkCall, (∀ call ∈ calls, call.IsWrite) ∧
    Calls first.sink calls tap.sink ∧ tap.log = first.log ++ calls.map (.call first.queue)

theorem Written.refl (tap : Tap σ) : Written tap tap :=
  ⟨rfl, [], fun _ hcall => absurd hcall List.not_mem_nil, .nil, (List.append_nil _).symm⟩

theorem Written.write {first tap : Tap σ} (h : Written first tap) (bytes : Bytes) :
    Written first (ByteSink.write bytes tap).2 := by
  obtain ⟨hqueue, calls, hwrites, hcalls, hlog⟩ := h
  have hmade : Calls first.sink (calls ++ [.write bytes (ByteSink.write bytes tap.sink).1])
      (ByteSink.write bytes tap).2.sink := .snoc hcalls (Eq.refl (ByteSink.write bytes tap.sink))
  refine ⟨hqueue, _, fun call hcall => ?_, hmade, ?_⟩
  · rcases List.mem_append.mp hcall with hcall | hcall
    · exact hwrites call hcall
    · cases List.mem_singleton.mp hcall
      trivial
  · rw [List.map_append, ← List.append_assoc, ← hlog, ← hqueue]
    rfl

end Tap

namespace Scene

variable {σ : Type} [ByteSink σ]

theorem log_pollAt (flags : List Bool) (w : RxWorker σ) (scene : Scene) :
    ∃ calls : List SinkCall, (∀ call ∈ calls, call.IsWrite) ∧
      Calls w.sink calls (Polled.pollAt flags w scene).2.1.sink ∧
      (Polled.pollAt flags w scene).2.2.log = scene.log ++
        Effect.ofPoll w.queue.channel.id.index calls
          (Drive.ending (Polled.pollAt flags w scene).2.1 (Polled.pollAt flags w scene).1) := by
  let tap : Tap σ := { queue := w.queue.channel.id.index, sink := w.sink, log := scene.log }
  obtain ⟨-, calls, hwrites, hcalls, hlog⟩ := Drive.pollOn_preserves (P := tap.Written)
    (fun bytes _ h => h.write bytes) flags (w := w.mapSink fun _ => tap) scene.card (.refl tap)
  refine ⟨calls, hwrites, hcalls, ?_⟩
  rw [Effect.ofPoll, ← List.append_assoc]
  exact congrArg (· ++ _) hlog

theorem onCard_eq {α : Type} {act : Card → α × Card} {card card' : Card} {answer : α}
    {log : List Effect} {events : List Event} (hact : act card = (answer, card'))
    (hj : card'.journal = card.journal ++ events) :
    Ground.onCard act (Scene.mk card log) = (answer, ⟨card', log ++ events.map .entry⟩) := by
  simp only [Ground.onCard, hact, hj, List.drop_left]

theorem onCard_snd {f : Card → Card} {card : Card} {log : List Effect} {events : List Event}
    (hj : (f card).journal = card.journal ++ events) :
    (Ground.onCard (fun card => ((), f card)) (Scene.mk card log)).2 =
      ⟨f card, log ++ events.map .entry⟩ := by
  have hscene : Ground.onCard (fun card => ((), f card)) (Scene.mk card log) =
      ((), ⟨f card, log ++ events.map .entry⟩) := onCard_eq rfl hj
  rw [hscene]

theorem journal_pollAt (flags : List Bool) (w : RxWorker σ) (scene : Scene) :
    (Polled.pollAt flags w scene).2.2.card.journal = scene.card.journal := by
  have hcard : (Polled.pollAt flags w scene).2.2.card = (Drive.pollOn flags w scene.card).2.2 := by
    rw [pollOn_card]
  rw [hcard, Drive.pollOn_card, Card.journal_withRing]

theorem standing_pollAt (flags : List Bool) (w : RxWorker σ) (scene : Scene) :
    (Polled.pollAt flags w scene).2.1.queue.standing = w.queue.standing := by
  have hworker : (Polled.pollAt flags w scene).2.1 = (Drive.pollOn flags w scene.card).2.1 := by
    rw [pollOn_card]
  rw [hworker]
  exact Drive.pollOn_kept (g := fun w : RxWorker σ => w.queue.standing) LawfulWorker.poll_standing
    flags w scene.card

end Scene

namespace Receive

variable {σ η : Type} [ByteSink σ]

section Steps

/-- How threads are that began with `ws` in `scene`, and what is on record since. -/
structure Accounted (ws : List (RxWorker σ)) (scene : Scene) (told : List Effect)
    (t : Threads (RxWorker σ) Scene) : Prop where
  journal_eq : t.card.card.journal = scene.card.journal
  log_eq : t.card.log = scene.log ++ told
  length_eq : t.stations.length = ws.length
  of_mem : ∀ e ∈ told, ∃ i < ws.length, e.worker? = some i
  standing_eq : ∀ {i : Nat} {s : Station (RxWorker σ)} {w : RxWorker σ}, t.stations[i]? = some s →
    ws[i]? = some w → s.worker.queue.standing = w.queue.standing
  calls : ∀ {i : Nat} {s : Station (RxWorker σ)} {w : RxWorker σ}, t.stations[i]? = some s →
    ws[i]? = some w → Calls w.sink (told.filterMap (Effect.callOn? i)) s.worker.sink
  ended_mem_iff : ∀ {i : Nat} {s : Station (RxWorker σ)}, t.stations[i]? = some s →
    ∀ answer, .ended i answer ∈ told ↔ s.ended = some answer

variable {ws : List (RxWorker σ)} {scene : Scene} {told : List Effect}
  {t : Threads (RxWorker σ) Scene}

theorem accounted_start (ws : List (RxWorker σ)) (scene : Scene) :
    Accounted ws scene [] (Threads.start ws scene) := by
  have hstart : ∀ {i : Nat} {s : Station (RxWorker σ)},
      (Threads.start ws scene).stations[i]? = some s → ∃ w, ws[i]? = some w ∧ ⟨w, none⟩ = s :=
    fun hs => Option.map_eq_some_iff.mp ((List.getElem?_map ..).symm.trans hs)
  refine ⟨rfl, (List.append_nil _).symm, List.length_map _,
    fun _ he => absurd he List.not_mem_nil, fun hs hw => ?_, fun hs hw => ?_, fun hs answer => ?_⟩
  · obtain ⟨w, hw', rfl⟩ := hstart hs
    cases hw.symm.trans hw'
    rfl
  · obtain ⟨w, hw', rfl⟩ := hstart hs
    cases hw.symm.trans hw'
    exact .nil
  · obtain ⟨w, -, rfl⟩ := hstart hs
    simp

theorem Accounted.poll (h : Accounted ws scene told t)
    (hplace : ∀ {i : Nat} {w : RxWorker σ}, ws[i]? = some w → w.queue.channel.id.index = i)
    (i : Nat) : ∃ told', Accounted ws scene told' (t.step (.poll i)) := by
  rw [Threads.step]
  split
  · next w hi =>
    have hlt := (List.getElem?_eq_some_iff.mp hi).1
    have hw₀ := List.getElem?_eq_getElem (h.length_eq ▸ hlt)
    have hindex : w.queue.channel.id.index = i :=
      (congrArg (·.id.index) (h.standing_eq hi hw₀)).trans (hplace hw₀)
    -- Of what is on record only the part of this worker grows: the others are framed below.
    obtain ⟨calls, hwrites, hcalls, hlog⟩ := Scene.log_pollAt [t.shutdown, t.abort] w t.card
    have hjournal := Scene.journal_pollAt [t.shutdown, t.abort] w t.card
    have hstanding := Scene.standing_pollAt [t.shutdown, t.abort] w t.card
    rw [hindex] at hlog
    rcases hpoll : Polled.pollAt [t.shutdown, t.abort] w t.card with ⟨answer, w', scene'⟩
    rw [hpoll] at hcalls hlog hjournal hstanding
    dsimp only at hcalls hlog hjournal hstanding ⊢
    refine ⟨told ++ Effect.ofPoll i calls (Drive.ending w' answer), hjournal.trans h.journal_eq, ?_,
      (List.length_set ..).trans h.length_eq, fun e he => ?_, fun hs hw => ?_, fun hs hw => ?_,
      fun hs answer' => ?_⟩
    · rw [hlog, h.log_eq, List.append_assoc]
    · rcases List.mem_append.mp he with he | he
      · exact h.of_mem e he
      · exact ⟨i, h.length_eq ▸ hlt, Effect.worker?_ofPoll hwrites e he⟩
    · obtain ⟨rfl, rfl⟩ | ⟨-, hs⟩ := Card.getElem?_set_cases hs
      · exact hstanding.trans (h.standing_eq hi hw)
      · exact h.standing_eq hs hw
    · rw [List.filterMap_append]
      obtain ⟨rfl, rfl⟩ | ⟨hij, hs⟩ := Card.getElem?_set_cases hs
      · rw [Effect.callsOn_ofPoll]
        exact (h.calls hi hw).append hcalls
      · rw [Effect.callsOn_ofPoll_of_ne hwrites hij, List.append_nil]
        exact h.calls hs hw
    · rw [List.mem_append, Effect.ended_mem_ofPoll]
      obtain ⟨rfl, rfl⟩ | ⟨hij, hs⟩ := Card.getElem?_set_cases hs
      · simp [h.ended_mem_iff hi]
      · simp [h.ended_mem_iff hs, hij]
  · exact ⟨told, h⟩

theorem Accounted.hardware (h : Accounted ws scene told t) {act : Card → Card}
    (hquiet : ∀ card, (act card).journal = card.journal) :
    Accounted ws scene told (t.step (.hardware act)) := by
  have hlog : (t.step (.hardware act)).card.log = t.card.log := by
    have hnone : (act t.card.card).journal.drop t.card.card.journal.length = [] := by
      rw [hquiet, List.drop_length]
    simp only [Threads.step, Ground.onCard, hnone, List.map_nil, List.append_nil]
  exact ⟨(hquiet _).trans h.journal_eq, hlog.trans h.log_eq, h.length_eq, h.of_mem, h.standing_eq,
    h.calls, h.ended_mem_iff⟩

theorem Accounted.steps (h : Accounted ws scene told t)
    (hplace : ∀ {i : Nat} {w : RxWorker σ}, ws[i]? = some w → w.queue.channel.id.index = i)
    {row : List ThreadStep}
    (hquiet : ∀ act, .hardware act ∈ row → ∀ card, (act card).journal = card.journal) :
    ∃ told', Accounted ws scene told' (t.steps row) := by
  induction row generalizing t told with
  | nil => exact ⟨told, h⟩
  | cons x row ih =>
    obtain ⟨told', h'⟩ : ∃ told', Accounted ws scene told' (t.step x) := by
      cases x with
      | poll i => exact h.poll hplace i
      | raise | ask =>
        exact ⟨told, h.journal_eq, h.log_eq, h.length_eq, h.of_mem, h.standing_eq, h.calls,
          h.ended_mem_iff⟩
      | hardware act => exact ⟨told, h.hardware (hquiet act List.mem_cons_self)⟩
    exact ih h' fun act hact => hquiet act (List.mem_cons_of_mem x hact)

end Steps

section Flushes

structure Flushes (index : Nat) (sinks : List σ) (told : List Effect)
    (answer : Except (Halt RunError) Unit) (sinks' : List σ) : Prop where
  length_eq : sinks'.length = sinks.length
  of_mem : ∀ e ∈ told, ∃ k < sinks.length, ∃ answer, e = .call (index + k) (.flush answer)
  calls : ∀ {k : Nat} {s s' : σ}, sinks[k]? = some s → sinks'[k]? = some s' →
    Calls s (told.filterMap (Effect.callOn? (index + k))) s'
  verdict : (answer = .ok () ∧ told.filterMap Effect.flush? =
      (List.range' index sinks.length).map fun i => (i, .ok ())) ∨
    ∃ k < sinks.length, ∃ e,
      answer = .error (e.map fun cause => .worker (.sink ⟨.rx, index + k⟩ cause)) ∧
      told.filterMap Effect.flush? =
        ((List.range' index k).map fun i => (i, .ok ())) ++ [(index + k, .error e)]

variable {index : Nat} {s t : σ} {rest rest' : List σ}

theorem flushes_refused {e : Halt IoError} (hs : ByteSink.flush s = (.error e, t)) :
    Flushes index (s :: rest) [.call index (.flush (.error e))]
      (.error (e.map fun cause => .worker (.sink ⟨.rx, index⟩ cause))) (t :: rest) where
  length_eq := rfl
  of_mem _ hmem := ⟨0, Nat.succ_pos _, _, List.mem_singleton.mp hmem⟩
  calls {k u u'} hu hu' := by
    cases k with
    | zero =>
      cases hu
      cases hu'
      rw [Nat.add_zero, List.filterMap_cons_some (Effect.callOn?_self index _)]
      exact .snoc .nil hs
    | succ k =>
      cases hu.symm.trans hu'
      rw [List.filterMap_cons_none (Effect.callOn?_of_ne (by omega) _)]
      exact .nil
  verdict := .inr ⟨0, Nat.succ_pos _, e, rfl, rfl⟩

theorem Flushes.cons {told : List Effect} {answer : Except (Halt RunError) Unit}
    (hs : ByteSink.flush s = (.ok (), t)) (h : Flushes (index + 1) rest told answer rest') :
    Flushes index (s :: rest) (.call index (.flush (.ok ())) :: told) answer (t :: rest') where
  length_eq := congrArg Nat.succ h.length_eq
  of_mem e hmem := by
    rcases List.mem_cons.mp hmem with rfl | hmem
    · exact ⟨0, Nat.succ_pos _, _, rfl⟩
    · obtain ⟨k, hk, answer, rfl⟩ := h.of_mem e hmem
      exact ⟨k + 1, Nat.succ_lt_succ hk, answer, by rw [Nat.add_assoc, Nat.add_comm 1]⟩
  calls {k u u'} hu hu' := by
    cases k with
    | zero =>
      cases hu
      cases hu'
      have hnone : told.filterMap (Effect.callOn? index) = [] := by
        refine List.filterMap_eq_nil_iff.mpr fun e hmem => ?_
        obtain ⟨k, -, answer, rfl⟩ := h.of_mem e hmem
        exact Effect.callOn?_of_ne (by omega) _
      rw [Nat.add_zero, List.filterMap_cons_some (Effect.callOn?_self index _), hnone]
      exact .snoc .nil hs
    | succ k =>
      have hrest := h.calls hu hu'
      rw [Nat.add_right_comm] at hrest
      rw [List.filterMap_cons_none (Effect.callOn?_of_ne (by omega) _)]
      exact hrest
  verdict := by
    rcases h.verdict with ⟨hok, hall⟩ | ⟨k, hk, e, herror, hfront⟩
    · refine .inl ⟨hok, ?_⟩
      rw [List.filterMap_cons_some (Effect.flush?_flush index _), hall, List.length_cons,
        List.range'_succ, List.map_cons]
    · refine .inr ⟨k + 1, Nat.succ_lt_succ hk, e, ?_, ?_⟩
      · rw [← Nat.add_assoc, Nat.add_right_comm]
        exact herror
      · rw [List.filterMap_cons_some (Effect.flush?_flush index _), hfront, List.range'_succ,
          List.map_cons, List.cons_append, ← Nat.add_assoc, Nat.add_right_comm]

theorem log_flushEach (index : Nat) (sinks : List σ) (scene : Scene) :
    ∃ told, Flushes index sinks told (flushEach index sinks scene).1
        (flushEach index sinks scene).2.1 ∧
      (flushEach index sinks scene).2.2 = { scene with log := scene.log ++ told } := by
  -- General in the index, for the rest is numbered on from the next one.
  induction sinks generalizing index scene with
  | nil =>
    refine ⟨[], ⟨rfl, fun _ hmem => absurd hmem List.not_mem_nil, fun hs => ?_,
      .inl ⟨rfl, rfl⟩⟩, ?_⟩
    · cases hs
    · rw [List.append_nil]
      rfl
  | cons s rest ih =>
    have hflush : Flushed.flushAt index s scene = ((ByteSink.flush s).1, (ByteSink.flush s).2,
        { scene with log := scene.log ++ [.call index (.flush (ByteSink.flush s).1)] }) := rfl
    rw [flushEach, hflush]
    rcases hs : ByteSink.flush s with ⟨e | _, t⟩
    · exact ⟨_, flushes_refused hs, rfl⟩
    · obtain ⟨told, hrest, hlog⟩ := ih (index + 1)
        { scene with log := scene.log ++ [.call index (.flush (.ok ()))] }
      exact ⟨_, hrest.cons hs, hlog.trans
        (congrArg (Scene.mk scene.card) (List.append_assoc scene.log _ told))⟩

end Flushes

section Closing

/-- How a run closes: it flushes the sinks if every worker has returned a report. -/
inductive Closing (t : Threads (RxWorker σ) Scene) :
    List Effect → Except (Halt RunError) RunReport → List σ → Prop
  | failed {e : Halt RunError}
      (h : ¬∀ s ∈ t.stations, ∃ report, s.ended = some (.ok report)) :
    Closing t [] (.error e) (t.stations.map (·.worker.sink))
  | settled {flushes : List Effect} {answer : Except (Halt RunError) Unit}
      {reports : List WorkerReport} {sinks' : List σ}
      (h : ∀ s ∈ t.stations, ∃ report, s.ended = some (.ok report))
      (hf : Flushes 0 (t.stations.map (·.worker.sink)) flushes answer sinks') :
    Closing t flushes (answer.map fun _ => ⟨.rx, reports⟩) sinks'

/-- The workers are stepped along a row that leaves the journal alone. -/
def Work.Stepped (schedule : Schedule) (work : Work σ η Scene) : Prop :=
  ∀ ws h scene, ∃ row t h',
    (∀ act, .hardware act ∈ row → ∀ card, (act card).journal = card.journal) ∧
    (Threads.start ws scene).steps row = t ∧
    work ws h scene = (Drive.outcome schedule t.toFloor, t.stations.map (·.worker), h', t.card)

theorem stepped_run [Hardware η] [LawfulHardware η] (schedule : Schedule) (shutdown : Bool) :
    Work.Stepped (σ := σ) (η := η) schedule (Drive.run schedule shutdown) := by
  intro ws h scene
  let asked := (Threads.start ws scene).step (.ask shutdown)
  obtain ⟨row, hacts, hrow⟩ :=
    Threads.exists_steps_sweeps schedule (Drive.sweepsLeft ws) h asked
  rcases hsweeps : Drive.sweeps schedule shutdown (Drive.sweepsLeft ws) h (Drive.start ws scene)
    with ⟨h', f⟩
  have hfloor : ((Threads.start ws scene).steps (.ask shutdown :: row)).toFloor = f :=
    hrow.trans (congrArg Prod.snd hsweeps)
  refine ⟨.ask shutdown :: row, _, h', fun act hact card => ?_, rfl, ?_⟩
  · have hact : .hardware act ∈ row := by simpa using hact
    obtain ⟨h, rfl⟩ := hacts act hact
    exact LawfulHardware.journal_act h card
  · rw [hfloor]
    rw [Drive.start] at hsweeps
    simp only [Drive.run, hsweeps]

theorem stepped_along (schedule : Schedule) {row : List ThreadStep}
    (hquiet : ∀ act, .hardware act ∈ row → ∀ card, (act card).journal = card.journal) :
    Work.Stepped (σ := σ) (η := η) schedule (Threads.along schedule row) :=
  fun _ h _ => ⟨row, _, h, hquiet, rfl, rfl⟩

variable {work : Work σ η Scene} {c : Config}

/-- Between setup and teardown a run has on record what its workers have done, and after that the
flushes. -/
theorem log_driveBy (hwork : work.Stepped c.schedule) {budgets : List Int}
    (hb : c.rx.budgets = .ok budgets) (sinks : List σ) (s : Session)
    (hplace : ∀ {i : Nat} {w : RxWorker σ}, (workers c s.queues sinks budgets)[i]? = some w →
      w.queue.channel.id.index = i) (h : η) (scene : Scene) :
    ∃ t told flushes answer sinks' h',
      driveBy work c sinks s h scene =
        (answer, sinks', { s with queues := t.stations.map (·.worker.queue) }, h',
          ⟨t.card.card, scene.log ++ told ++ flushes⟩) ∧
      Accounted (workers c s.queues sinks budgets) scene told t ∧
      Closing t flushes answer sinks' := by
  obtain ⟨row, t, h', hquiet, ht, hrun⟩ := hwork (workers c s.queues sinks budgets) h scene
  obtain ⟨told, htold⟩ :=
    (accounted_start (workers c s.queues sinks budgets) scene).steps hplace hquiet
  rw [ht] at htold
  have hlog : t.card = ⟨t.card.card, scene.log ++ told⟩ := by rw [← htold.log_eq]
  rw [driveBy, hb]
  dsimp only
  rw [hrun, List.map_map, List.map_map]
  cases hout : Drive.outcome c.schedule t.toFloor with
  | error e =>
    refine ⟨t, told, [], .error e, _, h', ?_, htold, .failed fun hok => ?_⟩
    · rw [List.append_nil, ← hlog]
      rfl
    · obtain ⟨reports, hreports⟩ := Threads.exists_reported_of_ok hok
      have hok : Drive.outcome c.schedule t.toFloor.erase = .ok reports :=
        Drive.outcome_eq_ok.mpr hreports
      cases hout.symm.trans hok
  | ok reports =>
    have hreported : Drive.Reported t.toFloor.erase reports := Drive.outcome_eq_ok.mp hout
    obtain ⟨flushes, hflushes, hflushed⟩ := log_flushEach 0 (t.stations.map (·.worker.sink)) t.card
    have hclose : Closing t flushes
        ((flushEach 0 (t.stations.map (·.worker.sink)) t.card).1.map fun _ => ⟨.rx, reports⟩) _ :=
      .settled (fun s hs => hreported.mem hs) hflushes
    refine ⟨t, told, flushes, _, _, h', ?_, htold, hclose⟩
    have hcard : (flushEach 0 (t.stations.map (·.worker.sink)) t.card).2.2 =
        ⟨t.card.card, scene.log ++ told ++ flushes⟩ := by rw [hflushed, htold.log_eq]
    rw [← hcard]
    rfl

end Closing

end Receive

end DmaBurst
